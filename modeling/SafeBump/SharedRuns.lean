import SafeBump.ArenaModel
import SafeBump.SharedArena

/-!
# The concurrent arena between calls

`SharedArena.Holds sh items` describes an arena no call is under way on:
everything reserved is published, and the slots published are the slots filled.
This module runs the pieces of the operations from such states: reserving,
filling and publishing a range extends the values (`run_fillRange`,
`run_advancePublished`), and taking the last slot removes the last one
(`run_takeSlot`).
-/

namespace SafeBump

open Library.Unwind

variable {tgt : Target} {σ T : Type}

namespace SharedArena

/-- The slots filled are those of `items`, in order. -/
def Filled (st : ChunkedStorage tgt T) (items : List T) : Prop := ∀ i, st.slots i = items[i]?

/-- The first slots are those of `items`, whatever lies beyond. -/
def FilledBelow (st : ChunkedStorage tgt T) (items : List T) : Prop :=
  ∀ i v, items[i]? = some v → st.slots i = some v

theorem Filled.below {st : ChunkedStorage tgt T} {items : List T} (h : Filled st items) :
    FilledBelow st items := fun i _ hv => (h i).trans hv

/-- The values published. -/
def contents (a : SharedArena tgt T) : List T := (List.range a.published).filterMap a.storage.slots

theorem getElem?_contents {a : SharedArena tgt T}
    (h : ∀ i < a.published, a.storage.slots i ≠ none) (i : Nat) :
    a.contents[i]? = if i < a.published then a.storage.slots i else none :=
  Library.filterMap_range h i

theorem length_contents {a : SharedArena tgt T}
    (h : ∀ i < a.published, a.storage.slots i ≠ none) : a.contents.length = a.published :=
  Library.length_filterMap_range h

theorem filledBelow_contents {a : SharedArena tgt T}
    (h : ∀ i < a.published, a.storage.slots i ≠ none) : FilledBelow a.storage a.contents := by
  intro i v hv
  rw [getElem?_contents h] at hv
  split at hv
  · exact hv
  · cases hv

/-- Between calls: reserved, published and filled are the same slots. -/
structure Holds (sh : SharedArena tgt T) (items : List T) : Prop where
  published : sh.published = items.length
  reserved : sh.reserved = items.length
  filled : Filled sh.storage items
  fits : items.length ≤ tgt.usizeMax

theorem Holds.new : (SharedArena.new : SharedArena tgt T).Holds [] :=
  ⟨rfl, rfl, fun i => ChunkedStorage.slots_new i, Nat.zero_le _⟩

theorem Holds.contents_eq {a : SharedArena tgt T} {items : List T} (h : a.Holds items) :
    a.contents = items := by
  have hset : ∀ i < a.published, a.storage.slots i ≠ none := by
    intro i hi
    rw [h.filled i, List.getElem?_eq_getElem (h.published ▸ hi)]
    exact Option.some_ne_none _
  refine List.ext_getElem? fun i => ?_
  rw [getElem?_contents hset i, h.published, h.filled i]
  split
  · rfl
  · exact (List.getElem?_eq_none (Nat.le_of_not_lt ‹_›)).symm

section Run

variable {items values : List T}

theorem run_onIdentity_ok {α : Type} {m : EStateM Exit (SharedIdentity × σ) α} {a : α}
    {sh : SharedArena tgt T} {sid : SharedIdentity} {src src' : σ}
    (h : m.run (sh.identity, src) = .ok a (sid, src')) (d : List T) :
    (onIdentity m).run ⟨sh, src, d⟩ = .ok a ⟨{ sh with identity := sid }, src', d⟩ := by
  simp only [EStateM.run] at h
  simp only [onIdentity, zoom, EStateM.run, h]

theorem run_onIdentity_error {α : Type} {m : EStateM Exit (SharedIdentity × σ) α} {e : Exit}
    {sh : SharedArena tgt T} {sid : SharedIdentity} {src src' : σ}
    (h : m.run (sh.identity, src) = .error e (sid, src')) (d : List T) :
    (onIdentity m).run ⟨sh, src, d⟩ = .error e ⟨{ sh with identity := sid }, src', d⟩ := by
  simp only [EStateM.run] at h
  simp only [onIdentity, zoom, EStateM.run, h]

/-- A lookup leaves everything as it was. -/
theorem run_onIdentity_pure {α : Type} {m : EStateM Exit (SharedIdentity × σ) α} {a : α}
    {sh : SharedArena tgt T} {src : σ}
    (h : m.run (sh.identity, src) = .ok a (sh.identity, src)) (d : List T) :
    (onIdentity m).run ⟨sh, src, d⟩ = .ok a ⟨sh, src, d⟩ :=
  run_onIdentity_ok h d

/-! ## Reserving, filling and publishing -/

theorem run_reserveRange {sh : SharedArena tgt T} {len : Nat} (hpos : 0 < len)
    (hfit : sh.reserved + len ≤ tgt.usizeMax) (src : σ) (d : List T) :
    (reserveRange len).run ⟨sh, src, d⟩
      = .ok sh.reserved ⟨{ sh with reserved := sh.reserved + len }, src, d⟩ := by
  have hadd : tgt.checkedAdd sh.reserved len = some (sh.reserved + len) :=
    Target.checkedAdd_eq_some.mpr ⟨hfit, rfl⟩
  simp [reserveRange, Nat.ne_of_gt hpos, hadd, expect]

theorem run_reserveRange_full {sh : SharedArena tgt T} {len : Nat} (hpos : 0 < len)
    (hfull : tgt.usizeMax < sh.reserved + len) (src : σ) (d : List T) :
    (reserveRange len).run ⟨sh, src, d⟩ = .error (.unwinds .slotSpaceExhausted) ⟨sh, src, d⟩ := by
  have hadd : tgt.checkedAdd sh.reserved len = none := Target.checkedAdd_eq_none.mpr hfull
  simp [reserveRange, Nat.ne_of_gt hpos, hadd, expect]

theorem run_fill (panics : Dtor T) (ha : tgt.Affords [items.length]) (sh : SharedArena tgt T)
    (hf : Filled sh.storage items) (hlt : items.length < tgt.usizeMax) (v : T) (src : σ)
    (d : List T) :
    ∃ st, (fill panics items.length v).run ⟨sh, src, d⟩
      = .ok () ⟨{ sh with storage := st }, src, d⟩ ∧
      Filled st (items ++ [v]) := by
  have hempty : sh.storage.slots items.length = none := by simp [hf items.length]
  obtain ⟨st, hset, hslots⟩ :=
    ChunkedStorage.set_empty (ha _ List.mem_cons_self) hlt hempty v
  refine ⟨st, ?_, fun i => ?_⟩
  · have hown : (owning [v] (ofExcept (sh.storage.set items.length v)) :
        Op (SharedArena tgt T) σ T _).run ⟨sh, src, d⟩ = .ok (true, st) ⟨sh, src, d⟩ := by
      rw [hset]
      exact run_owning_ok _ (run_ofExcept_ok _ _)
    simp [fill, hown]
  · rw [hslots, Library.getElem?_concat, hf i]

/-- The slots of a range. -/
def slotRange (start len : Nat) : List Nat := (List.range len).map (start + ·)

theorem slotRange_succ (start len : Nat) :
    slotRange start (len + 1) = start :: slotRange (start + 1) len := by
  simp only [slotRange, List.range_succ_eq_map, List.map_cons, List.map_map, Nat.add_zero]
  congr 1
  exact List.map_congr_left fun i _ => by simp only [Function.comp_apply]; omega

/-- Filling a range extends the filled slots by the values. -/
theorem run_fillRange (panics : Dtor T) (sh : SharedArena tgt T) (start offset : Nat)
    (values : List T)
    (ha : tgt.Affords (slotRange items.length values.length)) (hf : Filled sh.storage items)
    (hstart : start + offset = items.length)
    (hfit : items.length + values.length ≤ tgt.usizeMax) (src : σ) (d : List T) :
    ∃ st, (fillRange panics start offset values).run ⟨sh, src, d⟩
        = .ok () ⟨{ sh with storage := st }, src, d⟩ ∧ Filled st (items ++ values) := by
  induction values generalizing sh items offset with
  | nil => exact ⟨sh.storage, rfl, by simpa using hf⟩
  | cons v values ih =>
      rw [List.length_cons] at hfit
      rw [List.length_cons, slotRange_succ] at ha
      obtain ⟨hhead, hrest⟩ := List.forall_mem_cons.mp ha
      obtain ⟨st, hfill, hf'⟩ :=
        run_fill panics (List.forall_mem_singleton.mpr hhead) sh hf (by omega) v src d
      have hlen : (items ++ [v]).length = items.length + 1 := List.length_append
      obtain ⟨st', hrest, hf''⟩ := ih { sh with storage := st } (offset + 1)
        (hlen ▸ hrest) hf' (by simp [← hstart, Nat.add_assoc]) (by simp; omega)
      refine ⟨st', ?_, by simpa using hf''⟩
      have hadd : tgt.checkedAdd start offset = some items.length :=
        Target.checkedAdd_eq_some.mpr ⟨by omega, hstart.symm⟩
      have hslot : (owning (v :: values) (expect .rangeEnd (tgt.checkedAdd start offset)) :
          Op (SharedArena tgt T) σ T Nat).run ⟨sh, src, d⟩ = .ok items.length ⟨sh, src, d⟩ := by
        rw [hadd]
        exact run_owning_ok _ rfl
      have hown := run_owning_ok values hfill
      simp only [fillRange, EStateM.run_bind, hslot, hown]
      exact hrest

/-- The wait for earlier slots is over at once when they are filled. -/
theorem run_advancePublished (sh : SharedArena tgt T) (lastSlot : Nat)
    (hf : Filled sh.storage items) (hfit : items.length ≤ tgt.usizeMax)
    (hlast : lastSlot < items.length) (hpub : sh.published ≤ lastSlot + 1) (src : σ)
    (d : List T) :
    (advancePublished lastSlot).run ⟨sh, src, d⟩
      = .ok () ⟨{ sh with published := lastSlot + 1 }, src, d⟩ := by
  obtain ⟨n, hn⟩ : ∃ n, lastSlot + 1 - sh.published = n := ⟨_, rfl⟩
  simp only [advancePublished, EStateM.run_bind, EStateM.run_get, hn]
  induction n generalizing sh with
  | zero =>
      have he : sh.published = lastSlot + 1 := by omega
      rw [advanceLoop, ← he]
      rfl
  | succ n ih =>
      have hlt : sh.published < items.length := by omega
      have hset : sh.storage.isSet sh.published = .ok true := by
        rw [ChunkedStorage.isSet_eq (by omega), hf, List.getElem?_eq_getElem hlt]
        rfl
      have hrest := ih { sh with published := sh.published + 1 } hf (by simp; omega)
        (by simp; omega)
      rw [advanceLoop]
      simp only [EStateM.run_bind, EStateM.run_get, hset, run_ofExcept_ok, EStateM.run_modify,
        if_neg (show ¬ lastSlot < sh.published by omega), if_true]
      exact hrest

/-! ## Taking -/

/-- Taking the last slot removes the last value. -/
theorem run_takeSlot {sh : SharedArena tgt T} {v : T} (hf : Filled sh.storage (items ++ [v]))
    (src : σ) (d : List T) :
    ∃ st, (takeSlot items.length).run ⟨sh, src, d⟩
        = .ok v ⟨{ sh with storage := st, published := items.length, reserved := items.length },
            src, d⟩ ∧
      Filled st items := by
  have hslot : sh.storage.slots items.length = some v := by simp [hf items.length]
  obtain ⟨st, htake, hslots⟩ := ChunkedStorage.take_eq hslot
  refine ⟨st, by simp [takeSlot, htake, expect], fun i => ?_⟩
  rw [hslots, hf i, Library.getElem?_concat]
  split
  · rename_i he
    rw [he, List.getElem?_eq_none (Nat.le_refl _)]
  · rfl

end Run

/-! ## Allocating -/

/-- The slots a request fills that is alone on the arena.  It gets to fill any if there is a
stamp for it and room. -/
def filling (fresh : Source σ) (sh : SharedArena tgt T) (src : σ) (req : Request T) : List Nat :=
  if (sh.identity.current ≠ 0 ∨ (fresh src).1.isOk = true) ∧
      sh.reserved + req.stored.length ≤ tgt.usizeMax then
    slotRange sh.reserved req.stored.length
  else []

theorem filling_of_current {fresh : Source σ} {sh : SharedArena tgt T} {src : σ} {req : Request T}
    (hcur : sh.identity.current ≠ 0) (hfit : sh.reserved + req.stored.length ≤ tgt.usizeMax) :
    filling fresh sh src req = slotRange sh.reserved req.stored.length :=
  if_pos ⟨.inl hcur, hfit⟩

theorem filling_of_fresh {fresh : Source σ} {sh : SharedArena tgt T} {src src' : σ} {s : Stamp}
    {req : Request T} (hf : fresh src = (.ok s, src'))
    (hfit : sh.reserved + req.stored.length ≤ tgt.usizeMax) :
    filling fresh sh src req = slotRange sh.reserved req.stored.length :=
  if_pos ⟨.inr (by rw [hf]; rfl), hfit⟩

section Alloc

variable {sh : SharedArena tgt T} {items values : List T} {id : Identity} {fresh : Source σ}

theorem run_enter (fresh : Source σ) (values : List T) (hid : sh.identity.Mirrors id) (src : σ)
    (d : List T) :
    (owning values (onIdentity (SharedIdentity.currentStamp fresh)) :
      Op (SharedArena tgt T) σ T Stamp).run ⟨sh, src, d⟩ = .ok id.current ⟨sh, src, d⟩ :=
  run_owning_ok values (run_onIdentity_pure hid.run_currentStamp d)

theorem run_reserve_owning (hh : sh.Holds items) (hpos : 0 < values.length)
    (hfit : items.length + values.length ≤ tgt.usizeMax) (src : σ) (d : List T) :
    (owning values (reserveRange values.length) : Op (SharedArena tgt T) σ T Nat).run ⟨sh, src, d⟩
      = .ok items.length
          ⟨{ sh with reserved := items.length + values.length }, src, d⟩ := by
  have h := run_reserveRange hpos (hh.reserved ▸ hfit) src d
  rw [hh.reserved] at h
  exact run_owning_ok values h

theorem run_reserve_full (hh : sh.Holds items) (hpos : 0 < values.length)
    (hfull : tgt.usizeMax < items.length + values.length) (src : σ) (d : List T) :
    (owning values (reserveRange values.length) : Op (SharedArena tgt T) σ T Nat).run ⟨sh, src, d⟩
      = .error (.unwinds .slotSpaceExhausted) ⟨sh, src, d ++ values⟩ :=
  run_owning_unwinds values (run_reserveRange_full hpos (hh.reserved ▸ hfull) src d)

theorem run_alloc_fit (panics : Dtor T) (ha : tgt.Affords [items.length]) (hh : sh.Holds items)
    (hid : sh.identity.Mirrors id) (v : T) (hfit : items.length + 1 ≤ tgt.usizeMax) (src : σ)
    (d : List T) :
    ∃ sh', (alloc fresh panics v).run ⟨sh, src, d⟩
        = .ok ⟨id.current, items.length⟩ ⟨sh', src, d⟩ ∧
      sh'.Holds (items ++ [v]) ∧ sh'.identity = sh.identity := by
  have henter := run_enter fresh [v] hid src d
  have hpos : 0 < [v].length := Nat.succ_pos _
  have hres := run_reserve_owning hh hpos hfit src d
  obtain ⟨st, hfill, hf⟩ :=
    run_fill panics ha { sh with reserved := items.length + 1 } hh.filled hfit v src d
  have hadv := run_advancePublished { sh with reserved := items.length + 1, storage := st }
    items.length hf (by simpa using hfit) (by simp) (by simp [hh.published]) src d
  refine ⟨{ sh with
    storage := st, reserved := items.length + 1, published := items.length + 1 }, ?_,
    ⟨by simp, by simp, hf, by simpa using hfit⟩, rfl⟩
  simp only [List.length_singleton] at hres
  simp only [alloc, EStateM.run_bind, henter, hres, hfill, hadv, EStateM.run_pure]

theorem run_alloc_full (panics : Dtor T) (hh : sh.Holds items)
    (hid : sh.identity.Mirrors id) (v : T)
    (hfull : tgt.usizeMax < items.length + 1) (src : σ) (d : List T) :
    (alloc fresh panics v).run ⟨sh, src, d⟩
      = .error (.unwinds .slotSpaceExhausted) ⟨sh, src, d ++ [v]⟩ := by
  have henter := run_enter fresh [v] hid src d
  have hpos : 0 < [v].length := Nat.succ_pos _
  have hres := run_reserve_full hh hpos hfull src d
  simp only [List.length_singleton] at hres
  simp only [alloc, EStateM.run_bind, henter, hres]

/-- `alloc_block` on an input that yields something and does not panic. -/
theorem allocBlock_cons (fresh : Source σ) (panics : Dtor T) (v : T) (values : List T) :
    (allocBlock fresh panics ⟨v :: values, false⟩ : Op (SharedArena tgt T) σ T Block) = (do
      let stamp ← owning (v :: values) (onIdentity (SharedIdentity.currentStamp fresh))
      let start ← owning (v :: values) (reserveRange (v :: values).length)
      fillRange panics start 0 (v :: values)
      let last ← expect .rangeEnd (tgt.checkedAdd start ((v :: values).length - 1))
      advancePublished last
      ofExcept (Block.new tgt stamp start (v :: values).length)) := rfl

theorem run_allocBlock_fit (panics : Dtor T) (hh : sh.Holds items)
    (hid : sh.identity.Mirrors id) (v : T)
    (values : List T) (ha : tgt.Affords (slotRange items.length (v :: values).length))
    (hfit : items.length + (v :: values).length ≤ tgt.usizeMax) (src : σ) (d : List T) :
    ∃ sh', (allocBlock fresh panics ⟨v :: values, false⟩).run ⟨sh, src, d⟩
        = .ok ⟨some id.current, items.length, (v :: values).length⟩ ⟨sh', src, d⟩ ∧
      sh'.Holds (items ++ v :: values) ∧ sh'.identity = sh.identity := by
  rw [allocBlock_cons]
  have hpos : 0 < (v :: values).length := Nat.succ_pos _
  generalize v :: values = vs at hfit hpos ha ⊢
  have henter := run_enter fresh vs hid src d
  have hres := run_reserve_owning hh hpos hfit src d
  obtain ⟨st, hfill, hf⟩ := run_fillRange panics { sh with reserved := items.length + vs.length }
    items.length 0 vs ha hh.filled (Nat.add_zero _) hfit src d
  have hlen : (items ++ vs).length = items.length + vs.length := List.length_append
  have hlast : items.length + (vs.length - 1) + 1 = items.length + vs.length := by omega
  have hadd : tgt.checkedAdd items.length (vs.length - 1) = some (items.length + (vs.length - 1)) :=
    Target.checkedAdd_eq_some.mpr ⟨by omega, rfl⟩
  have hle : items.length ≤ items.length + (vs.length - 1) + 1 := by omega
  have hadv := run_advancePublished
    { sh with reserved := items.length + vs.length, storage := st }
    (items.length + (vs.length - 1)) hf (hlen ▸ hfit) (by omega) (hh.published ▸ hle) src d
  rw [hlast] at hadv
  have hblock : Block.new tgt id.current items.length vs.length
      = .ok ⟨some id.current, items.length, vs.length⟩ :=
    Block.new_eq_ok hpos (Nat.le_succ_of_le hfit)
  refine ⟨{ sh with
    storage := st, reserved := items.length + vs.length, published := items.length + vs.length },
    ?_, ⟨hlen.symm, hlen.symm, hf, hlen ▸ hfit⟩, rfl⟩
  simp only [EStateM.run_bind, henter, hres, hfill, hadd, expect, EStateM.run_pure, hadv, hblock,
    run_ofExcept_ok]

theorem run_allocBlock_full (panics : Dtor T) (hh : sh.Holds items)
    (hid : sh.identity.Mirrors id) (v : T)
    (values : List T) (hfull : tgt.usizeMax < items.length + (v :: values).length) (src : σ)
    (d : List T) :
    (allocBlock fresh panics ⟨v :: values, false⟩).run ⟨sh, src, d⟩
      = .error (.unwinds .slotSpaceExhausted) ⟨sh, src, d ++ v :: values⟩ := by
  have henter := run_enter fresh (v :: values) hid src d
  have hpos : 0 < (v :: values).length := Nat.succ_pos _
  have hres := run_reserve_full hh hpos hfull src d
  rw [allocBlock_cons]
  simp only [EStateM.run_bind, henter, hres]

/-! ## The first capability -/

/-- A call that starts by asking for the current stamp goes on as it does once
the identity is there. -/
theorem run_enter_new {α : Type} {src src' : σ} {s : Stamp} (hf : fresh src = (.ok s, src'))
    (hid : sh.identity = .new) (values : List T) (k : Stamp → Op (SharedArena tgt T) σ T α)
    (d : List T) :
    (owning values (onIdentity (SharedIdentity.currentStamp fresh)) >>= k).run ⟨sh, src, d⟩
      = (owning values (onIdentity (SharedIdentity.currentStamp fresh)) >>= k).run
          ⟨{ sh with identity := .born s }, src', d⟩ := by
  have h1 : (SharedIdentity.currentStamp fresh).run (sh.identity, src)
      = .ok s (.born s, src') := by
    rw [hid, SharedIdentity.run_currentStamp_new, SharedIdentity.run_assign_ok hf]
  have hborn : ({ sh with identity := .born s } : SharedArena tgt T).identity.Mirrors (.new s) :=
    .of_born s
  have h2 := run_enter fresh values hborn src' d
  rw [EStateM.run_bind, EStateM.run_bind, run_owning_ok values (run_onIdentity_ok h1 d), h2]
  rfl

theorem run_enter_error {α : Type} {src src' : σ} {p : Panic} (hf : fresh src = (.error p, src'))
    (hid : sh.identity = .new) (values : List T) (k : Stamp → Op (SharedArena tgt T) σ T α)
    (d : List T) :
    (owning values (onIdentity (SharedIdentity.currentStamp fresh)) >>= k).run ⟨sh, src, d⟩
      = .error (.unwinds p) ⟨sh, src', d ++ values⟩ := by
  have h : (SharedIdentity.currentStamp fresh).run (sh.identity, src)
      = .error (.unwinds p) (sh.identity, src') := by
    rw [hid, SharedIdentity.run_currentStamp_new, SharedIdentity.run_assign_error hf]
  rw [EStateM.run_bind, run_owning_unwinds values (run_onIdentity_error h d)]

end Alloc

/-! ## Reading -/

section Read

variable {sh : SharedArena tgt T}

theorem run_iterIndexedFrom {fresh : Source σ} {stampAt : Nat → Stamp}
    (hstamp : ∀ slot src, (SharedIdentity.stampOf fresh slot).run (sh.identity, src)
      = .ok (stampAt slot) (sh.identity, src))
    (pre items : List T) (hf : FilledBelow sh.storage (pre ++ items)) (src : σ) (d : List T) :
    (iterIndexedFrom fresh pre.length items.length).run ⟨sh, src, d⟩
      = .ok ((items.zipIdx pre.length).map fun (v, slot) => (⟨stampAt slot, slot⟩, v))
          ⟨sh, src, d⟩ := by
  induction items generalizing pre with
  | nil => rfl
  | cons v items ih =>
      have hget : sh.storage.get pre.length = .ok v :=
        ChunkedStorage.get_eq (hf _ _ (by simp))
      have hs := run_onIdentity_pure (hstamp pre.length src) d
      have happ : pre ++ v :: items = (pre ++ [v]) ++ items := by simp
      have hrest := ih (pre ++ [v]) (happ ▸ hf)
      rw [List.length_append, List.length_singleton] at hrest
      simp only [List.length_cons, iterIndexedFrom, EStateM.run_bind, EStateM.run_get, hget,
        run_ofExcept_ok, hs, hrest, EStateM.run_pure]
      rfl

end Read

/-! ## Cutting down -/

/-- What `try_rollback` does with a checkpoint it accepts, and `reset` with 0. -/
def cutDown (fresh : Source σ) (panics : Dtor T) (n : Nat) : Op (SharedArena tgt T) σ T Unit := do
  onIdentity (SharedIdentity.commit fresh n)
  takeDownTo panics n (← get).arena.published

theorem run_tryRollback_valid {fresh : Source σ} {c : Ctx (SharedArena tgt T) σ T}
    {cp : Checkpoint} (hv : (validateCheckpoint fresh cp).run c = .ok (.ok ()) c)
    (panics : Dtor T) :
    (tryRollback fresh panics cp).run c
      = ((fun _ => .ok ()) <$> cutDown fresh panics cp.len).run c := by
  simp only [tryRollback, cutDown, run_map, EStateM.run_bind, hv]
  cases (onIdentity (SharedIdentity.commit fresh cp.len)).run c with
  | error e c => rfl
  | ok u c =>
      simp only [EStateM.run_get]
      cases (takeDownTo panics cp.len c.arena.published).run c <;> rfl

end SharedArena

theorem SharedArenaIter.collect_filled {st : ChunkedStorage tgt T} (pre items : List T)
    (hf : SharedArena.FilledBelow st (pre ++ items)) :
    SharedArenaIter.collect items.length ⟨st, pre.length, (pre ++ items).length⟩ = .ok items := by
  induction items generalizing pre with
  | nil => rfl
  | cons v items ih =>
      have hne : pre.length ≠ (pre ++ v :: items).length := by simp
      have hget : st.get pre.length = .ok v := ChunkedStorage.get_eq (hf _ _ (by simp))
      have happ : pre ++ v :: items = (pre ++ [v]) ++ items := by simp
      have hrest := ih (pre ++ [v]) (happ ▸ hf)
      rw [← happ, List.length_append, List.length_singleton] at hrest
      rw [List.length_cons, SharedArenaIter.collect, SharedArenaIter.next, if_neg hne]
      simp only [hget, bind, Except.bind, pure, Except.pure, hrest]

namespace SharedArena

/-! ## Reading the published values -/

section Contents

variable {a : SharedArena tgt T}

theorem iter_contents (h : ∀ i < a.published, a.storage.slots i ≠ none) :
    a.iter = .ok a.contents := by
  have hrun := SharedArenaIter.collect_filled [] a.contents (filledBelow_contents h)
  rwa [List.nil_append, length_contents h] at hrun

theorem run_iterIndexed_contents {fresh : Source σ} {stampAt : Nat → Stamp}
    (hstamp : ∀ slot src, (SharedIdentity.stampOf fresh slot).run (a.identity, src)
      = .ok (stampAt slot) (a.identity, src))
    (h : ∀ i < a.published, a.storage.slots i ≠ none) (src : σ) (d : List T) :
    (iterIndexed fresh).run ⟨a, src, d⟩
      = .ok (a.contents.zipIdx.map fun (v, slot) => (⟨stampAt slot, slot⟩, v)) ⟨a, src, d⟩ := by
  have hrun := run_iterIndexedFrom hstamp [] a.contents (filledBelow_contents h) src d
  rw [length_contents h] at hrun
  exact hrun

end Contents

end SharedArena

end SafeBump
