import SafeBump.SharedRuns

/-!
# An allocation on an arena in any state

Storing a value can fail: the chunk it needs may not be there to be had, or the slot
may be in use.  `SharedArena.Whole` is what an arena keeps all the same.  From any
such state an allocation that nothing interferes with ends in one way, which is read
off the slots: it fills its range up to the first slot that is in use or without
memory, and publishes as far as slots are filled (`run_placing`).

Nothing is said here of how the slots came to be as they are.
-/

namespace SafeBump

open Library (stretch stretch_congr)
open Library.Unwind

variable {tgt : Target} {σ T : Type}

/-! ## Slots -/

namespace ChunkedStorage

/-- The slot is empty and there is memory for it. -/
def free (st : ChunkedStorage tgt T) (slot : Nat) : Bool :=
  (st.slots slot).isNone && tgt.allocates (slot + 1).log2

/-- The slot holds a value. -/
def filled (st : ChunkedStorage tgt T) (slot : Nat) : Bool := (st.slots slot).isSome

/-- The panic of a call that finds the slot not free for its value.  A value that the slot
rejects is dropped before the assertion is made. -/
def refusal (st : ChunkedStorage tgt T) (panics : Dtor T) (slot : Nat) (value : Option T) : Panic :=
  if st.filled slot then if value.any (panics slot) then .destructor else .slotOccupied slot
  else .capacityOverflow

/-- The slots of `st`, with `values` from `start` on. -/
def Laid (st : ChunkedStorage tgt T) (start : Nat) (values : List T)
    (st' : ChunkedStorage tgt T) : Prop :=
  ∀ slot, st'.slots slot =
    if start ≤ slot ∧ slot < start + values.length then values[slot - start]? else st.slots slot

section Laid

variable {st st' : ChunkedStorage tgt T} {start slot : Nat} {values : List T}

theorem free_iff : st.free slot = true ↔
    st.slots slot = none ∧ tgt.allocates (slot + 1).log2 = true := by
  rw [free, Bool.and_eq_true, Option.isNone_iff_eq_none]

theorem filled_iff : st.filled slot = true ↔ st.slots slot ≠ none := by
  rw [filled, Option.isSome_iff_ne_none]

theorem filled_false_iff : st.filled slot = false ↔ st.slots slot = none := by
  rw [filled, Option.isSome_eq_false_iff, Option.isNone_iff_eq_none]

theorem Laid.nil (st : ChunkedStorage tgt T) (start : Nat) : st.Laid start [] st := by
  intro slot
  rw [if_neg]
  rintro ⟨hle, hlt⟩
  exact Nat.not_le.mpr hlt hle

theorem Laid.value (h : st.Laid start values st') {i : Nat} (hi : i < values.length) :
    st'.slots (start + i) = values[i]? := by
  rw [h, if_pos ⟨Nat.le_add_right _ _, Nat.add_lt_add_left hi _⟩, Nat.add_sub_cancel_left]

/-- One value first and the others after it. -/
theorem Laid.cons {st'' : ChunkedStorage tgt T} {v : T}
    (hv : ∀ i, st'.slots i = if i = start then some v else st.slots i)
    (h : st'.Laid (start + 1) values st'') : st.Laid start (v :: values) st'' := by
  intro slot
  rw [h slot, hv slot, List.length_cons]
  rcases Nat.lt_trichotomy slot start with hlt | rfl | hgt
  · rw [if_neg (by omega), if_neg (by omega), if_neg (by omega)]
  · rw [if_neg (by omega), if_pos rfl, if_pos (by omega), Nat.sub_self]
    rfl
  · obtain ⟨k, rfl⟩ := Nat.exists_eq_add_of_lt hgt
    have hsub : start + k + 1 - start = k + 1 := by omega
    have hsub' : start + k + 1 - (start + 1) = k := by omega
    rw [hsub, hsub', List.getElem?_cons_succ, if_neg (Nat.ne_of_gt hgt)]
    by_cases hk : k < values.length
    · rw [if_pos (by omega), if_pos (by omega)]
    · rw [if_neg (by omega), if_neg (by omega)]

/-- A slot that held something was not free, so it holds the same. -/
theorem Laid.kept (h : st.Laid start values st')
    (hfree : ∀ i < values.length, st.slots (start + i) = none) (hslot : st.slots slot ≠ none) :
    st'.slots slot = st.slots slot := by
  rw [h slot, if_neg]
  rintro ⟨hle, hlt⟩
  have hnone := hfree (slot - start) (by omega)
  rw [Nat.add_sub_cancel' hle] at hnone
  exact hslot hnone

end Laid

end ChunkedStorage

namespace SharedArena

open ChunkedStorage (free filled refusal)

/-- Published slots are filled, and chunks are there only where there was memory. -/
structure Whole (a : SharedArena tgt T) : Prop where
  ordered : a.published ≤ a.reserved
  fits : a.reserved ≤ tgt.usizeMax
  set : ∀ slot < a.published, a.storage.slots slot ≠ none
  allocated : a.storage.Allocated

theorem Whole.new : (new : SharedArena tgt T).Whole :=
  ⟨Nat.le_refl 0, Nat.zero_le _, (fun _ h => by cases h), .new⟩

section Fill

variable {sh : SharedArena tgt T} (panics : Dtor T)

/-- A write to a free slot fills it. -/
theorem run_fill_free {slot : Nat} (hal : sh.storage.Allocated)
    (hfree : sh.storage.free slot = true) (hlt : slot < tgt.usizeMax) (v : T) (src : σ)
    (d : List T) :
    ∃ st, (fill panics slot v).run ⟨sh, src, d⟩ = .ok () ⟨{ sh with storage := st }, src, d⟩ ∧
      st.Allocated ∧ ∀ i, st.slots i = if i = slot then some v else sh.storage.slots i := by
  obtain ⟨hempty, ha⟩ := ChunkedStorage.free_iff.mp hfree
  obtain ⟨st, hset, hst⟩ := ChunkedStorage.set_empty ha hlt hempty v
  have hown : (owning [v] (ofExcept (sh.storage.set slot v)) :
      Op (SharedArena tgt T) σ T _).run ⟨sh, src, d⟩ = .ok (true, st) ⟨sh, src, d⟩ := by
    rw [hset]
    exact run_owning_ok _ (run_ofExcept_ok _ _)
  exact ⟨st, by simp [fill, hown], hal.set hset, hst⟩

/-- A write to a slot that is not free panics and drops the value. -/
theorem run_fill_refused {slot : Nat} (hal : sh.storage.Allocated)
    (hfree : sh.storage.free slot = false) (hlt : slot < tgt.usizeMax) (v : T) (src : σ)
    (d : List T) :
    ∃ st, (fill panics slot v).run ⟨sh, src, d⟩
        = .error (.unwinds (sh.storage.refusal panics slot (some v)))
            ⟨{ sh with storage := st }, src, d ++ [v]⟩ ∧
      st.Allocated ∧ ∀ i, st.slots i = sh.storage.slots i := by
  rcases hal.set_cases hlt v with ⟨hnone, ha, -⟩ | ⟨w, st, hw, hset, hst, hsame⟩ | ⟨hnone, -, hset⟩
  · cases hfree.symm.trans (ChunkedStorage.free_iff.mpr ⟨hnone, ha⟩)
  · have hown : (owning [v] (ofExcept (sh.storage.set slot v)) :
        Op (SharedArena tgt T) σ T _).run ⟨sh, src, d⟩ = .ok (false, st) ⟨sh, src, d⟩ := by
      rw [hset]
      exact run_owning_ok _ (run_ofExcept_ok _ _)
    have hpanic : sh.storage.refusal panics slot (some v)
        = if panics slot v then .destructor else .slotOccupied slot := by
      rw [refusal, if_pos (by rw [filled, hw]; rfl), Option.any_some]
    refine ⟨st, ?_, hst, hsame⟩
    rw [hpanic]
    simp only [fill, EStateM.run_bind, EStateM.run_get, hown, EStateM.run_modify,
      if_neg Bool.false_ne_true, run_dropValue]
    cases panics slot v <;> rfl
  · have hown : (owning [v] (ofExcept (sh.storage.set slot v)) :
        Op (SharedArena tgt T) σ T _).run ⟨sh, src, d⟩
          = .error (.unwinds .capacityOverflow) ⟨sh, src, d ++ [v]⟩ := by
      rw [hset]
      exact run_owning_unwinds _ (run_ofExcept_error _ _)
    have hpanic : sh.storage.refusal panics slot (some v) = .capacityOverflow := by
      rw [refusal, if_neg (by rw [filled, hnone]; exact Bool.false_ne_true)]
    refine ⟨sh.storage, ?_, hal, fun _ => rfl⟩
    rw [hpanic]
    simp [fill, hown]

/-- The loop over the values goes as far as the slots are free, and drops what is left
where they are not. -/
theorem run_fillRange_stretch (sh : SharedArena tgt T) (start offset : Nat) (values : List T)
    (hal : sh.storage.Allocated) (hfit : start + offset + values.length ≤ tgt.usizeMax) (src : σ)
    (d : List T) :
    let k := stretch sh.storage.free (start + offset) values.length
    ∃ st, st.Allocated ∧ sh.storage.Laid (start + offset) (values.take k) st ∧
      (fillRange panics start offset values).run ⟨sh, src, d⟩ =
        if k = values.length then .ok () ⟨{ sh with storage := st }, src, d⟩
        else .error (.unwinds (sh.storage.refusal panics (start + offset + k) values[k]?))
          ⟨{ sh with storage := st }, src, d ++ values.drop k⟩ := by
  induction values generalizing sh offset with
  | nil => exact ⟨sh.storage, hal, .nil _ _, rfl⟩
  | cons v values ih =>
      intro k
      rw [List.length_cons] at hfit
      have hadd : tgt.checkedAdd start offset = some (start + offset) :=
        Target.checkedAdd_eq_some.mpr ⟨by omega, rfl⟩
      have hslot : (owning (v :: values) (expect .rangeEnd (tgt.checkedAdd start offset)) :
          Op (SharedArena tgt T) σ T Nat).run ⟨sh, src, d⟩ = .ok (start + offset) ⟨sh, src, d⟩ := by
        rw [hadd]
        exact run_owning_ok _ rfl
      have hlt : start + offset < tgt.usizeMax := by omega
      cases hfree : sh.storage.free (start + offset) with
      | false =>
          have hk : k = 0 := by
            show stretch _ _ (values.length + 1) = 0
            rw [stretch, hfree]
            rfl
          obtain ⟨st, hrun, hst, hsame⟩ := run_fill_refused panics hal hfree hlt v src d
          have hown := run_owning_unwinds values hrun
          refine ⟨st, hst, ?_, ?_⟩
          · rw [hk]
            intro slot
            rw [hsame]
            exact ChunkedStorage.Laid.nil sh.storage (start + offset) slot
          · rw [if_neg (by rw [hk]; exact (Nat.succ_ne_zero _).symm), hk]
            simp only [fillRange, EStateM.run_bind, hslot, hown, List.drop_zero, Nat.add_zero,
              List.append_assoc, List.singleton_append, List.getElem?_cons_zero]
      | true =>
          obtain ⟨st, hrun, hst, hslots⟩ := run_fill_free panics hal hfree hlt v src d
          have hown := run_owning_ok values hrun
          obtain ⟨st', hst', hlaid, hrest⟩ :=
            ih { sh with storage := st } (offset + 1) hst (by omega)
          -- the slots further on are as they were
          have hsame : ∀ i, st.slots (start + offset + 1 + i)
              = sh.storage.slots (start + offset + 1 + i) := by
            intro i
            rw [hslots, if_neg (by omega)]
          have hk : k = stretch st.free (start + offset + 1) values.length + 1 := by
            show stretch _ _ (values.length + 1) = _
            rw [stretch, if_pos hfree]
            refine congrArg (· + 1) (stretch_congr fun i _ => ?_)
            rw [free, free, hsame]
          have hdrop : (v :: values).drop k
              = values.drop (stretch st.free (start + offset + 1) values.length) := by
            rw [hk, List.drop_succ_cons]
          have hpanic : sh.storage.refusal panics (start + offset + k) (v :: values)[k]?
              = st.refusal panics (start + offset + 1
                + stretch st.free (start + offset + 1) values.length)
                  values[stretch st.free (start + offset + 1) values.length]? := by
            rw [hk, List.getElem?_cons_succ, refusal, refusal, filled, filled, ← Nat.add_assoc,
              Nat.add_right_comm, hsame]
          refine ⟨st', hst', ?_, ?_⟩
          · rw [hk, List.take_succ_cons]
            exact .cons hslots hlaid
          · rw [hdrop, hpanic, hk, List.length_cons]
            simp only [Nat.add_right_cancel_iff]
            rw [fillRange]
            simp only [EStateM.run_bind, hslot, hown]
            exact hrest

/-- Publication goes as far as slots are filled, and waits where they are not. -/
theorem run_advancePublished_stretch (sh : SharedArena tgt T) {lastSlot : Nat}
    (hlast : lastSlot < tgt.usizeMax) (src : σ) (d : List T) :
    let n := stretch sh.storage.filled sh.published (lastSlot + 1 - sh.published)
    (advancePublished lastSlot).run ⟨sh, src, d⟩ =
      if n = lastSlot + 1 - sh.published then
        .ok () ⟨{ sh with published := sh.published + n }, src, d⟩
      else .error .spins ⟨{ sh with published := sh.published + n }, src, d⟩ := by
  intro n
  obtain ⟨m, hm⟩ : ∃ m, lastSlot + 1 - sh.published = m := ⟨_, rfl⟩
  have hn : n = stretch sh.storage.filled sh.published m := by rw [← hm]
  rw [hm, hn]
  simp only [advancePublished, EStateM.run_bind, EStateM.run_get, hm]
  clear hn n
  induction m generalizing sh with
  | zero => rfl
  | succ m ih =>
      have hle : ¬ lastSlot < sh.published := by omega
      have hset : sh.storage.isSet sh.published = .ok (sh.storage.filled sh.published) :=
        ChunkedStorage.isSet_eq (by omega)
      rw [advanceLoop, stretch]
      simp only [EStateM.run_bind, EStateM.run_get, hset, run_ofExcept_ok, if_neg hle]
      cases sh.storage.filled sh.published with
      | false => rfl
      | true =>
          have hrest := ih { sh with published := sh.published + 1 } (by simp only; omega)
          have hadd : sh.published + (stretch sh.storage.filled (sh.published + 1) m + 1)
              = sh.published + 1 + stretch sh.storage.filled (sh.published + 1) m := by omega
          simp only [if_true, EStateM.run_bind, EStateM.run_modify, Nat.add_right_cancel_iff, hadd]
          exact hrest

end Fill

/-! ## One allocation -/

/-- What `alloc` and `alloc_block` do to store their values, up to the handle they make. -/
def placing (fresh : Source σ) (panics : Dtor T) (values : List T) :
    Op (SharedArena tgt T) σ T (Stamp × Nat) := do
  let stamp ← owning values (onIdentity (SharedIdentity.currentStamp fresh))
  let start ← owning values (reserveRange values.length)
  fillRange panics start 0 values
  let last ← expect .rangeEnd (tgt.checkedAdd start (values.length - 1))
  advancePublished last
  return (stamp, start)

section Placing

variable {sh : SharedArena tgt T} {fresh : Source σ} (panics : Dtor T)

/-- A range that was reserved ends below `usize::MAX`. -/
theorem reserveRange_fits {values : List T} {len start : Nat} {c c' : Ctx (SharedArena tgt T) σ T}
    (h : (owning values (reserveRange len)).run c = .ok start c') :
    0 < len ∧ start + len ≤ tgt.usizeMax := by
  obtain ⟨a, src, d⟩ := c
  rcases Nat.eq_zero_or_pos len with rfl | hpos
  · have hrun : (reserveRange 0 : Op (SharedArena tgt T) σ T Nat).run ⟨a, src, d⟩
        = .error (.unwinds .rangeEmpty) ⟨a, src, d⟩ := rfl
    cases (run_owning_unwinds values hrun).symm.trans h
  · rcases Nat.lt_or_ge tgt.usizeMax (a.reserved + len) with hfull | hfit
    · cases (run_owning_unwinds values (run_reserveRange_full hpos hfull src d)).symm.trans h
    · cases (run_owning_ok values (run_reserveRange hpos hfit src d)).symm.trans h
      exact ⟨hpos, hfit⟩

/-- One value is a range of one. -/
theorem run_fillRange_one {start : Nat} (hfit : start + 1 ≤ tgt.usizeMax) (v : T)
    (c : Ctx (SharedArena tgt T) σ T) :
    (fillRange panics start 0 [v]).run c = (fill panics start v).run c := by
  have hadd : tgt.checkedAdd start 0 = some start :=
    Target.checkedAdd_eq_some.mpr ⟨Nat.le_of_succ_le hfit, rfl⟩
  have hslot : (owning [v] (expect .rangeEnd (tgt.checkedAdd start 0)) :
      Op (SharedArena tgt T) σ T Nat).run c = .ok start c := by
    rw [hadd]
    exact run_owning_ok _ rfl
  simp only [fillRange, EStateM.run_bind, hslot]
  cases hr : (fill panics start v).run c with
  | ok u c' => rw [run_owning_ok [] hr]; rfl
  | error e c' =>
      cases e with
      | unwinds p =>
          rw [run_owning_unwinds [] hr]
          simp only [List.append_nil]
      | spins => rw [run_owning_spins [] hr]

theorem run_alloc_placing (v : T) (c : Ctx (SharedArena tgt T) σ T) :
    (alloc fresh panics v).run c
      = ((fun r : Stamp × Nat => (⟨r.1, r.2⟩ : Idx)) <$> placing fresh panics [v]).run c := by
  rw [run_map]
  simp only [alloc, placing, EStateM.run_bind]
  cases (owning [v] (onIdentity (SharedIdentity.currentStamp fresh))).run c with
  | error e c₁ => rfl
  | ok stamp c₁ =>
      simp only [List.length_singleton]
      cases hr : (owning [v] (reserveRange 1)).run c₁ with
      | error e c₂ => rfl
      | ok start c₂ =>
          have hfit := (reserveRange_fits hr).2
          have hadd : tgt.checkedAdd start 0 = some start :=
            Target.checkedAdd_eq_some.mpr ⟨Nat.le_of_succ_le hfit, rfl⟩
          simp only [run_fillRange_one panics hfit, hadd, expect, Nat.sub_self, EStateM.run_pure]
          cases (fill panics start v).run c₂ with
          | error e c₃ => rfl
          | ok u c₃ => simp only; cases (advancePublished start).run c₃ <;> rfl

theorem run_allocBlock_placing (v : T) (values : List T) (c : Ctx (SharedArena tgt T) σ T) :
    (allocBlock fresh panics ⟨v :: values, false⟩).run c
      = ((fun r : Stamp × Nat => (⟨some r.1, r.2, (v :: values).length⟩ : Block)) <$>
          placing fresh panics (v :: values)).run c := by
  rw [run_map, allocBlock_cons]
  generalize v :: values = vs
  simp only [placing, EStateM.run_bind]
  cases (owning vs (onIdentity (SharedIdentity.currentStamp fresh))).run c with
  | error e c₁ => rfl
  | ok stamp c₁ =>
      simp only
      cases hr : (owning vs (reserveRange vs.length)).run c₁ with
      | error e c₂ => rfl
      | ok start c₂ =>
          obtain ⟨hpos, hfit⟩ := reserveRange_fits hr
          have hblock : Block.new tgt stamp start vs.length = .ok ⟨some stamp, start, vs.length⟩ :=
            Block.new_eq_ok hpos (Nat.le_succ_of_le hfit)
          simp only [hblock, run_ofExcept_ok]
          cases (fillRange panics start 0 vs).run c₂ with
          | error e c₃ => rfl
          | ok u c₃ =>
              simp only
              cases (expect .rangeEnd (tgt.checkedAdd start (vs.length - 1)) :
                Op (SharedArena tgt T) σ T Nat).run c₃ with
              | error e c₄ => rfl
              | ok last c₄ => simp only; cases (advancePublished last).run c₄ <;> rfl

/-- What a request hands out for the range its values got. -/
def handle : Request T → Stamp × Nat → Reply T
  | .alloc _ _, (stamp, start) => .idx ⟨stamp, start⟩
  | .allocBlock input _, (stamp, start) => .block ⟨some stamp, start, input.values.length⟩
  | _, _ => .done

/-- A request that has values to store places them and makes a handle. -/
theorem run_serve_placing {req : Request T} (h : req.stored ≠ [])
    (c : Ctx (SharedArena tgt T) σ T) :
    (serve fresh req).run c = (handle req <$> placing fresh req.movedDtor req.stored).run c := by
  have hblock : ∀ {input : Input T} (panics : Dtor T) (k : Block → Reply T)
      (k' : Stamp × Nat → Reply T),
      (if input.panics then [] else input.values) ≠ [] →
      (∀ r : Stamp × Nat, k ⟨some r.1, r.2, input.values.length⟩ = k' r) →
      (k <$> allocBlock fresh panics input : Op (SharedArena tgt T) σ T (Reply T)).run c
        = (k' <$> placing fresh panics (if input.panics then [] else input.values)).run c := by
    rintro ⟨values, panicking⟩ panics k k' hne hk
    cases panicking with
    | true => exact absurd rfl hne
    | false =>
        cases values with
        | nil => exact absurd rfl hne
        | cons v values =>
            simp only [run_map, run_allocBlock_placing, Bool.false_eq_true, if_false]
            cases (placing fresh panics (v :: values) : Op (SharedArena tgt T) σ T _).run c with
            | ok r c' => exact congrArg (fun reply => EStateM.Result.ok reply c') (hk r)
            | error e c' => rfl
  cases req with
  | alloc v panics =>
      simp only [serve, Request.stored, Request.movedDtor, run_map, run_alloc_placing]
      cases (placing fresh panics [v] : Op (SharedArena tgt T) σ T _).run c <;> rfl
  | allocBlock input panics => exact hblock panics .block _ h fun _ => rfl
  | extend input panics => exact hblock panics (fun _ => .done) _ h fun _ => rfl
  | _ => exact absurd rfl h

variable {id : Identity} {values : List T}

/-- Where an allocation gets that has its stamp and its range. -/
theorem run_placing (fresh : Source σ) (hw : sh.Whole) (hid : sh.identity.Mirrors id)
    (hne : values ≠ []) (hfit : sh.reserved + values.length ≤ tgt.usizeMax) (src : σ) (d : List T) :
    let k := stretch sh.storage.free sh.reserved values.length
    ∃ st, st.Allocated ∧ sh.storage.Laid sh.reserved (values.take k) st ∧
      let room := sh.reserved + values.length - sh.published
      let n := stretch st.filled sh.published room
      let sh' := { sh with storage := st, reserved := sh.reserved + values.length }
      (placing fresh panics values).run ⟨sh, src, d⟩ =
        if k = values.length then
          if n = room then
            .ok (id.current, sh.reserved) ⟨{ sh' with published := sh.published + n }, src, d⟩
          else .error .spins ⟨{ sh' with published := sh.published + n }, src, d⟩
        else .error (.unwinds (sh.storage.refusal panics (sh.reserved + k) values[k]?))
          ⟨sh', src, d ++ values.drop k⟩ := by
  intro k
  have hpos : 0 < values.length := List.length_pos_iff.mpr hne
  have henter := run_enter fresh values hid src d
  have hres := run_owning_ok values (run_reserveRange hpos hfit src d)
  obtain ⟨st, hal, hlaid, hfill⟩ := run_fillRange_stretch panics
    { sh with reserved := sh.reserved + values.length } sh.reserved 0 values hw.allocated hfit src d
  simp only [Nat.add_zero] at hlaid hfill
  refine ⟨st, hal, hlaid, ?_⟩
  intro room n sh'
  have hadd : tgt.checkedAdd sh.reserved (values.length - 1)
      = some (sh.reserved + (values.length - 1)) :=
    Target.checkedAdd_eq_some.mpr ⟨by omega, rfl⟩
  have hlast : sh.reserved + (values.length - 1) < tgt.usizeMax := by omega
  have hroom : sh.reserved + (values.length - 1) + 1 - sh.published = room := by
    show _ = sh.reserved + values.length - sh.published
    omega
  have hadv := run_advancePublished_stretch sh' hlast src d
  simp only [show sh'.published = sh.published from rfl, hroom] at hadv
  by_cases hk : k = values.length
  · rw [if_pos hk] at hfill
    simp only [placing, EStateM.run_bind, henter, hres, hfill, hadd, expect,
      EStateM.run_pure, if_pos hk]
    rw [show sh'.storage.filled = st.filled from rfl] at hadv
    by_cases hn : n = room
    · rw [if_pos hn] at hadv
      simp only [sh'] at hadv
      rw [hadv, if_pos hn]
    · rw [if_neg hn] at hadv
      simp only [sh'] at hadv
      rw [hadv, if_neg hn]
  · rw [if_neg hk] at hfill
    simp only [placing, EStateM.run_bind, henter, hres, hfill, if_neg hk]
    rfl

theorem run_placing_full (hid : sh.identity.Mirrors id) (hne : values ≠ [])
    (hfull : tgt.usizeMax < sh.reserved + values.length) (src : σ) (d : List T) :
    (placing fresh panics values).run ⟨sh, src, d⟩
      = .error (.unwinds .slotSpaceExhausted) ⟨sh, src, d ++ values⟩ := by
  have hpos : 0 < values.length := List.length_pos_iff.mpr hne
  have henter := run_enter fresh values hid src d
  have hres := run_owning_unwinds values (run_reserveRange_full hpos hfull src d)
  simp only [placing, EStateM.run_bind, henter, hres]

/-- With memory for them the values are stored after those that are there. -/
theorem run_placing_holds (fresh : Source σ) (hall : ∀ k, tgt.allocates k = true) {items : List T}
    (hh : sh.Holds items) (hid : sh.identity.Mirrors id) (hne : values ≠ [])
    (hfit : items.length + values.length ≤ tgt.usizeMax) (src : σ) (d : List T) :
    ∃ sh', (placing fresh panics values).run ⟨sh, src, d⟩
        = .ok (id.current, items.length) ⟨sh', src, d⟩ ∧
      sh'.Holds (items ++ values) ∧ sh'.identity = sh.identity := by
  have hpos : 0 < values.length := List.length_pos_iff.mpr hne
  have henter := run_enter fresh values hid src d
  have hres := run_reserve_owning hh hpos hfit src d
  obtain ⟨st, hfill, hf⟩ :=
    run_fillRange panics { sh with reserved := items.length + values.length }
    items.length 0 values (tgt.affords_all hall _) hh.filled (Nat.add_zero _) hfit src d
  have hlen : (items ++ values).length = items.length + values.length := List.length_append
  have hlast : items.length + (values.length - 1) + 1 = items.length + values.length := by omega
  have hadd : tgt.checkedAdd items.length (values.length - 1)
      = some (items.length + (values.length - 1)) :=
    Target.checkedAdd_eq_some.mpr ⟨by omega, rfl⟩
  have hle : items.length ≤ items.length + (values.length - 1) + 1 := by omega
  have hadv := run_advancePublished
    { sh with reserved := items.length + values.length, storage := st }
    (items.length + (values.length - 1)) hf (hlen ▸ hfit) (by omega) (hh.published ▸ hle) src d
  rw [hlast] at hadv
  refine ⟨{ sh with
    storage := st, reserved := items.length + values.length,
    published := items.length + values.length },
    ?_, ⟨hlen.symm, hlen.symm, hf, hlen ▸ hfit⟩, rfl⟩
  simp only [placing, EStateM.run_bind, henter, hres, hfill, hadd, expect, EStateM.run_pure, hadv]

/-- The first allocation goes on as one on an arena with an identity. -/
theorem run_placing_new {src src' : σ} {s : Stamp} (hf : fresh src = (.ok s, src'))
    (hid : sh.identity = .new) (values d : List T) :
    (placing fresh panics values).run ⟨sh, src, d⟩
      = (placing fresh panics values).run ⟨{ sh with identity := .born s }, src', d⟩ :=
  run_enter_new hf hid values _ d

theorem run_placing_error {src src' : σ} {p : Panic} (hf : fresh src = (.error p, src'))
    (hid : sh.identity = .new) (values d : List T) :
    (placing fresh panics values).run ⟨sh, src, d⟩ = .error (.unwinds p) ⟨sh, src', d ++ values⟩ :=
  run_enter_error hf hid values _ d

end Placing

end SharedArena

end SafeBump
