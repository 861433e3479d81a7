import SafeBump.BlockIndices
import SafeBump.Checkpoints
import SafeBump.Enumeration
import SafeBump.WorldStores

/-!
# Arithmetic on slots

Slots are added to in five places, and one of the additions is checked: the one in
`reserve_range`.  Everything reserved fits below `usize::MAX` (`Shared.Layout.fits`),
a call stays in the range it reserved, and whatever is published was reserved.  So
the number `usize::MAX` is never a slot, no sum leaves the word, and of all the
panics about slots only that of `reserve_range` can happen
(`World.slot_arithmetic_is_safe`).
-/

namespace SafeBump

open Library.Unwind

variable {tgt : Target} {σ T : Type}

/-- The slot the next access of a call is about.  `advance` goes on to the one after it. -/
def Pc.slot : Pc T → Option Nat
  | .set _ start offset => some (start + offset)
  | .isSet _ _ _ published => some published
  | .advance _ _ _ published => some published
  | _ => none

/-- Iterator over pairs of an index and a value in a publication prefix.  Identity and
storage are those of the arena it runs on. -/
structure SharedArenaIterIndexed where
  pos : Nat
  len : Nat

/-- `SharedArenaIterIndexed::next`. -/
def SharedArenaIterIndexed.next (fresh : Source σ) (it : SharedArenaIterIndexed) :
    Op (SharedArena tgt T) σ T (Option ((Idx × T) × SharedArenaIterIndexed)) := do
  if it.pos = it.len then return none
  else
    let value ← ofExcept ((← get).arena.storage.get it.pos)
    let stamp ← SharedArena.onIdentity (SharedIdentity.stampOf fresh it.pos)
    return some ((⟨stamp, it.pos⟩, value), { it with pos := it.pos + 1 })

/-- The ways a request may end early: it finds no stamp or no slots, or code of the
caller panics. -/
def Exit.Allowed : Exit → Prop
  | .unwinds .stampSpaceExhausted => True
  | .unwinds .slotSpaceExhausted => True
  | .unwinds .capacityOverflow => True
  | .unwinds .destructor => True
  | .unwinds .input => True
  | _ => False

/-! ## Requests -/

namespace Store

section Error

variable {fresh : Source σ} {c : Ctx (Store T) σ T} {e : Exit}

theorem insert_error {values : List T}
    (hsrc : ∀ p src, fresh c.source = (.error p, src) → p = .stampSpaceExhausted)
    (h : ending ((insert tgt fresh values).run c) = .error e) : e.Allowed := by
  have hlive : ∀ (vs : List T) (h : Epochs) (src : σ) (d : List T),
      ending ((insert tgt fresh values).run ⟨live vs h, src, d⟩) = .error e → e.Allowed := by
    intro vs h src d he
    rcases Nat.lt_or_ge tgt.usizeMax (vs.length + values.length) with hfull | hfit
    · rw [run_insert_full hfull] at he
      cases he
      trivial
    · rw [run_insert_live hfit] at he
      cases he
  obtain ⟨st, src, d⟩ := c
  cases st with
  | live vs h' => exact hlive vs h' src d h
  | unused =>
      rcases hf : fresh src with ⟨p | s, src'⟩
      · rw [run_insert_error hf] at h
        cases h
        obtain rfl := hsrc p src' hf
        trivial
      · rw [run_insert_ok hf] at h
        exact hlive _ _ _ _ h

theorem allocBlock_error {input : Input T}
    (hsrc : ∀ p src, fresh c.source = (.error p, src) → p = .stampSpaceExhausted)
    (h : ending ((allocBlock tgt fresh input).run c) = .error e) : e.Allowed := by
  obtain ⟨values, panics⟩ := input
  cases panics with
  | true =>
      cases h
      trivial
  | false =>
      cases values with
      | nil => cases h
      | cons v values =>
          rw [run_allocBlock_cons] at h
          exact insert_error hsrc (ending_of_map h)

theorem assigned_error
    (hsrc : ∀ p src, fresh c.source = (.error p, src) → p = .stampSpaceExhausted)
    (h : ending ((assigned fresh).run c) = .error e) : e.Allowed := by
  obtain ⟨st, src, d⟩ := c
  cases st with
  | live vs h' => cases h
  | unused =>
      rcases hf : fresh src with ⟨p | s, src'⟩
      · rw [run_assigned_error hf] at h
        cases h
        obtain rfl := hsrc p src' hf
        trivial
      · rw [run_assigned_ok hf] at h
        cases h

theorem cutDown_error {panics : Dtor T} {n : Nat}
    (hsrc : ∀ p src, fresh c.source = (.error p, src) → p = .stampSpaceExhausted)
    (h : ending ((cutDown fresh panics n).run c) = .error e) : e.Allowed := by
  rcases cutDown_ended h with rfl | ⟨p, src', hf, rfl, -⟩
  · trivial
  · obtain rfl := hsrc p src' hf
    trivial

theorem drain_error
    (hsrc : ∀ p src, fresh c.source = (.error p, src) → p = .stampSpaceExhausted)
    (h : ending ((drain fresh).run c) = .error e) : e.Allowed := by
  obtain ⟨st, src, d⟩ := c
  cases st with
  | unused => cases h
  | live vs h' =>
      rcases hf : fresh src with ⟨p | s, src'⟩
      · rw [run_drain_error hf] at h
        cases h
        obtain rfl := hsrc p src' hf
        trivial
      · rw [run_drain_ok hf] at h
        cases h

/-- No request ends in any other way. -/
theorem serve_error {req : Request T}
    (hsrc : ∀ p src, fresh c.source = (.error p, src) → p = .stampSpaceExhausted)
    (h : ending ((serve tgt fresh req).run c) = .error e) : e.Allowed := by
  cases req with
  | alloc value =>
      have hrun : (alloc tgt fresh value).run c
          = ((fun r : Stamp × Nat => (⟨r.1, r.2⟩ : Idx)) <$> insert tgt fresh [value]).run c := rfl
      have h := ending_of_map h
      rw [hrun] at h
      exact insert_error hsrc (ending_of_map h)
  | allocBlock input => exact allocBlock_error hsrc (ending_of_map h)
  | extend input => exact allocBlock_error hsrc (ending_of_map h)
  | checkpoint =>
      have h := ending_of_map h
      rw [run_checkpoint] at h
      exact assigned_error hsrc (ending_of_map h)
  | tryRollback cp panics =>
      cases hv : c.arena.validateCheckpoint cp with
      | error e => rw [run_serve_tryRollback_error hv] at h; cases h
      | ok u =>
          rw [run_serve_tryRollback_ok hv] at h
          exact cutDown_error hsrc (ending_of_map h)
  | reset panics => exact cutDown_error hsrc (ending_of_map h)
  | drain => exact drain_error hsrc (ending_of_map h)
  | validateCheckpoint cp => cases h
  | len => cases h
  | isValid idx => cases h
  | tryGet idx => cases h
  | iter => cases h
  | iterIndexed => cases h

end Error

end Store

/-! ## Calls and ranges -/

/-- Below `usize::MAX` every slot has a place. -/
theorem splitIndex_isOk {slot : Nat} (h : slot < tgt.usizeMax) :
    ∃ p, splitIndex tgt slot = .ok p := ⟨_, ChunkedStorage.splitIndex_eq h⟩

namespace Shared

section Layout

variable {items : List T} {s : Shared tgt T}

/-- A range is not empty. -/
theorem Layout.range_pos (h : s.Layout items) {k : Nat} {vs : List T} {q : Nat × Nat}
    (hq : s.Reserved k vs q) : 0 < vs.length := by
  obtain ⟨c, hc, rfl, hr⟩ := hq
  have hsound := h.sound k c hc
  cases hpc : c.pc with
  | set stamp start offset =>
      rw [hpc] at hsound
      exact Nat.zero_lt_of_lt hsound
  | loadPublished stamp start last => rw [hpc] at hsound; exact hsound.2
  | isSet stamp start last published => rw [hpc] at hsound; exact hsound.2.1
  | advance stamp start last published => rw [hpc] at hsound; exact hsound.2.1
  | returned reply =>
      rw [hpc] at hsound hr
      exact (hsound q hr).1
  | _ => rw [hpc] at hr; cases hr

/-- A range ends before `usize::MAX`. -/
theorem Layout.range_fits (h : s.Layout items) {k : Nat} {vs : List T} {q : Nat × Nat}
    (hq : s.Reserved k vs q) : q.1 + vs.length ≤ tgt.usizeMax :=
  Nat.le_trans (h.placed k vs q hq).2.1 h.fits

/-- What a call accesses next lies in its range, or is about to be published by it. -/
theorem Layout.slot_lt (h : s.Layout items) {k : Nat} {c : Call T} (hc : s.calls[k]? = some c)
    {slot : Nat} (hs : c.pc.slot = some slot) : slot < tgt.usizeMax := by
  have hsound := h.sound k c hc
  have hfits : ∀ q, c.pc.range c.ask.values.length = some q →
      q.1 + c.ask.values.length ≤ tgt.usizeMax :=
    fun q hq => h.range_fits ((reserved_of_call hc _ _).mpr ⟨rfl, hq⟩)
  cases hpc : c.pc with
  | set stamp start offset =>
      rw [hpc] at hsound hs hfits
      have hlt : offset < c.ask.values.length := hsound
      have hle := hfits _ rfl
      cases hs
      simp only at hle
      omega
  | isSet stamp start last published =>
      rw [hpc] at hsound hs hfits
      obtain ⟨hlast, -, hle⟩ : last + 1 = start + c.ask.values.length ∧
        0 < c.ask.values.length ∧ published ≤ last := hsound
      have hfit := hfits _ rfl
      cases hs
      simp only at hfit
      omega
  | advance stamp start last published =>
      rw [hpc] at hsound hs hfits
      obtain ⟨hlast, -, hle, -⟩ : last + 1 = start + c.ask.values.length ∧
        0 < c.ask.values.length ∧ published ≤ last ∧ _ := hsound
      have hfit := hfits _ rfl
      cases hs
      simp only at hfit
      omega
  | _ => rw [hpc] at hs; cases hs

/-- A reservation that fits takes the next slots.  One that does not leaves the arena as it is. -/
theorem Layout.reserve_step (h : s.Layout items) {i : Nat} {c : Call T} {stamp : Stamp}
    (hc : s.calls[i]? = some c) (hpc : c.pc = .reserve stamp) (answer : Except Panic Stamp)
    (mishap : Bool) :
    (s.arena.reserved + c.ask.values.length ≤ tgt.usizeMax →
      (s.step i answer mishap).Reserved i c.ask.values (s.arena.reserved, 0) ∧
      (s.step i answer mishap).arena.reserved = s.arena.reserved + c.ask.values.length) ∧
    (tgt.usizeMax < s.arena.reserved + c.ask.values.length →
      (s.step i answer mishap).arena = s.arena ∧
      (s.step i answer mishap).calls[i]? = some { c with pc := .unwound .slotSpaceExhausted }) := by
  have hpos : 0 < c.ask.values.length := by
    have hsound := h.sound i c hc
    rw [hpc] at hsound
    exact hsound
  have hself : (s.step i answer mishap).calls[i]? = some
      { c with pc := (c.ask.move answer mishap s.arena c.pc).2 } := by
    rw [getElem?_step hc, if_pos rfl]
  refine ⟨fun hfit => ?_, fun hfull => ?_⟩
  · have hadd : tgt.checkedAdd s.arena.reserved c.ask.values.length
        = some (s.arena.reserved + c.ask.values.length) :=
      Target.checkedAdd_eq_some.mpr ⟨hfit, rfl⟩
    have hmove : c.ask.move answer mishap s.arena c.pc
        = ({ s.arena with reserved := s.arena.reserved + c.ask.values.length },
          fillPc tgt c.ask.values stamp s.arena.reserved 0) := by
      rw [hpc, Ask.move, hadd]
    rw [arena_step hc, reserved_of_call hself, hmove]
    exact ⟨⟨rfl, (fillPc_sound s.arena stamp hpos (Nat.zero_le _) hfit).1⟩, rfl⟩
  · have hadd : tgt.checkedAdd s.arena.reserved c.ask.values.length = none :=
      Target.checkedAdd_eq_none.mpr hfull
    have hmove : c.ask.move answer mishap s.arena c.pc
        = (s.arena, .unwound .slotSpaceExhausted) := by
      rw [hpc, Ask.move, hadd]
    rw [arena_step hc, hself, hmove]
    exact ⟨rfl, rfl⟩

end Layout

end Shared

/-! ## Iterators over the published slots -/

namespace Store

theorem getElem?_indexed_live (vs : List T) (e : Epochs) (slot : Nat) :
    (live vs e).indexed[slot]? = vs[slot]?.map fun v => (⟨e.markAt slot, slot⟩, v) := by
  simp [indexed]
  rfl

theorem length_indexed (st : Store T) : st.indexed.length = st.values.length := by
  rw [← map_snd_indexed, List.length_map]

end Store

namespace SharedArena

namespace Shows

variable {a : SharedArena tgt T} {st : Store T}

theorem get_of_indexed (h : a.Shows st) {slot : Nat} {p : Idx × T}
    (hp : st.indexed[slot]? = some p) :
    slot < a.published ∧ a.storage.get slot = .ok p.2 := by
  have hv : st.values[slot]? = some p.2 := by
    rw [← Store.map_snd_indexed, List.getElem?_map, hp, Option.map_some]
  obtain ⟨hlt, -⟩ := List.getElem?_eq_some_iff.mp hv
  rw [h.length_values] at hlt
  rw [h.getElem?_values hlt] at hv
  exact ⟨hlt, ChunkedStorage.get_eq hv⟩

/-- The iterator takes the next published slot, whatever its length was. -/
theorem next (h : a.Shows st) {slot len : Nat} (hlt : slot < len) {p : Idx × T}
    (hp : st.indexed[slot]? = some p) :
    (⟨a.storage, slot, len⟩ : SharedArenaIter tgt T).next
      = .ok (some (p.2, ⟨a.storage, slot + 1, len⟩)) := by
  rw [SharedArenaIter.next, if_neg (Nat.ne_of_lt hlt), (h.get_of_indexed hp).2]
  rfl

/-- The indexed iterator works the stamp out again, and changes nothing. -/
theorem run_next (h : a.Shows st) {slot len : Nat} (hlt : slot < len) {p : Idx × T}
    (hp : st.indexed[slot]? = some p) (fresh : Source σ) (src : σ) (d : List T) :
    (SharedArenaIterIndexed.next fresh ⟨slot, len⟩).run ⟨a, src, d⟩
      = .ok (some (p, ⟨slot + 1, len⟩)) ⟨a, src, d⟩ := by
  obtain ⟨hpub, hget⟩ := h.get_of_indexed hp
  have hpos := Nat.ne_of_gt (Nat.zero_lt_of_lt hpub)
  obtain ⟨-, e, -, -, he⟩ := h.mirrors hpos
  have hstamp : (onIdentity (SharedIdentity.stampOf fresh slot)).run ⟨a, src, d⟩
      = .ok (e.markAt slot) ⟨a, src, d⟩ :=
    run_onIdentity_pure (h.run_stampOf he hpos fresh slot src) d
  have hidx : p.1 = ⟨e.markAt slot, slot⟩ := by
    cases st with
    | unused => cases he
    | live vs e' =>
        cases he
        rw [Store.getElem?_indexed_live] at hp
        obtain ⟨v, -, rfl⟩ := Option.map_eq_some_iff.mp hp
        rfl
  simp only [SharedArenaIterIndexed.next, if_neg (Nat.ne_of_lt hlt), EStateM.run_bind,
    EStateM.run_get, hget, run_ofExcept_ok, hstamp, ← hidx]
  rfl

end Shows

end SharedArena

/-! ## Runs -/

namespace World

section Reads

variable {w : World tgt T} {stores : Owner → Store T}

/-- A read has an answer at any time. -/
theorem Shows.outcome_reads (h : w.Shows stores) (t : ThreadId) (o : Owner) {req : Request T}
    (hreads : req.reads = true) (hasked : ∀ idx, req.asked = some idx → (stores o).Sound idx) :
    ∃ reply, w.outcome t o req = .ok reply := by
  cases req with
  | validateCheckpoint cp => exact ⟨_, h.outcome_validateCheckpoint t o cp⟩
  | len => cases o <;> exact ⟨_, rfl⟩
  | isValid idx => exact ⟨_, h.outcome_isValid t o (hasked idx rfl)⟩
  | tryGet idx => exact ⟨_, h.outcome_tryGet t o (hasked idx rfl)⟩
  | iter =>
      cases o with
      | single n => exact ⟨_, rfl⟩
      | shared n =>
          have hiter := SharedArena.iter_contents (h.shareds n).shown.whole.set
          refine ⟨.values (w.shareds n).arena.contents, ?_⟩
          rw [outcome, served, SharedArena.serve]
          simp only [EStateM.run_bind, EStateM.run_get, hiter, run_ofExcept_ok]
          rfl
  | iterIndexed => exact ⟨_, h.outcome_iterIndexed t o⟩
  | _ => cases hreads

end Reads

/-- At any moment of a run: a reservation that does not fit leaves the concurrent arena as it was,
and one that fits lies below `usize::MAX`.  So no arithmetic on the range of a call, on the slot it
accesses, on a published slot or in an iterator leaves the word, and the only panic about slots
is that of a reservation. -/
theorem slot_arithmetic_is_safe (hall : ∀ k, tgt.allocates k = true) (es : List (Event T))
    (n : Nat) :
    let w₀ : World tgt T := initial
    let w := w₀.run es
    let s := w.shareds n
    -- reservations
    (∀ (i : Nat) (c : Call T) (stamp : Stamp) (answer : Except Panic Stamp) (mishap : Bool),
      s.calls[i]? = some c → c.pc = .reserve stamp →
      (s.arena.reserved + c.ask.values.length ≤ tgt.usizeMax →
        (s.step i answer mishap).Reserved i c.ask.values (s.arena.reserved, 0) ∧
        (s.step i answer mishap).arena.reserved = s.arena.reserved + c.ask.values.length) ∧
      (tgt.usizeMax < s.arena.reserved + c.ask.values.length →
        (s.step i answer mishap).arena = s.arena ∧
        (s.step i answer mishap).calls[i]?
          = some { c with pc := .unwound .slotSpaceExhausted })) ∧
    -- ranges, and the blocks made of them
    (∀ k vs q, s.Reserved k vs q → 0 < vs.length ∧ q.1 + vs.length ≤ tgt.usizeMax ∧
      (∀ offset < vs.length, tgt.checkedAdd q.1 offset = some (q.1 + offset) ∧
        ∃ p, splitIndex tgt (q.1 + offset) = .ok p) ∧
      ∀ stamp, ∃ b, Block.new tgt stamp q.1 vs.length = .ok b ∧ b.Fits tgt ∧
        ∀ ends, (b.indices.after tgt ends).front ≤ (b.indices.after tgt ends).back ∧
          (b.indices.after tgt ends).back ≤ tgt.usizeMax) ∧
    -- accesses
    (∀ c ∈ s.calls, ∀ slot, c.pc.slot = some slot →
      slot + 1 ≤ tgt.usizeMax ∧ ∃ p, splitIndex tgt slot = .ok p) ∧
    -- published slots
    (∀ slot < s.arena.published, slot + 1 ≤ tgt.usizeMax ∧ (∃ p, splitIndex tgt slot = .ok p) ∧
      (∃ value, (⟨s.arena.storage, slot, s.arena.published⟩ : SharedArenaIter tgt T).next
        = .ok (some (value, ⟨s.arena.storage, slot + 1, s.arena.published⟩))) ∧
      ∀ t, ∃ pair, (SharedArenaIterIndexed.next (StampSpace.fresh t) ⟨slot, s.arena.published⟩).run
          ⟨s.arena, w.process.stamps, s.dropped⟩
        = .ok (some (pair, ⟨slot + 1, s.arena.published⟩))
            ⟨s.arena, w.process.stamps, s.dropped⟩) ∧
    -- panics
    (∀ c ∈ s.calls, ∀ p, c.pc = .unwound p → p = .slotSpaceExhausted ∨ p = .stampSpaceExhausted) ∧
    ∀ t req e, s.quiet = true ∨ req.reads = true →
      (∀ idx, req.asked = some idx → ∃ b, idx ∈ issuedOver b w₀ es) →
      w.outcome t (.shared n) req = .error e → e.Allowed := by
  intro w₀ w s
  obtain ⟨stores, hshows, hknown⟩ := exists_known es
  have h : w.Stores stores := .of_shows hall hshows
  have hs := (h.shareds n).shown
  obtain ⟨items, hl⟩ := h.ordered n
  refine ⟨fun i c stamp answer mishap hc hpc => hl.reserve_step hc hpc answer mishap,
    fun k vs q hq => ?_, fun c hc slot hslot => ?_, fun slot hlt => ?_, fun c hc p hp => ?_,
    fun t req e hfree hasked he => ?_⟩
  · have hfit := hl.range_fits hq
    refine ⟨hl.range_pos hq, hfit, fun offset hlt => ⟨?_, splitIndex_isOk (by omega)⟩,
      fun stamp => ⟨_, Block.new_eq_ok (hl.range_pos hq) (Nat.le_succ_of_le hfit),
        .inr ⟨stamp, rfl, hfit⟩, fun ends => ?_⟩⟩
    · exact Target.checkedAdd_eq_some.mpr ⟨by omega, rfl⟩
    · obtain ⟨hle, hback⟩ := BlockIndices.after_bounds tgt ⟨some stamp, q.1, vs.length⟩ ends
      have hback : _ ≤ vs.length := hback
      exact ⟨hle, by omega⟩
  · obtain ⟨k, hk⟩ := List.mem_iff_getElem?.mp hc
    have hlt := hl.slot_lt hk hslot
    exact ⟨hlt, splitIndex_isOk hlt⟩
  · have hfit : slot < tgt.usizeMax :=
      Nat.lt_of_lt_of_le hlt (Nat.le_trans hl.ordered hl.fits)
    obtain ⟨p, hp⟩ : ∃ p, (stores (.shared n)).indexed[slot]? = some p := by
      refine ⟨_, List.getElem?_eq_getElem ?_⟩
      rwa [Store.length_indexed, hs.length_values]
    exact ⟨hfit, splitIndex_isOk hfit, ⟨_, hs.next hlt hp⟩,
      fun t => ⟨_, hs.run_next hlt hp (StampSpace.fresh t) _ _⟩⟩
  · obtain ⟨k, hk⟩ := List.mem_iff_getElem?.mp hc
    have hsound := hl.sound k c hk
    rwa [hp] at hsound
  · have hsound : ∀ idx, req.asked = some idx → (stores (.shared n)).Sound idx := by
      intro idx hidx
      obtain ⟨b, hb⟩ := hasked idx hidx
      exact h.sound_of_known (hknown b idx hb) _
    have hsrc : ∀ p sp, w.process.stamps.fresh t = (.error p, sp) → p = .stampSpaceExhausted :=
      fun p sp hf => (StampSpace.fresh_error h.shares.ok hf).1
    rcases hfree with hquiet | hreads
    · have hquiet : w.quiet (.shared n) = true := hquiet
      have hsame := h.outcome_same hall hquiet t hsound
      rw [he] at hsame
      rcases hr : ending ((Store.serve tgt (StampSpace.fresh t) req).run
        ⟨stores (.shared n), w.process.stamps, w.dropped (.shared n)⟩) with e₀ | reply
      · rw [hr] at hsame
        have hallowed := Store.serve_error hsrc hr
        rcases hsame with rfl | ⟨-, rfl⟩
        · exact hallowed
        · trivial
      · rw [hr] at hsame
        exact hsame.elim
    · obtain ⟨reply, hr⟩ := h.outcome_reads t (.shared n) hreads hsound
      cases hr.symm.trans he

/-- Two slots are left of three.  The block of three values fails, and the one of two fills
the arena up. -/
theorem slot_arithmetic_is_safe_full :
    let tgt : Target := ⟨2, fun _ => true⟩
    let es : List (Event Nat) := [.alone 0 0 (.alloc 1), .start 0 0 (.allocBlock [2, 3, 4]),
      .start 0 1 (.allocBlock [5, 6]), .step 0 0 false, .step 0 1 false]
    ((((initial : World tgt Nat).run es).shareds 0).step 0 (.ok (.nth 0)) false).arena.reserved
        = 1 ∧
      ((((initial : World tgt Nat).run es).shareds 0).step 1 (.ok (.nth 0)) false).arena.reserved
        = 3 := by
  intro tgt es
  have hall : ∀ k, tgt.allocates k = true := fun _ => rfl
  have hreserved : (((initial : World tgt Nat).run es).shareds 0).arena.reserved = 1 := by
    decide +kernel
  have h0 : (((initial : World tgt Nat).run es).shareds 0).calls[0]?
      = some ⟨0, .allocBlock [2, 3, 4], .reserve (.nth 0)⟩ := by decide +kernel
  have h1 : (((initial : World tgt Nat).run es).shareds 0).calls[1]?
      = some ⟨1, .allocBlock [5, 6], .reserve (.nth 0)⟩ := by decide +kernel
  obtain ⟨hreserve, -⟩ := slot_arithmetic_is_safe hall es 0
  generalize ((initial : World tgt Nat).run es).shareds 0 = s at *
  obtain ⟨-, hfull⟩ := hreserve 0 _ _ (.ok (.nth 0)) false h0 rfl
  obtain ⟨hfit, -⟩ := hreserve 1 _ _ (.ok (.nth 0)) false h1 rfl
  rw [hreserved] at hfull hfit
  obtain ⟨harena, -⟩ := hfull (by decide)
  obtain ⟨-, hnext⟩ := hfit (by decide)
  exact ⟨harena ▸ hreserved, hnext⟩

end World

end SafeBump
