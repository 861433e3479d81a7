import SafeBump.ChunkedStorage

/-!
# The storage as a map

A storage is a partial map from slots to values, and the four operations are
insertion, removal and two ways to look a slot up.  `SlotOp.answer` and
`SlotOp.update` say what each does to a map.  Any number of operations, one after the
other, answer as on the map (`ChunkedStorage.refines_partial_map`).

Below the map lies the way a slot is found.  Counted from 1, a slot is `2 ^ k + o`, and
`k` and `o` name its chunk and its offset: one place for every slot, and one slot
for every place (`place_bijective`).

A chunk there is no memory for can not be allocated, so a write to one of its
slots panics and binds nothing (`SlotOp.refused`).  It does nothing else.
-/

namespace SafeBump

variable {tgt : Target} {T : Type}

/-! ## Operations on a map -/

/-- A map from the slots a word can name. -/
abbrev StorageMap (tgt : Target) (T : Type) := Fin tgt.usizeMax → Option T

/-- An operation of the storage. -/
inductive SlotOp (tgt : Target) (T : Type) where
  | set (slot : Fin tgt.usizeMax) (value : T)
  | take (slot : Fin tgt.usizeMax)
  | get (slot : Fin tgt.usizeMax)
  | isSet (slot : Fin tgt.usizeMax)

/-- What an operation returns. -/
inductive SlotReply (T : Type) where
  | flag (b : Bool)
  | value (v : T)
  | taken (v : Option T)
deriving DecidableEq

namespace SlotOp

/-- The slot an operation is about. -/
def slot : SlotOp tgt T → Fin tgt.usizeMax
  | set slot _ => slot
  | take slot => slot
  | get slot => slot
  | isSet slot => slot

/-- The operation needs a chunk there is no memory for. -/
def refused : SlotOp tgt T → Bool
  | set slot _ => !tgt.allocates (slot.val + 1).log2
  | _ => false

/-- What an operation on a map returns, if it does not panic. -/
def answer (m : StorageMap tgt T) : SlotOp tgt T → Option (SlotReply T)
  | set slot _ => some (.flag (m slot).isNone)
  | take slot => some (.taken (m slot))
  | get slot => (m slot).map .value
  | isSet slot => some (.flag (m slot).isSome)

/-- What an operation makes of a map. -/
def update (m : StorageMap tgt T) : SlotOp tgt T → StorageMap tgt T
  | set slot value => if (m slot).isNone then Function.update m slot (some value) else m
  | take slot => Function.update m slot none
  | _ => m

/-- Other slots stay as they are. -/
theorem update_of_ne (m : StorageMap tgt T) {op : SlotOp tgt T} {slot : Fin tgt.usizeMax}
    (h : slot ≠ op.slot) : op.update m slot = m slot := by
  cases op with
  | set i value =>
      rw [update]
      split
      · exact Function.update_of_ne h ..
      · rfl
  | take i => exact Function.update_of_ne h ..
  | get i => rfl
  | isSet i => rfl

end SlotOp

/-- Operations on a map, one after the other. -/
def StorageMap.performAll (m : StorageMap tgt T) :
    List (SlotOp tgt T) → List (Option (SlotReply T)) × StorageMap tgt T
  | [] => ([], m)
  | op :: ops =>
      if op.refused then
        let rest := performAll m ops
        (none :: rest.1, rest.2)
      else
        let rest := performAll (op.update m) ops
        (op.answer m :: rest.1, rest.2)

namespace ChunkedStorage

/-! ## Operations on the storage -/

/-- An operation.  One that panics leaves the storage as it was. -/
def perform (st : ChunkedStorage tgt T) :
    SlotOp tgt T → Except Panic (SlotReply T) × ChunkedStorage tgt T
  | .set slot value =>
      match st.set slot value with
      | .ok (inserted, st') => (.ok (.flag inserted), st')
      | .error p => (.error p, st)
  | .take slot =>
      match st.take slot with
      | .ok (value, st') => (.ok (.taken value), st')
      | .error p => (.error p, st)
  | .get slot => (.value <$> st.get slot, st)
  | .isSet slot => (.flag <$> st.isSet slot, st)

/-- Operations, one after the other, every panic caught by the caller. -/
def performAll (st : ChunkedStorage tgt T) :
    List (SlotOp tgt T) → List (Except Panic (SlotReply T)) × ChunkedStorage tgt T
  | [] => ([], st)
  | op :: ops =>
      let rest := performAll (st.perform op).2 ops
      ((st.perform op).1 :: rest.1, rest.2)

/-- The storage holds what the map says. -/
structure Represents (st : ChunkedStorage tgt T) (m : StorageMap tgt T) : Prop where
  slots : ∀ slot : Fin tgt.usizeMax, st.slots slot = m slot
  allocated : st.Allocated

theorem Represents.new : (new : ChunkedStorage tgt T).Represents fun _ => none :=
  ⟨fun slot => slots_new slot, .new⟩

section Step

variable {st : ChunkedStorage tgt T} {m : StorageMap tgt T}

/-- The storage after a change of one slot. -/
theorem Represents.update {st' : ChunkedStorage tgt T} (h : st.Represents m) (h' : st'.Allocated)
    {slot : Fin tgt.usizeMax} {x : Option T}
    (hs : ∀ i, st'.slots i = if i = slot.val then x else st.slots i) :
    st'.Represents (Function.update m slot x) := by
  refine ⟨fun i => ?_, h'⟩
  rcases eq_or_ne i slot with rfl | hne
  · rw [hs, if_pos rfl, Function.update_self]
  · rw [hs, if_neg fun he => hne (Fin.ext he), h.slots, Function.update_of_ne hne]

theorem Represents.set (h : st.Represents m) (slot : Fin tgt.usizeMax) (value : T)
    (hr : SlotOp.refused (.set slot value) = false) :
    (st.perform (.set slot value)).1.toOption = SlotOp.answer m (.set slot value) ∧
      (st.perform (.set slot value)).2.Represents (SlotOp.update m (.set slot value)) := by
  have hslots := h.slots slot
  cases hm : m slot with
  | none =>
      have ha : tgt.allocates (slot.val + 1).log2 = true := by simpa [SlotOp.refused] using hr
      obtain ⟨st', hset, hst'⟩ := set_empty ha slot.isLt (hslots.trans hm) value
      simp only [perform, hset, SlotOp.answer, SlotOp.update, hm]
      exact ⟨rfl, h.update (h.allocated.set hset) hst'⟩
  | some v =>
      obtain ⟨st', hset, hst'⟩ := set_occupied (hslots.trans hm) value
      simp only [perform, hset, SlotOp.answer, SlotOp.update, hm]
      exact ⟨rfl, fun i => (hst' i).trans (h.slots i), h.allocated.set hset⟩

theorem Represents.take (h : st.Represents m) (slot : Fin tgt.usizeMax) :
    (st.perform (.take slot)).1.toOption = SlotOp.answer m (.take slot) ∧
      (st.perform (.take slot)).2.Represents (SlotOp.update m (.take slot)) := by
  have hslots := h.slots slot
  cases hm : m slot with
  | none =>
      obtain ⟨st', htake, hst'⟩ := take_empty slot.isLt (hslots.trans hm)
      have hsame : Function.update m slot none = m := hm ▸ Function.update_eq_self slot m
      simp only [perform, htake, SlotOp.answer, SlotOp.update, hm, hsame]
      exact ⟨rfl, fun i => (hst' i).trans (h.slots i), h.allocated.take htake⟩
  | some v =>
      obtain ⟨st', htake, hst'⟩ := take_eq (hslots.trans hm)
      simp only [perform, htake, SlotOp.answer, SlotOp.update, hm]
      exact ⟨rfl, h.update (h.allocated.take htake) hst'⟩

theorem Represents.get (h : st.Represents m) (slot : Fin tgt.usizeMax) :
    (st.perform (.get slot)).1.toOption = SlotOp.answer m (.get slot) := by
  have hslots := h.slots slot
  cases hm : m slot with
  | none =>
      obtain ⟨p, hget⟩ := get_empty slot.isLt (hslots.trans hm)
      simp only [perform, hget, SlotOp.answer, hm]
      rfl
  | some v =>
      simp only [perform, get_eq (hslots.trans hm), SlotOp.answer, hm]
      rfl

theorem Represents.isSet (h : st.Represents m) (slot : Fin tgt.usizeMax) :
    (st.perform (.isSet slot)).1.toOption = SlotOp.answer m (.isSet slot) := by
  simp only [perform, isSet_eq slot.isLt, h.slots, SlotOp.answer]
  rfl

/-- An operation that is not refused is that of the map. -/
theorem Represents.perform (h : st.Represents m) (op : SlotOp tgt T) (hr : op.refused = false) :
    (st.perform op).1.toOption = op.answer m ∧ (st.perform op).2.Represents (op.update m) := by
  cases op with
  | set slot value => exact h.set slot value hr
  | take slot => exact h.take slot
  | get slot => exact ⟨h.get slot, h⟩
  | isSet slot => exact ⟨h.isSet slot, h⟩

/-- A refused one panics. -/
theorem Allocated.perform_refused (h : st.Allocated) {op : SlotOp tgt T} (hr : op.refused = true) :
    st.perform op = (.error .capacityOverflow, st) := by
  cases op with
  | set slot value =>
      have ha : tgt.allocates (slot.val + 1).log2 = false := by simpa [SlotOp.refused] using hr
      have hc : st.chunks (place slot.val slot.isLt).1 = none := by
        by_contra hc
        cases (h _ hc).symm.trans ha
      simp only [ChunkedStorage.perform, set_refused slot.isLt hc ha]
  | take slot => cases hr
  | get slot => cases hr
  | isSet slot => cases hr

theorem Represents.performAll (h : st.Represents m) (ops : List (SlotOp tgt T)) :
    (st.performAll ops).1.map Except.toOption = (m.performAll ops).1 ∧
      (st.performAll ops).2.Represents (m.performAll ops).2 := by
  induction ops generalizing st m with
  | nil => exact ⟨rfl, h⟩
  | cons op ops ih =>
      rw [ChunkedStorage.performAll, StorageMap.performAll]
      cases hr : op.refused with
      | true =>
          obtain ⟨hreplies, hrest⟩ := ih h
          rw [h.allocated.perform_refused hr, List.map_cons, hreplies]
          exact ⟨rfl, hrest⟩
      | false =>
          obtain ⟨hreply, hstep⟩ := h.perform op hr
          obtain ⟨hreplies, hrest⟩ := ih hstep
          rw [List.map_cons, hreply, hreplies]
          exact ⟨rfl, hrest⟩

end Step

/-! ## Finding a slot -/

/-- The slot at a place. -/
def slotAt (p : Place tgt) : Nat := 2 ^ p.1.val + p.2.val - 1

theorem slotAt_lt (p : Place tgt) : slotAt p < tgt.usizeMax := by
  have hpos := Nat.two_pow_pos p.1.val
  have ho := p.2.isLt
  have hle : 2 ^ (p.1.val + 1) ≤ 2 ^ tgt.bits := Nat.pow_le_pow_right Nat.two_pos p.1.isLt
  rw [Nat.pow_succ] at hle
  rw [slotAt, Target.usizeMax]
  omega

/-- A place is a chunk number and an offset. -/
theorem place_ext {p q : Place tgt} (hk : p.1.val = q.1.val) (ho : p.2.val = q.2.val) : p = q := by
  obtain ⟨⟨k, hp⟩, ⟨o, hop⟩⟩ := p
  obtain ⟨⟨k', hq⟩, ⟨o', hoq⟩⟩ := q
  cases hk
  cases ho
  rfl

theorem place_slotAt (p : Place tgt) : place (slotAt p) (slotAt_lt p) = p := by
  have hpos := Nat.two_pow_pos p.1.val
  have ho := p.2.isLt
  have hslot : slotAt p + 1 = 2 ^ p.1.val + p.2.val := by
    rw [slotAt]
    omega
  have hlog : (slotAt p + 1).log2 = p.1.val := by
    rw [hslot, Nat.log2_eq_iff (by omega), Nat.pow_succ]
    omega
  refine place_ext hlog ?_
  show slotAt p + 1 - 2 ^ (slotAt p + 1).log2 = p.2.val
  rw [hlog, hslot, Nat.add_sub_cancel_left]

/-- One place for each slot, and one slot for each place. -/
theorem place_bijective :
    Function.Bijective fun slot : Fin tgt.usizeMax => place slot.val slot.isLt :=
  ⟨fun _ _ h => Fin.ext (place_inj h), fun p => ⟨⟨slotAt p, slotAt_lt p⟩, place_slotAt p⟩⟩

/-- A later slot is in a later chunk, or further on in the same one. -/
theorem place_lt {i j : Nat} {hi : i < tgt.usizeMax} {hj : j < tgt.usizeMax} (h : i < j) :
    (place i hi).1 < (place j hj).1 ∨
      (place i hi).1 = (place j hj).1 ∧ (place i hi).2.val < (place j hj).2.val := by
  have hle : (i + 1).log2 ≤ (j + 1).log2 := by
    rw [Nat.le_log2 (Nat.succ_ne_zero j)]
    exact Nat.le_trans (Nat.log2_self_le (Nat.succ_ne_zero i)) (Nat.succ_le_succ (Nat.le_of_lt h))
  rcases Nat.lt_or_eq_of_le hle with hlt | heq
  · exact .inl hlt
  · refine .inr ⟨Fin.ext heq, ?_⟩
    have hi' := Nat.log2_self_le (Nat.succ_ne_zero i)
    have hj' := Nat.log2_self_le (Nat.succ_ne_zero j)
    show i + 1 - 2 ^ (i + 1).log2 < j + 1 - 2 ^ (j + 1).log2
    rw [heq] at hi' ⊢
    omega

/-- The subtractions of `split_index` are of a smaller number, and its shift stays in the word. -/
theorem splitIndex_bounds {index : Nat} (h : index < tgt.usizeMax) :
    tgt.leadingZeros (index + 1) + 1 ≤ tgt.bits ∧ 1 <<< (index + 1).log2 ≤ index + 1 ∧
      index + 1 ≤ tgt.usizeMax := by
  have hlog := log2_lt_bits h
  rw [Target.leadingZeros, if_neg (Nat.succ_ne_zero index), Nat.one_shiftLeft]
  exact ⟨by omega, Nat.log2_self_le (Nat.succ_ne_zero index), h⟩

/-- Any operations on a new storage answer as on an empty map, and leave what the map
says.  Each touches its own slot only.  A slot is found at its own place, the places
are in the order of the slots, and nothing overflows or leaves its chunk on the way. -/
theorem refines_partial_map (tgt : Target) (ops : List (SlotOp tgt T)) :
    let st := (new : ChunkedStorage tgt T).performAll ops
    let m : List (Option (SlotReply T)) × StorageMap tgt T :=
      StorageMap.performAll (fun _ => none) ops
    st.1.map Except.toOption = m.1 ∧
      (∀ slot : Fin tgt.usizeMax, st.2.slots slot = m.2 slot) ∧
      (∀ op : SlotOp tgt T, ∀ slot : Fin tgt.usizeMax, slot ≠ op.slot →
        (st.2.perform op).2.slots slot = st.2.slots slot) ∧
      (Function.Bijective fun slot : Fin tgt.usizeMax => place slot.val slot.isLt) ∧
      ∀ slot : Fin tgt.usizeMax, let p := place slot.val slot.isLt
        splitIndex tgt slot = .ok (p.1.val, p.2.val) ∧ locate tgt slot = .ok p ∧
        tgt.leadingZeros (slot + 1) + 1 ≤ tgt.bits ∧ 1 <<< p.1.val ≤ slot.val + 1 ∧
        slot.val + 1 ≤ tgt.usizeMax ∧
        ∀ slot' : Fin tgt.usizeMax, slot < slot' →
          let p' := place slot'.val slot'.isLt
          p.1 < p'.1 ∨ p.1 = p'.1 ∧ p.2.val < p'.2.val := by
  intro st m
  obtain ⟨hreplies, hst⟩ :=
    (Represents.new : (new : ChunkedStorage tgt T).Represents _).performAll ops
  refine ⟨hreplies, hst.slots, fun op slot hne => ?_, place_bijective, fun slot => ?_⟩
  · cases hr : op.refused with
    | true => rw [hst.allocated.perform_refused hr]
    | false =>
        obtain ⟨-, hstep⟩ := hst.perform op hr
        rw [hstep.slots, hst.slots, op.update_of_ne _ hne]
  · obtain ⟨hzeros, hshift, hfit⟩ := splitIndex_bounds slot.isLt
    exact ⟨splitIndex_eq slot.isLt, locate_eq slot.isLt, hzeros, hshift, hfit,
      fun slot' hlt => place_lt hlt⟩

/-- The last slot of a chunk and the first of the next one, in words of four bits. -/
theorem refines_partial_map_chunks :
    let tgt : Target := ⟨4, fun _ => true⟩
    let ops : List (SlotOp tgt Nat) :=
      [.set ⟨6, by decide⟩ 1, .set ⟨7, by decide⟩ 2, .set ⟨6, by decide⟩ 3, .take ⟨6, by decide⟩,
        .get ⟨6, by decide⟩, .get ⟨7, by decide⟩, .isSet ⟨14, by decide⟩]
    ((new : ChunkedStorage tgt Nat).performAll ops).1.map Except.toOption
      = [some (.flag true), some (.flag true), some (.flag false), some (.taken (some 1)), none,
        some (.value 2), some (.flag false)] := by
  intro tgt ops
  obtain ⟨hreplies, -⟩ := refines_partial_map tgt ops
  rw [hreplies]
  decide

end ChunkedStorage

end SafeBump
