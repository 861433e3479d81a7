import SafeBump.Runtime

/-!
# Chunked storage

`chunked_storage.rs`.  Slot `i` lives in chunk `k` at offset `o`, where
`2 ^ k + o = i + 1`; chunk `k` has `2 ^ k` slots and is allocated by the first
write to reach it.  The types carry the sizes: there is one chunk for each bit
of a word, and chunk `k` is a vector of `2 ^ k` slots.

The chunks are a way to lay out one line of slots, `ChunkedStorage.slots`.
Every operation is described by what it does to that line.
-/

namespace SafeBump

/-- `usize::leading_zeros`. -/
def Target.leadingZeros (tgt : Target) (n : Nat) : Nat :=
  if n = 0 then tgt.bits else tgt.bits - 1 - n.log2

/-- `split_index`. -/
def splitIndex (tgt : Target) (index : Nat) : Except Panic (Nat × Nat) :=
  match tgt.checkedAdd index 1 with
  | none => .error .slotUnrepresentable
  | some n =>
      let chunk := tgt.bits - tgt.leadingZeros n - 1
      .ok (chunk, n - 1 <<< chunk)

/-- Stable-address chunked storage. -/
structure ChunkedStorage (tgt : Target) (T : Type) where
  chunks : (k : Fin tgt.bits) → Option (Vector (Option T) (2 ^ k.val))

/-- The chunks of the slots can be allocated, those that are there already included. -/
def Target.Affords (tgt : Target) (slots : List Nat) : Prop :=
  ∀ slot ∈ slots, tgt.allocates (slot + 1).log2 = true

instance (tgt : Target) (slots : List Nat) : Decidable (tgt.Affords slots) :=
  inferInstanceAs (Decidable (∀ slot ∈ slots, tgt.allocates (slot + 1).log2 = true))

theorem Target.affords_all {tgt : Target} (hall : ∀ k, tgt.allocates k = true) (slots : List Nat) :
    tgt.Affords slots := fun _ _ => hall _

namespace ChunkedStorage

variable {tgt : Target} {T : Type}

/-- `ChunkedStorage::new`. -/
def new : ChunkedStorage tgt T := ⟨fun _ => none⟩

/-- A place in the storage: a chunk and an offset in it. -/
abbrev Place (tgt : Target) := (k : Fin tgt.bits) × Fin (2 ^ k.val)

/-- The place of a linear index, with the bounds checks of the two arrays. -/
def locate (tgt : Target) (index : Nat) : Except Panic (Place tgt) :=
  match splitIndex tgt index with
  | .error p => .error p
  | .ok (chunk, offset) =>
      if hc : chunk < tgt.bits then
        if ho : offset < 2 ^ chunk then .ok ⟨⟨chunk, hc⟩, ⟨offset, ho⟩⟩
        else .error .indexOutOfBounds
      else .error .indexOutOfBounds

/-- `alloc_chunk`. -/
def allocChunk (tgt : Target) (k : Fin tgt.bits) : Except Panic (Vector (Option T) (2 ^ k.val)) :=
  if tgt.allocates k then .ok (Vector.replicate (2 ^ k.val) none) else .error .capacityOverflow

/-- The chunk `k`, allocated if it is not there yet: `get_or_init`. -/
def chunk (st : ChunkedStorage tgt T) (k : Fin tgt.bits) :
    Except Panic (Vector (Option T) (2 ^ k.val)) :=
  match st.chunks k with
  | some chunk => .ok chunk
  | none => allocChunk tgt k

/-- Store a chunk. -/
def put (st : ChunkedStorage tgt T) (k : Fin tgt.bits) (chunk : Vector (Option T) (2 ^ k.val)) :
    ChunkedStorage tgt T :=
  ⟨Function.update st.chunks k (some chunk)⟩

/-- `ChunkedStorage::set`. -/
def set (st : ChunkedStorage tgt T) (index : Nat) (value : T) :
    Except Panic (Bool × ChunkedStorage tgt T) := do
  let ⟨k, offset⟩ ← locate tgt index
  let chunk ← st.chunk k
  match chunk[offset] with
  | some _ => return (false, st.put k chunk)
  | none => return (true, st.put k (chunk.set offset (some value)))

/-- `ChunkedStorage::get`. -/
def get (st : ChunkedStorage tgt T) (index : Nat) : Except Panic T := do
  let ⟨k, offset⟩ ← locate tgt index
  match st.chunks k with
  | none => throw .chunkMissing
  | some chunk =>
      match chunk[offset] with
      | none => throw .slotEmpty
      | some value => return value

/-- `ChunkedStorage::is_set`. -/
def isSet (st : ChunkedStorage tgt T) (index : Nat) : Except Panic Bool := do
  let ⟨k, offset⟩ ← locate tgt index
  return (st.chunks k).any fun chunk => chunk[offset].isSome

/-- `ChunkedStorage::take`. -/
def take (st : ChunkedStorage tgt T) (index : Nat) :
    Except Panic (Option T × ChunkedStorage tgt T) := do
  let ⟨k, offset⟩ ← locate tgt index
  match st.chunks k with
  | none => return (none, st)
  | some chunk => return (chunk[offset], st.put k (chunk.set offset none))

/-! ## Places -/

theorem log2_lt_bits {index : Nat} (h : index < tgt.usizeMax) : (index + 1).log2 < tgt.bits := by
  rw [Nat.log2_lt (Nat.succ_ne_zero index)]
  exact Nat.add_lt_of_lt_sub h

/-- Below `usize::MAX` the chunk is the binary logarithm of `index + 1`, and the
offset what is left. -/
theorem splitIndex_eq {index : Nat} (h : index < tgt.usizeMax) :
    splitIndex tgt index
      = .ok ((index + 1).log2, index + 1 - 2 ^ (index + 1).log2) := by
  have hlog := log2_lt_bits h
  have hadd : tgt.checkedAdd index 1 = some (index + 1) :=
    Target.checkedAdd_eq_some.mpr ⟨h, rfl⟩
  have hchunk : tgt.bits - tgt.leadingZeros (index + 1) - 1 = (index + 1).log2 := by
    rw [Target.leadingZeros, if_neg (Nat.succ_ne_zero index)]
    omega
  simp only [splitIndex, hadd, hchunk, Nat.one_shiftLeft]

theorem offset_lt (index : Nat) : index + 1 - 2 ^ (index + 1).log2 < 2 ^ (index + 1).log2 := by
  have hle := Nat.log2_self_le (Nat.succ_ne_zero index)
  have hlt := (Nat.log2_lt (Nat.succ_ne_zero index)).mp (Nat.lt_succ_self (index + 1).log2)
  rw [Nat.pow_succ] at hlt
  simp only [Nat.succ_eq_add_one] at hle hlt
  omega

/-- The place of a slot below `usize::MAX`. -/
def place (index : Nat) (h : index < tgt.usizeMax) : Place tgt :=
  ⟨⟨(index + 1).log2, log2_lt_bits h⟩, ⟨index + 1 - 2 ^ (index + 1).log2, offset_lt index⟩⟩

theorem locate_eq {index : Nat} (h : index < tgt.usizeMax) :
    locate tgt index = .ok (place index h) := by
  simp only [locate, splitIndex_eq h, dif_pos (log2_lt_bits h), dif_pos (offset_lt index)]
  rfl

theorem locate_usizeMax {index : Nat} (h : tgt.usizeMax ≤ index) :
    locate tgt index = .error .slotUnrepresentable := by
  have hadd : tgt.checkedAdd index 1 = none :=
    Target.checkedAdd_eq_none.mpr (Nat.lt_succ_of_le h)
  simp only [locate, splitIndex, hadd]

/-- Different slots have different places. -/
theorem place_inj {i j : Nat} {hi : i < tgt.usizeMax} {hj : j < tgt.usizeMax}
    (h : place i hi = place j hj) : i = j := by
  have hk : (i + 1).log2 = (j + 1).log2 := congrArg (fun p : Place tgt => p.1.val) h
  have ho : i + 1 - 2 ^ (i + 1).log2 = j + 1 - 2 ^ (j + 1).log2 :=
    congrArg (fun p : Place tgt => p.2.val) h
  have hi' := Nat.log2_self_le (Nat.succ_ne_zero i)
  have hj' := Nat.log2_self_le (Nat.succ_ne_zero j)
  rw [hk] at ho hi'
  simp only [Nat.succ_eq_add_one] at hi' hj'
  omega

/-! ## The line of slots -/

/-- What a place holds. -/
def held (st : ChunkedStorage tgt T) (p : Place tgt) : Option T :=
  match st.chunks p.1 with
  | none => none
  | some chunk => chunk[p.2]

/-- What a slot holds. -/
def slots (st : ChunkedStorage tgt T) (index : Nat) : Option T :=
  if h : index < tgt.usizeMax then st.held (place index h) else none

theorem slots_eq {st : ChunkedStorage tgt T} {index : Nat} (h : index < tgt.usizeMax) :
    st.slots index = st.held (place index h) := dif_pos h

@[simp] theorem slots_new (index : Nat) : (new : ChunkedStorage tgt T).slots index = none := by
  simp only [slots, held, new]
  split <;> rfl

/-- A chunk, there already or allocated now, holds what its slots hold. -/
theorem get_chunk {st : ChunkedStorage tgt T} {k : Fin tgt.bits}
    {ch : Vector (Option T) (2 ^ k.val)} (h : st.chunk k = .ok ch) (o : Fin (2 ^ k.val)) :
    ch[o] = st.held ⟨k, o⟩ := by
  rw [chunk] at h
  cases hk : st.chunks k with
  | some ch' =>
      rw [hk] at h
      cases h
      simp only [held, hk]
  | none =>
      simp only [hk, allocChunk] at h
      split at h
      · cases h
        simp [held, hk]
      · cases h

theorem held_put_self (st : ChunkedStorage tgt T) (k : Fin tgt.bits)
    (ch : Vector (Option T) (2 ^ k.val)) (o : Fin (2 ^ k.val)) :
    (st.put k ch).held ⟨k, o⟩ = ch[o] := by
  simp [held, put]

theorem held_put_of_ne (st : ChunkedStorage tgt T) {k : Fin tgt.bits}
    (ch : Vector (Option T) (2 ^ k.val)) {p : Place tgt} (h : p.1 ≠ k) :
    (st.put k ch).held p = st.held p := by
  simp [held, put, h]

/-- Writing a place changes that place. -/
theorem held_put_set {st : ChunkedStorage tgt T} {k : Fin tgt.bits}
    {ch : Vector (Option T) (2 ^ k.val)} (hc : ∀ o : Fin (2 ^ k.val), ch[o] = st.held ⟨k, o⟩)
    (o : Fin (2 ^ k.val)) (x : Option T) (p : Place tgt) :
    (st.put k (ch.set o x)).held p = if p = ⟨k, o⟩ then x else st.held p := by
  obtain ⟨k', o'⟩ := p
  by_cases hk : k' = k
  · subst hk
    rw [held_put_self]
    by_cases ho : o' = o
    · subst ho
      simp
    · have hne : o.val ≠ o'.val := fun he => ho (Fin.ext he.symm)
      have hp : (⟨k', o'⟩ : Place tgt) ≠ ⟨k', o⟩ := by simpa using ho
      rw [if_neg hp, ← hc o']
      simp [hne]
  · have hp : (⟨k', o'⟩ : Place tgt) ≠ ⟨k, o⟩ := fun he => hk (congrArg Sigma.fst he)
    rw [held_put_of_ne _ _ hk, if_neg hp]

/-- Keeping a chunk changes nothing. -/
theorem held_put_chunk {st : ChunkedStorage tgt T} {k : Fin tgt.bits}
    {ch : Vector (Option T) (2 ^ k.val)} (hc : ∀ o : Fin (2 ^ k.val), ch[o] = st.held ⟨k, o⟩)
    (p : Place tgt) : (st.put k ch).held p = st.held p := by
  obtain ⟨k', o'⟩ := p
  by_cases hk : k' = k
  · subst hk
    rw [held_put_self, hc]
  · exact held_put_of_ne _ _ hk

/-- A storage whose places changed at one slot. -/
theorem slots_of_held {st st' : ChunkedStorage tgt T} {index : Nat} (h : index < tgt.usizeMax)
    {x : Option T}
    (hp : ∀ p, st'.held p = if p = place index h then x else st.held p) (i : Nat) :
    st'.slots i = if i = index then x else st.slots i := by
  by_cases hi : i < tgt.usizeMax
  · rw [slots_eq hi, slots_eq hi, hp]
    by_cases he : i = index
    · subst he
      rw [if_pos rfl, if_pos rfl]
    · rw [if_neg he, if_neg fun hpl => he (place_inj hpl)]
  · have hne : i ≠ index := fun he => hi (he ▸ h)
    rw [if_neg hne, slots, dif_neg hi, slots, dif_neg hi]

section Operations

variable {st : ChunkedStorage tgt T} {index : Nat}

theorem slots_lt {v : T} (h : st.slots index = some v) : index < tgt.usizeMax := by
  rw [slots] at h
  split at h
  · assumption
  · cases h

/-- A write to an empty slot fills it. -/
theorem set_empty (ha : tgt.allocates (index + 1).log2 = true) (h : index < tgt.usizeMax)
    (hempty : st.slots index = none) (value : T) :
    ∃ st', st.set index value = .ok (true, st') ∧
      ∀ i, st'.slots i = if i = index then some value else st.slots i := by
  rw [slots_eq h] at hempty
  obtain ⟨ch, hc⟩ : ∃ ch, st.chunk (place index h).1 = .ok ch := by
    rw [chunk]
    cases st.chunks (place index h).1 with
    | some ch => exact ⟨ch, rfl⟩
    | none => exact ⟨_, if_pos ha⟩
  have hget := get_chunk hc
  have hslot : ch[(place index h).2] = none := (hget _).trans hempty
  refine ⟨st.put (place index h).1 (ch.set (place index h).2 (some value)), ?_,
    slots_of_held h fun p => held_put_set hget _ _ p⟩
  simp only [set, locate_eq h, hc, bind, Except.bind]
  rw [hslot]
  rfl

/-- A write to a slot in use leaves its value. -/
theorem set_occupied {v : T} (h : st.slots index = some v) (value : T) :
    ∃ st', st.set index value = .ok (false, st') ∧ ∀ i, st'.slots i = st.slots i := by
  have hlt := slots_lt h
  rw [slots_eq hlt] at h
  cases hk : st.chunks (place index hlt).1 with
  | none =>
      rw [held, hk] at h
      cases h
  | some ch =>
      have hc : st.chunk (place index hlt).1 = .ok ch := by rw [chunk, hk]
      have hget := get_chunk hc
      have hslot : ch[(place index hlt).2] = some v := (hget _).trans h
      refine ⟨st.put (place index hlt).1 ch, ?_, fun i => ?_⟩
      · simp only [set, locate_eq hlt, hc, bind, Except.bind]
        rw [hslot]
        rfl
      · rw [slots, slots]
        split
        · exact held_put_chunk hget _
        · rfl

/-- A write that needs a chunk there is no memory for panics. -/
theorem set_refused (h : index < tgt.usizeMax) (hc : st.chunks (place index h).1 = none)
    (ha : tgt.allocates (index + 1).log2 = false) (value : T) :
    st.set index value = .error .capacityOverflow := by
  have hchunk : st.chunk (place index h).1 = .error .capacityOverflow := by
    rw [chunk, hc]
    exact if_neg (Bool.eq_false_iff.mp ha)
  simp only [set, locate_eq h, hchunk, bind, Except.bind]

theorem get_eq {v : T} (h : st.slots index = some v) : st.get index = .ok v := by
  have hlt := slots_lt h
  rw [slots_eq hlt, held] at h
  simp only [get, locate_eq hlt, bind, Except.bind]
  cases hc : st.chunks (place index hlt).1 with
  | none =>
      rw [hc] at h
      cases h
  | some ch =>
      rw [hc] at h
      simp only at h ⊢
      rw [h]
      rfl

theorem get_empty (h : index < tgt.usizeMax) (hempty : st.slots index = none) :
    ∃ p, st.get index = .error p := by
  rw [slots_eq h, held] at hempty
  simp only [get, locate_eq h, bind, Except.bind]
  cases hc : st.chunks (place index h).1 with
  | none => exact ⟨_, rfl⟩
  | some ch =>
      rw [hc] at hempty
      simp only at hempty ⊢
      rw [hempty]
      exact ⟨_, rfl⟩

theorem isSet_eq (h : index < tgt.usizeMax) :
    st.isSet index = .ok (st.slots index).isSome := by
  rw [slots_eq h, held]
  simp only [isSet, locate_eq h, bind, Except.bind]
  cases st.chunks (place index h).1 <;> rfl

/-- Taking the value of a slot empties it. -/
theorem take_eq {v : T} (h : st.slots index = some v) :
    ∃ st', st.take index = .ok (some v, st') ∧
      ∀ i, st'.slots i = if i = index then none else st.slots i := by
  have hlt := slots_lt h
  rw [slots_eq hlt, held] at h
  cases hc : st.chunks (place index hlt).1 with
  | none =>
      rw [hc] at h
      cases h
  | some ch =>
      rw [hc] at h
      have hget : ∀ o, ch[o] = st.held ⟨(place index hlt).1, o⟩ := by
        intro o
        simp only [held, hc]
      refine ⟨st.put (place index hlt).1 (ch.set (place index hlt).2 none), ?_,
        slots_of_held hlt fun p => held_put_set hget _ _ p⟩
      simp only [take, locate_eq hlt, hc, bind, Except.bind]
      rw [show ch[(place index hlt).2] = some v from h]
      rfl

theorem take_empty (h : index < tgt.usizeMax) (hempty : st.slots index = none) :
    ∃ st', st.take index = .ok (none, st') ∧ ∀ i, st'.slots i = st.slots i := by
  rw [slots_eq h] at hempty
  cases hc : st.chunks (place index h).1 with
  | none =>
      refine ⟨st, ?_, fun i => rfl⟩
      simp only [take, locate_eq h, hc, bind, Except.bind]
      rfl
  | some ch =>
      have hget : ∀ o, ch[o] = st.held ⟨(place index h).1, o⟩ := by
        intro o
        simp only [held, hc]
      have hslot : ch[(place index h).2] = none := (hget _).trans hempty
      refine ⟨st.put (place index h).1 (ch.set (place index h).2 none), ?_, fun i => ?_⟩
      · simp only [take, locate_eq h, hc, bind, Except.bind]
        rw [hslot]
        rfl
      · have hput := slots_of_held h (fun p => held_put_set hget (place index h).2 none p) i
        rw [hput, ite_eq_right_iff]
        rintro rfl
        rw [slots_eq h, hempty]

end Operations

/-! ## The chunks there are -/

/-- Only chunks there is memory for were allocated. -/
def Allocated (st : ChunkedStorage tgt T) : Prop :=
  ∀ k, st.chunks k ≠ none → tgt.allocates k = true

theorem Allocated.new : (new : ChunkedStorage tgt T).Allocated := fun _ h => absurd rfl h

theorem Allocated.put {st : ChunkedStorage tgt T} (h : st.Allocated) {k : Fin tgt.bits}
    (hk : tgt.allocates k = true) (ch : Vector (Option T) (2 ^ k.val)) :
    (st.put k ch).Allocated := by
  intro k' hk'
  rcases eq_or_ne k' k with rfl | hne
  · exact hk
  · have hput : (st.put k ch).chunks k' = st.chunks k' := Function.update_of_ne hne ..
    exact h k' (hput ▸ hk')

/-- A chunk that was there or could be allocated. -/
theorem Allocated.of_chunk {st : ChunkedStorage tgt T} (h : st.Allocated) {k : Fin tgt.bits}
    {ch : Vector (Option T) (2 ^ k.val)} (hc : st.chunk k = .ok ch) : tgt.allocates k = true := by
  rw [chunk] at hc
  cases hk : st.chunks k with
  | some ch' => exact h k (by rw [hk]; exact Option.some_ne_none ch')
  | none =>
      rw [hk] at hc
      simp only [allocChunk] at hc
      split at hc
      · assumption
      · cases hc

theorem Allocated.set {st st' : ChunkedStorage tgt T} (h : st.Allocated) {index : Nat} {value : T}
    {inserted : Bool} (hs : st.set index value = .ok (inserted, st')) : st'.Allocated := by
  simp only [ChunkedStorage.set, bind, Except.bind] at hs
  split at hs
  · cases hs
  · split at hs
    · cases hs
    · rename_i hc
      split at hs <;> cases hs <;> exact h.put (h.of_chunk hc) _

theorem Allocated.take {st st' : ChunkedStorage tgt T} (h : st.Allocated) {index : Nat}
    {value : Option T} (ht : st.take index = .ok (value, st')) : st'.Allocated := by
  simp only [ChunkedStorage.take, bind, Except.bind] at ht
  split at ht
  · cases ht
  · split at ht
    · cases ht
      exact h
    · rename_i hk
      cases ht
      exact h.put (h _ (by rw [hk]; exact Option.some_ne_none _)) _

/-- A write fills an empty slot there is memory for, leaves a value that is there, and
panics where there is no memory. -/
theorem Allocated.set_cases {st : ChunkedStorage tgt T} (h : st.Allocated) {index : Nat}
    (hlt : index < tgt.usizeMax) (value : T) :
    (st.slots index = none ∧ tgt.allocates (index + 1).log2 = true ∧
      ∃ st', st.set index value = .ok (true, st') ∧ st'.Allocated ∧
        ∀ i, st'.slots i = if i = index then some value else st.slots i) ∨
    (∃ v st', st.slots index = some v ∧ st.set index value = .ok (false, st') ∧ st'.Allocated ∧
      ∀ i, st'.slots i = st.slots i) ∨
    st.slots index = none ∧ tgt.allocates (index + 1).log2 = false ∧
      st.set index value = .error .capacityOverflow := by
  cases hslot : st.slots index with
  | some v =>
      obtain ⟨st', hset, hst⟩ := set_occupied hslot value
      exact .inr (.inl ⟨v, st', rfl, hset, h.set hset, hst⟩)
  | none =>
      cases ha : tgt.allocates (index + 1).log2 with
      | true =>
          obtain ⟨st', hset, hst⟩ := set_empty ha hlt hslot value
          exact .inl ⟨rfl, rfl, st', hset, h.set hset, hst⟩
      | false =>
          have hc : st.chunks (place index hlt).1 = none := by
            refine Classical.not_not.mp fun hne => ?_
            cases ha.symm.trans (h _ hne)
          exact .inr (.inr ⟨rfl, rfl, set_refused hlt hc ha value⟩)

/-- A slot that is filled lies in a chunk there was memory for. -/
theorem Allocated.of_slots {st : ChunkedStorage tgt T} (h : st.Allocated) {index : Nat}
    (hslot : st.slots index ≠ none) : tgt.allocates (index + 1).log2 = true := by
  obtain ⟨v, hv⟩ := Option.ne_none_iff_exists'.mp hslot
  have hlt := slots_lt hv
  rw [slots_eq hlt, held] at hv
  refine h (place index hlt).1 fun hn => ?_
  rw [hn] at hv
  cases hv

end ChunkedStorage

end SafeBump
