import SafeBump.Handles

/-!
# The indices of a block

`Block::contains` and the double-ended iterator of `Block::indices`.  The iterator
keeps two offsets.  They close in on each other by one with each call, from whichever
end it comes, until they meet: so how many indices are left depends on how many
calls were made, and which one comes next on how many of them came from that end
(`BlockIndices.front_calls`, `BlockIndices.call_calls`).
-/

namespace SafeBump

/-- Exact-size iterator over the capabilities in a block. -/
structure BlockIndices where
  block : Block
  front : Nat
  back : Nat
deriving DecidableEq, Repr

namespace Block

/-- `Block::contains`. -/
def contains (b : Block) (idx : Idx) : Bool :=
  b.stamp.any fun stamp =>
    decide (idx.stamp = stamp) && decide (b.start ≤ idx.slot) && decide (idx.slot - b.start < b.len)

/-- `Block::indices`. -/
def indices (b : Block) : BlockIndices := ⟨b, 0, b.len⟩

/-- The block is empty, or its slots can be numbered. -/
def Fits (tgt : Target) (b : Block) : Prop :=
  b = empty ∨ ∃ stamp, b.stamp = some stamp ∧ b.start + b.len ≤ tgt.usizeMax

section Fits

variable {tgt : Target} {b : Block}

/-- `get` derives an index for every offset in the block. -/
theorem Fits.get_eq (h : b.Fits tgt) {offset : Nat} (hlt : offset < b.len) :
    ∃ stamp, b.stamp = some stamp ∧ b.get tgt offset = some ⟨stamp, b.start + offset⟩ := by
  obtain ⟨stamp, start, len⟩ := b
  rcases h with h | ⟨s, hs, hfit⟩
  · cases h
    exact absurd hlt (Nat.not_lt_zero offset)
  · obtain rfl : stamp = some s := hs
    have hfit : start + len ≤ tgt.usizeMax := hfit
    have hlt : offset < len := hlt
    exact ⟨s, rfl, get_eq_some.mpr ⟨hlt, by omega, rfl⟩⟩

theorem get_eq_none {offset : Nat} (hle : b.len ≤ offset) : b.get tgt offset = none := if_pos hle

theorem Fits.isSome_get (h : b.Fits tgt) (offset : Nat) :
    (b.get tgt offset).isSome = true ↔ offset < b.len := by
  constructor
  · intro hs
    by_contra hle
    rw [get_eq_none (Nat.le_of_not_lt hle)] at hs
    cases hs
  · intro hlt
    obtain ⟨stamp, -, hget⟩ := h.get_eq hlt
    rw [hget, Option.isSome_some]

/-- The indices are those `get` derives, in order. -/
theorem Fits.getElem?_idxs (h : b.Fits tgt) (offset : Nat) :
    (b.idxs tgt)[offset]? = b.get tgt offset := by
  have hall : ∀ i < b.len, b.get tgt i ≠ none := fun i hi =>
    Option.isSome_iff_ne_none.mp ((h.isSome_get i).mpr hi)
  rw [idxs, Library.filterMap_range hall]
  split
  · rfl
  · exact (get_eq_none (Nat.le_of_not_lt ‹_›)).symm

theorem mem_idxs_iff_get {idx : Idx} :
    idx ∈ b.idxs tgt ↔ ∃ offset, b.get tgt offset = some idx := by
  rw [idxs, List.mem_filterMap]
  constructor
  · rintro ⟨offset, -, hget⟩
    exact ⟨offset, hget⟩
  · rintro ⟨offset, hget⟩
    refine ⟨offset, List.mem_range.mpr (Nat.lt_of_not_le fun hle => ?_), hget⟩
    cases (get_eq_none hle).symm.trans hget

theorem Fits.length_idxs (h : b.Fits tgt) : (b.idxs tgt).length = b.len :=
  Library.length_filterMap_range fun i hi => Option.isSome_iff_ne_none.mp ((h.isSome_get i).mpr hi)

/-- No two offsets derive the same index. -/
theorem Fits.nodup_idxs (h : b.Fits tgt) : (b.idxs tgt).Nodup := by
  refine List.nodup_iff_getElem?_ne_getElem?.mpr fun i j hij hj he => ?_
  rw [h.length_idxs] at hj
  obtain ⟨s, hs, hi'⟩ := h.get_eq (Nat.lt_trans hij hj)
  obtain ⟨s', hs', hj'⟩ := h.get_eq hj
  rw [h.getElem?_idxs, h.getElem?_idxs, hi', hj'] at he
  cases hs.symm.trans hs'
  have hslot : b.start + i = b.start + j := congrArg Idx.slot (Option.some.inj he)
  omega

/-- A block contains the indices it derives and no others. -/
theorem Fits.contains_iff (h : b.Fits tgt) (idx : Idx) :
    b.contains idx = true ↔ idx ∈ b.idxs tgt := by
  obtain ⟨stamp, start, len⟩ := b
  rcases h with h | ⟨s, hs, hfit⟩
  · cases h
    exact ⟨(fun hc => by cases hc), fun hi => by cases hi⟩
  · obtain rfl : stamp = some s := hs
    have hfit : start + len ≤ tgt.usizeMax := hfit
    simp only [contains, Option.any_some, Bool.and_eq_true, decide_eq_true_iff, mem_idxs]
    constructor
    · rintro ⟨⟨hstamp, hge⟩, hlt⟩
      refine ⟨idx.slot - start, hlt, by omega, ?_⟩
      rw [← hstamp, Nat.add_sub_cancel' hge]
    · rintro ⟨offset, hlt, -, rfl⟩
      exact ⟨⟨rfl, Nat.le_add_right ..⟩, by rwa [Nat.add_sub_cancel_left]⟩

end Fits

end Block

/-! ## The double-ended iterator -/

/-- Which end an index is taken from. -/
inductive End where
  /-- By `next`. -/
  | front
  /-- By `next_back`. -/
  | back
deriving DecidableEq, Repr

namespace BlockIndices

/-- `BlockIndices::next`. -/
def next (tgt : Target) (it : BlockIndices) : Option Idx × BlockIndices :=
  if it.front = it.back then (none, it)
  else (it.block.get tgt it.front, { it with front := it.front + 1 })

/-- `BlockIndices::next_back`. -/
def nextBack (tgt : Target) (it : BlockIndices) : Option Idx × BlockIndices :=
  if it.front = it.back then (none, it)
  else (it.block.get tgt (it.back - 1), { it with back := it.back - 1 })

/-- `BlockIndices::size_hint`, both bounds. -/
def sizeHint (it : BlockIndices) : Nat := it.back - it.front

/-- A call from one end. -/
def call (tgt : Target) (it : BlockIndices) : End → Option Idx × BlockIndices
  | .front => it.next tgt
  | .back => it.nextBack tgt

/-- The iterator after some calls. -/
def after (tgt : Target) (it : BlockIndices) (es : List End) : BlockIndices :=
  es.foldl (fun it e => (it.call tgt e).2) it

/-- What some calls return, one after the other. -/
def calls (tgt : Target) : BlockIndices → List End → List (Option Idx)
  | _, [] => []
  | it, e :: es => (it.call tgt e).1 :: calls tgt (it.call tgt e).2 es

section Calls

variable {tgt : Target} {b : Block}

theorem after_concat (it : BlockIndices) (es : List End) (e : End) :
    it.after tgt (es ++ [e]) = ((it.after tgt es).call tgt e).2 := List.foldl_concat ..

theorem calls_concat (it : BlockIndices) (es : List End) (e : End) :
    it.calls tgt (es ++ [e]) = it.calls tgt es ++ [((it.after tgt es).call tgt e).1] := by
  induction es generalizing it with
  | nil => rfl
  | cons e' es ih => exact congrArg _ (ih _)

/-- Every call comes from one of the ends. -/
theorem count_add_count (es : List End) : es.count .front + es.count .back = es.length := by
  induction es with
  | nil => rfl
  | cons e es ih =>
      cases e with
      | front => simp only [List.count_cons_self, List.count_cons_of_ne, ne_eq, reduceCtorEq,
          not_false_eq_true, List.length_cons]; omega
      | back => simp only [List.count_cons_self, List.count_cons_of_ne, ne_eq, reduceCtorEq,
          not_false_eq_true, List.length_cons]; omega

/-- After some calls.  Those past the last index did nothing. -/
theorem after_indices (tgt : Target) (b : Block) (es : List End) :
    b.indices.after tgt es
      = ⟨b, (es.take b.len).count .front, b.len - (es.take b.len).count .back⟩ := by
  induction es using List.reverseRecOn with
  | nil => simp [after, Block.indices]
  | append_singleton es e ih =>
      have hcount := count_add_count (es.take b.len)
      rw [List.length_take] at hcount
      rw [after_concat, ih]
      rcases Nat.lt_or_ge es.length b.len with hlt | hge
      · rw [Nat.min_eq_right (Nat.le_of_lt hlt)] at hcount
        have hne : (es.take b.len).count .front ≠ b.len - (es.take b.len).count .back := by omega
        have htake : (es ++ [e]).take b.len = es.take b.len ++ [e] := by
          rw [List.take_of_length_le (Nat.le_of_lt hlt), List.take_of_length_le]
          rw [List.length_append]
          exact hlt
        rw [htake, List.count_append, List.count_append]
        cases e with
        | front => simp [call, next, hne]
        | back =>
            simp only [call, nextBack, hne, if_false]
            rw [List.count_cons_of_ne (by decide), List.count_cons_self, List.count_nil,
              Nat.sub_sub]
            rfl
      · rw [Nat.min_eq_left hge] at hcount
        have heq : (es.take b.len).count .front = b.len - (es.take b.len).count .back := by omega
        rw [List.take_append_of_le_length hge]
        cases e with
        | front => simp only [call, next, if_pos heq]
        | back => simp only [call, nextBack, if_pos heq]

/-- The offsets stay in order, inside the block. -/
theorem after_bounds (tgt : Target) (b : Block) (es : List End) :
    (b.indices.after tgt es).front ≤ (b.indices.after tgt es).back ∧
      (b.indices.after tgt es).back ≤ b.len := by
  have hcount := count_add_count (es.take b.len)
  rw [List.length_take] at hcount
  rw [after_indices]
  constructor
  · show (es.take b.len).count .front ≤ b.len - (es.take b.len).count .back
    omega
  · exact Nat.sub_le ..

/-- As many indices are left as calls are to be made. -/
theorem sizeHint_after (tgt : Target) (b : Block) (es : List End) :
    (b.indices.after tgt es).sizeHint = b.len - es.length := by
  have hcount := count_add_count (es.take b.len)
  rw [List.length_take] at hcount
  rw [after_indices]
  show b.len - (es.take b.len).count .back - (es.take b.len).count .front = b.len - es.length
  omega

/-- A call returns the next index from its end while there is one. -/
theorem call_after (tgt : Target) (b : Block) (es : List End) (e : End) :
    ((b.indices.after tgt es).call tgt e).1 =
      if es.length < b.len then
        match e with
        | .front => b.get tgt (es.count .front)
        | .back => b.get tgt (b.len - 1 - es.count .back)
      else none := by
  have hcount := count_add_count (es.take b.len)
  rw [List.length_take] at hcount
  rw [after_indices]
  split
  · rename_i hlt
    rw [List.take_of_length_le (Nat.le_of_lt hlt)] at hcount ⊢
    have hne : es.count .front ≠ b.len - es.count .back := by omega
    cases e with
    | front => simp only [call, next, if_neg hne]
    | back => simp only [call, nextBack, if_neg hne, Nat.sub_right_comm]
  · have heq : (es.take b.len).count .front = b.len - (es.take b.len).count .back := by omega
    cases e with
    | front => simp only [call, next, if_pos heq]
    | back => simp only [call, nextBack, if_pos heq]

/-- The indices returned so far are the first ones and the last ones. -/
theorem perm_calls (h : b.Fits tgt) (es : List End) :
    (b.indices.calls tgt es).reduceOption.Perm
      ((b.idxs tgt).take (b.indices.after tgt es).front ++
        (b.idxs tgt).drop (b.indices.after tgt es).back) := by
  induction es using List.reverseRecOn with
  | nil =>
      have hall : (b.idxs tgt).drop b.len = [] :=
        List.drop_eq_nil_of_le (Nat.le_of_eq h.length_idxs)
      show List.Perm [] ((b.idxs tgt).take 0 ++ (b.idxs tgt).drop b.len)
      rw [hall]
      exact .nil
  | append_singleton es e ih =>
      obtain ⟨hle, hlen⟩ := after_bounds tgt b es
      have hblock : (b.indices.after tgt es).block = b := by rw [after_indices]
      rw [calls_concat, List.reduceOption_append, after_concat]
      generalize b.indices.after tgt es = it at ih hle hlen hblock ⊢
      rcases Nat.eq_or_lt_of_le hle with heq | hlt
      · cases e with
        | front => simpa [call, next, heq] using ih
        | back => simpa [call, nextBack, heq] using ih
      · have hne : it.front ≠ it.back := Nat.ne_of_lt hlt
        cases e with
        | front =>
            obtain ⟨s, -, hget⟩ := h.get_eq (Nat.lt_of_lt_of_le hlt hlen)
            have hidx := (h.getElem?_idxs it.front).trans hget
            simp only [call, next, if_neg hne, hblock, hget]
            rw [List.take_add_one, hidx, List.append_assoc]
            refine (ih.append_right _).trans ?_
            rw [List.append_assoc]
            exact List.perm_append_comm.append_left _
        | back =>
            have hlt' : it.back - 1 < b.len := by omega
            obtain ⟨s, -, hget⟩ := h.get_eq hlt'
            have hidx := (h.getElem?_idxs (it.back - 1)).trans hget
            have hdrop : (b.idxs tgt).drop (it.back - 1)
                = [⟨s, b.start + (it.back - 1)⟩] ++ (b.idxs tgt).drop it.back := by
              rw [List.drop_eq_getElem?_toList_append, hidx, Nat.sub_add_cancel (by omega)]
              rfl
            simp only [call, nextBack, if_neg hne, hblock, hget]
            rw [hdrop, ← List.append_assoc]
            refine (ih.append_right _).trans ?_
            rw [List.append_assoc, List.append_assoc]
            exact List.perm_append_comm.append_left _

/-- No index is returned twice. -/
theorem nodup_calls (h : b.Fits tgt) (es : List End) :
    (b.indices.calls tgt es).reduceOption.Nodup := by
  refine (perm_calls h es).nodup_iff.mpr ?_
  obtain ⟨hle, -⟩ := after_bounds tgt b es
  have hsub := (List.drop_sublist_drop_left (b.idxs tgt) hle).append_left
    ((b.idxs tgt).take (b.indices.after tgt es).front)
  rw [List.take_append_drop] at hsub
  exact h.nodup_idxs.sublist hsub

/-- As many calls as there are indices return them all. -/
theorem perm_idxs_of_length_le (h : b.Fits tgt) {es : List End} (hle : b.len ≤ es.length) :
    (b.indices.calls tgt es).reduceOption.Perm (b.idxs tgt) := by
  have hcount := count_add_count (es.take b.len)
  rw [List.length_take, Nat.min_eq_left hle] at hcount
  have heq : (b.indices.after tgt es).front = (b.indices.after tgt es).back := by
    rw [after_indices]
    show (es.take b.len).count .front = b.len - (es.take b.len).count .back
    omega
  have hperm := perm_calls h es
  rwa [heq, List.take_append_drop] at hperm

/-- The indices returned and those left are all there are. -/
theorem sizeHint_add_length (h : b.Fits tgt) (es : List End) :
    (b.indices.after tgt es).sizeHint + (b.indices.calls tgt es).reduceOption.length = b.len := by
  obtain ⟨hle, hlen⟩ := after_bounds tgt b es
  rw [(perm_calls h es).length_eq, List.length_append, List.length_take, List.length_drop,
    h.length_idxs, sizeHint]
  omega

/-- An end returns `None` only after that. -/
theorem length_le_of_none_mem (h : b.Fits tgt) {es : List End}
    (hnone : none ∈ b.indices.calls tgt es) : b.len ≤ es.length := by
  induction es using List.reverseRecOn with
  | nil => cases hnone
  | append_singleton es e ih =>
      rw [calls_concat] at hnone
      rw [List.length_append]
      rcases List.mem_append.mp hnone with hnone | hnone
      · exact Nat.le_add_right_of_le (ih hnone)
      · refine Nat.le_of_not_lt fun hlt => ?_
        have hlt : es.length < b.len := by
          rw [List.length_singleton] at hlt
          omega
        have hcount := count_add_count es
        have hcall := (List.mem_singleton.mp hnone).trans (call_after tgt b es e)
        rw [if_pos hlt] at hcall
        have hsome : ∀ offset, offset < b.len → b.get tgt offset ≠ none := fun offset ho =>
          Option.isSome_iff_ne_none.mp ((h.isSome_get offset).mpr ho)
        cases e with
        | front => exact hsome _ (by omega) hcall.symm
        | back => exact hsome _ (by omega) hcall.symm

/-- So by then every index was returned. -/
theorem get_mem_calls (h : b.Fits tgt) {es : List End} (hnone : none ∈ b.indices.calls tgt es)
    {offset : Nat} (hlt : offset < b.len) : b.get tgt offset ∈ b.indices.calls tgt es := by
  obtain ⟨stamp, -, hget⟩ := h.get_eq hlt
  have hperm := perm_idxs_of_length_le h (length_le_of_none_mem h hnone)
  rw [hget, ← List.reduceOption_mem_iff]
  exact hperm.mem_iff.mpr (Block.mem_idxs_iff_get.mpr ⟨offset, hget⟩)

end Calls

end BlockIndices

end SafeBump
