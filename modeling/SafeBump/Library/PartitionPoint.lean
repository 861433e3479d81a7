import Mathlib

/-!
# Partition points and floor lookups

`partitionPoint p xs` is the binary search of a slice for the first element
that fails `p`.  It halves a window `[base, base + size)` and never looks at
an element twice, so on a slice that is not partitioned by `p` its answer
means nothing.  On a partitioned slice it is the length of the prefix that
satisfies `p` (`partitionPoint_eq`).

A *floor table* is a list of entries with strictly ascending keys.  The entry
that covers a key `i` is the last one whose key is at most `i`.  `Table.floor?`
says so without a search; `Table.get?_partitionPoint` says that the search
finds it.  The two operations a table undergoes are cutting off every entry
from some key on (`Table.take_partitionPoint`) and appending an entry past the
last one (`Table.floor?_concat`).
-/

namespace Library

/-! ## The search -/

section PartitionPoint

variable {α : Type}

/-- The halving loop.  `fuel` bounds the iterations; `size` always suffices. -/
def partitionPoint.narrow (p : α → Bool) (xs : List α) : (fuel base size : Nat) → Nat
  | 0, base, _ => base
  | fuel + 1, base, size =>
      if 1 < size then
        let half := size / 2
        let mid := base + half
        if xs[mid]?.any p then partitionPoint.narrow p xs fuel mid (size - half)
        else partitionPoint.narrow p xs fuel base (size - half)
      else base

/-- The index of the first element of the part that fails `p`. -/
def partitionPoint (p : α → Bool) (xs : List α) : Nat :=
  if xs.isEmpty then 0
  else
    let base := partitionPoint.narrow p xs xs.length 0 xs.length
    if xs[base]?.any p then base + 1 else base

/-- `p` holds on the first `k` elements of `xs` and fails on the others. -/
structure PartitionedAt (p : α → Bool) (xs : List α) (k : Nat) : Prop where
  /-- The point lies in the slice or at its end. -/
  le_length : k ≤ xs.length
  /-- An element satisfies `p` exactly when it stands before the point. -/
  holds_iff : ∀ i x, xs[i]? = some x → (p x = true ↔ i < k)

theorem PartitionedAt.any_iff {p : α → Bool} {xs : List α} {k : Nat} (h : PartitionedAt p xs k)
    {i : Nat} (hi : i < xs.length) : xs[i]?.any p = true ↔ i < k := by
  have hx : xs[i]? = some xs[i] := List.getElem?_eq_getElem hi
  rw [hx, Option.any_some, h.holds_iff i _ hx]

/-- The loop keeps the point inside its window and ends at a window of one. -/
theorem partitionPoint.narrow_bounds {p : α → Bool} {xs : List α} {k : Nat}
    (h : PartitionedAt p xs k) :
    ∀ (fuel base size : Nat), size ≤ fuel → 1 ≤ size → base + size ≤ xs.length →
      base ≤ k → k ≤ base + size →
      partitionPoint.narrow p xs fuel base size < xs.length ∧
        partitionPoint.narrow p xs fuel base size ≤ k ∧
        k ≤ partitionPoint.narrow p xs fuel base size + 1
  | 0, base, size, hf, hs, _, _, _ => by omega
  | fuel + 1, base, size, hf, hs, hb, hl, hu => by
      rw [partitionPoint.narrow]
      by_cases h1 : 1 < size
      · rw [if_pos h1]
        have hmid : base + size / 2 < xs.length := by omega
        have hany := h.any_iff hmid
        by_cases hp : xs[base + size / 2]?.any p = true
        · simp only [hp, if_true]
          have hk := hany.mp hp
          exact narrow_bounds h fuel _ _ (by omega) (by omega) (by omega) (by omega) (by omega)
        · simp only [hp, if_false, Bool.false_eq_true]
          have hk : ¬ base + size / 2 < k := fun hc => hp (hany.mpr hc)
          exact narrow_bounds h fuel _ _ (by omega) (by omega) (by omega) (by omega) (by omega)
      · rw [if_neg h1]
        omega

/-- On a partitioned slice the search finds the partition point. -/
theorem partitionPoint_eq {p : α → Bool} {xs : List α} {k : Nat} (h : PartitionedAt p xs k) :
    partitionPoint p xs = k := by
  cases xs with
  | nil =>
      have := h.le_length
      simp only [List.length_nil] at this
      simp [partitionPoint]
      omega
  | cons x xs =>
      have hl := h.le_length
      obtain ⟨hlt, hle, hge⟩ := partitionPoint.narrow_bounds h (x :: xs).length 0 (x :: xs).length
        (Nat.le_refl _) (by simp) (by omega) (by omega) (by omega)
      have hany := h.any_iff hlt
      unfold partitionPoint
      simp only [List.isEmpty_cons, Bool.false_eq_true, if_false]
      by_cases hp : (x :: xs)[partitionPoint.narrow p (x :: xs) (x :: xs).length 0
          (x :: xs).length]?.any p = true
      · rw [if_pos hp]
        have := hany.mp hp
        omega
      · rw [if_neg hp]
        have : ¬ _ < k := fun hc => hp (hany.mpr hc)
        omega

example : partitionPoint (· < 5) [1, 2, 4, 7, 9] = 3 := by decide

end PartitionPoint

/-! ## Floor tables -/

section Table

variable {K V : Type} [LinearOrder K]

/-- The keys of a floor table ascend strictly. -/
def Table.Sorted (t : List (K × V)) : Prop := t.Pairwise (fun a b => a.1 < b.1)

/-- The value of the last entry whose key is at most `i`. -/
def Table.floor? (t : List (K × V)) (i : K) : Option V :=
  (t.filter (fun e => e.1 ≤ i)).getLast?.map Prod.snd

@[simp] theorem Table.floor?_nil (i : K) : Table.floor? ([] : List (K × V)) i = none := rfl

/-- A test that a smaller key passes whenever a larger one does. -/
def Table.DownTest (p : K × V → Bool) : Prop :=
  ∀ a b : K × V, a.1 < b.1 → p b = true → p a = true

theorem Table.downTest_le (i : K) : Table.DownTest (V := V) (fun e => decide (e.1 ≤ i)) := by
  intro a b hab hb
  exact decide_eq_true (hab.le.trans (of_decide_eq_true hb))

theorem Table.downTest_lt (i : K) : Table.DownTest (V := V) (fun e => decide (e.1 < i)) := by
  intro a b hab hb
  exact decide_eq_true (hab.trans (of_decide_eq_true hb))

/-- Sorted keys make every downward test a partition, and the part that passes
is the filtered table. -/
theorem Table.Sorted.partitioned {p : K × V → Bool} (hp : Table.DownTest p) :
    ∀ {t : List (K × V)}, Table.Sorted t →
      PartitionedAt p t (t.filter p).length ∧ t.take (t.filter p).length = t.filter p
  | [], _ => ⟨⟨by simp, by simp⟩, by simp⟩
  | e :: t, h => by
      rw [Table.Sorted, List.pairwise_cons] at h
      obtain ⟨he, ht⟩ := h
      by_cases hpe : p e = true
      · obtain ⟨hpart, htake⟩ := Table.Sorted.partitioned hp ht
        rw [List.filter_cons_of_pos hpe]
        refine ⟨⟨?_, ?_⟩, ?_⟩
        · simpa using hpart.le_length
        · intro i x hx
          cases i with
          | zero =>
              simp only [List.getElem?_cons_zero, Option.some.injEq] at hx
              subst hx
              simp [hpe]
          | succ i =>
              rw [List.getElem?_cons_succ] at hx
              rw [hpart.holds_iff i x hx]
              simp
        · rw [List.length_cons, List.take_succ_cons, htake]
      · -- nothing after a failing entry can pass
        have hnone : t.filter p = [] := by
          rw [List.filter_eq_nil_iff]
          intro a ha hpa
          exact hpe (hp e a (he a ha) hpa)
        rw [List.filter_cons_of_neg hpe, hnone]
        refine ⟨⟨by simp, ?_⟩, by simp⟩
        intro i x hx
        simp only [List.length_nil, Nat.not_lt_zero, iff_false]
        cases i with
        | zero =>
            simp only [List.getElem?_cons_zero, Option.some.injEq] at hx
            exact hx ▸ hpe
        | succ i =>
            rw [List.getElem?_cons_succ] at hx
            exact fun hpx => hpe (hp e x (he x (List.mem_of_getElem? hx)) hpx)

/-- Truncating a table at the point of a downward test keeps what passes it. -/
theorem Table.take_partitionPoint {t : List (K × V)} (h : Table.Sorted t) {p : K × V → Bool}
    (hp : Table.DownTest p) : t.take (partitionPoint p t) = t.filter p := by
  obtain ⟨hpart, htake⟩ := h.partitioned hp
  rw [partitionPoint_eq hpart, htake]

/-- The entry before the point of `· ≤ i` is the floor of `i`. -/
theorem Table.get?_partitionPoint {t : List (K × V)} (h : Table.Sorted t) (i : K) :
    (match partitionPoint (fun e => decide (e.1 ≤ i)) t with
      | 0 => none
      | n + 1 => t[n]?.map Prod.snd) = Table.floor? t i := by
  obtain ⟨hpart, htake⟩ := h.partitioned (Table.downTest_le i)
  rw [partitionPoint_eq hpart, Table.floor?]
  cases hn : (t.filter fun e => decide (e.1 ≤ i)).length with
  | zero => simp [List.length_eq_zero_iff.mp hn]
  | succ n =>
      have hle := hpart.le_length
      rw [hn] at hle htake
      have hget : t[n]? = some t[n] := List.getElem?_eq_getElem (by omega)
      rw [← htake, List.getLast?_take]
      simp [hget]

/-- Appending an entry changes the floor exactly from its key on. -/
theorem Table.floor?_concat (t : List (K × V)) (k : K) (v : V) (i : K) :
    Table.floor? (t ++ [(k, v)]) i = if k ≤ i then some v else Table.floor? t i := by
  by_cases h : k ≤ i
  · simp [Table.floor?, h]
  · simp [Table.floor?, h]

/-- Entries from `k` on cannot be the floor of a key below `k`. -/
theorem Table.floor?_filter_lt (t : List (K × V)) {k i : K} (h : i < k) :
    Table.floor? (t.filter fun e => decide (e.1 < k)) i = Table.floor? t i := by
  rw [Table.floor?, Table.floor?, List.filter_filter]
  congr 2
  refine List.filter_congr fun e _ => ?_
  by_cases he : e.1 ≤ i
  · simp [he, he.trans_lt h]
  · simp [he]

/-- Cutting a sorted table below `k` and appending an entry at `k` keeps it sorted. -/
theorem Table.Sorted.filter_concat {t : List (K × V)} (h : Table.Sorted t) (k : K) (v : V) :
    Table.Sorted (t.filter (fun e => decide (e.1 < k)) ++ [(k, v)]) := by
  rw [Table.Sorted, List.pairwise_append]
  refine ⟨List.Pairwise.filter _ h, List.pairwise_singleton _ _, ?_⟩
  intro a ha b hb
  rw [List.mem_filter] at ha
  rw [List.mem_singleton] at hb
  subst hb
  simpa using ha.2

end Table

end Library
