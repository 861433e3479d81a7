import Mathlib

/-!
# Reading a line off

A partial function on the numbers, read off from 0 on: `(List.range n).filterMap f`.
Where it is defined up to `n` the list is the function (`filterMap_range`), and giving
it a value at one more number adds one element (`perm_filterMap_range`).  How far along
the numbers a predicate goes on holding is its `stretch`.
-/

namespace Library

variable {α : Type}

theorem getElem?_concat (xs : List α) (x : α) (i : Nat) :
    (xs ++ [x])[i]? = if i = xs.length then some x else xs[i]? := by
  rcases Nat.lt_trichotomy i xs.length with hlt | rfl | hgt
  · rw [List.getElem?_append_left hlt, if_neg (Nat.ne_of_lt hlt)]
  · rw [if_pos rfl, List.getElem?_concat_length]
  · rw [if_neg (Nat.ne_of_gt hgt), List.getElem?_eq_none (Nat.le_of_lt hgt),
      List.getElem?_eq_none (by rw [List.length_append]; exact hgt)]

theorem length_filterMap_range {f : Nat → Option α} {n : Nat} (h : ∀ i < n, f i ≠ none) :
    ((List.range n).filterMap f).length = n := by
  induction n with
  | zero => rfl
  | succ n ih =>
      obtain ⟨x, hx⟩ := Option.ne_none_iff_exists'.mp (h n (Nat.lt_succ_self n))
      simp [List.range_succ, hx, ih fun i hi => h i (Nat.lt_succ_of_lt hi)]

theorem filterMap_range {f : Nat → Option α} {n : Nat} (h : ∀ i < n, f i ≠ none) (i : Nat) :
    ((List.range n).filterMap f)[i]? = if i < n then f i else none := by
  induction n with
  | zero => simp
  | succ n ih =>
      obtain ⟨x, hx⟩ := Option.ne_none_iff_exists'.mp (h n (Nat.lt_succ_self n))
      have hn : ∀ i < n, f i ≠ none := fun i hi => h i (Nat.lt_succ_of_lt hi)
      have hsucc : (List.range (n + 1)).filterMap f = (List.range n).filterMap f ++ [x] := by
        simp [List.range_succ, hx]
      rw [hsucc, getElem?_concat, length_filterMap_range hn, ih hn]
      rcases Nat.lt_trichotomy i n with hlt | rfl | hgt
      · rw [if_neg (Nat.ne_of_lt hlt), if_pos hlt, if_pos (Nat.lt_succ_of_lt hlt)]
      · rw [if_pos rfl, if_pos (Nat.lt_succ_self i), hx]
      · rw [if_neg (Nat.ne_of_gt hgt), if_neg (Nat.lt_asymm hgt),
          if_neg (Nat.not_lt.mpr hgt)]

/-- Giving the function a value at one more number. -/
theorem perm_filterMap_range {f g : Nat → Option α} {n k : Nat} {x : α} (hk : k < n)
    (hempty : f k = none) (hfull : g k = some x) (hsame : ∀ i, i ≠ k → g i = f i) :
    ((List.range n).filterMap g).Perm (x :: (List.range n).filterMap f) := by
  have hperm := List.perm_cons_erase (List.mem_range.mpr hk)
  have hrest : ((List.range n).erase k).filterMap g = ((List.range n).erase k).filterMap f :=
    List.filterMap_congr fun i hi =>
      hsame i fun he => List.nodup_range.not_mem_erase (he ▸ hi)
  have hg := hperm.filterMap g
  have hf := hperm.filterMap f
  rw [List.filterMap_cons_some hfull, hrest] at hg
  rw [List.filterMap_cons_none hempty] at hf
  exact hg.trans (hf.symm.cons x)

/-! ## How far a predicate holds -/

/-- How many numbers from `start` on satisfy `p` one after the other, `n` at most. -/
def stretch (p : Nat → Bool) (start : Nat) : Nat → Nat
  | 0 => 0
  | n + 1 => if p start then stretch p (start + 1) n + 1 else 0

section Stretch

variable {p q : Nat → Bool}

theorem stretch_le (p : Nat → Bool) (start n : Nat) : stretch p start n ≤ n := by
  induction n generalizing start with
  | zero => exact Nat.le_refl 0
  | succ n ih =>
      rw [stretch]
      split
      · exact Nat.succ_le_succ (ih _)
      · exact Nat.zero_le _

theorem stretch_holds {start n i : Nat} (h : i < stretch p start n) : p (start + i) = true := by
  induction n generalizing start i with
  | zero => cases h
  | succ n ih =>
      rw [stretch] at h
      split at h
      · cases i with
        | zero => assumption
        | succ i =>
            have hi := ih (Nat.lt_of_succ_lt_succ h)
            rwa [Nat.add_right_comm] at hi
      · cases h

/-- Where the stretch ends early the predicate fails. -/
theorem stretch_fails {start n : Nat} (h : stretch p start n < n) :
    p (start + stretch p start n) = false := by
  induction n generalizing start with
  | zero => cases h
  | succ n ih =>
      rw [stretch] at h ⊢
      split at h
      · rename_i hp
        rw [if_pos hp]
        have hn := ih (Nat.lt_of_succ_lt_succ h)
        rwa [Nat.add_right_comm] at hn
      · rename_i hp
        rwa [if_neg hp, Nat.add_zero, ← Bool.not_eq_true]

theorem stretch_eq_iff {start n : Nat} :
    stretch p start n = n ↔ ∀ i < n, p (start + i) = true := by
  constructor
  · intro h i hi
    exact stretch_holds (h ▸ hi)
  · intro h
    refine Nat.le_antisymm (stretch_le p start n) (Nat.le_of_not_lt fun hlt => ?_)
    cases (stretch_fails hlt).symm.trans (h _ hlt)

theorem stretch_congr {start n : Nat} (h : ∀ i < n, p (start + i) = q (start + i)) :
    stretch p start n = stretch q start n := by
  induction n generalizing start with
  | zero => rfl
  | succ n ih =>
      have hrest : stretch p (start + 1) n = stretch q (start + 1) n :=
        ih fun i hi => by
          rw [Nat.add_assoc, Nat.add_comm 1]
          exact h (i + 1) (Nat.succ_lt_succ hi)
      have hstart : p start = q start := h 0 (Nat.succ_pos n)
      rw [stretch, stretch, hrest, hstart]

end Stretch

end Library
