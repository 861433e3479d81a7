import Mathlib

/-!
# Iterators over what changes

An iterator that borrows a collection may be asked for its next element in any state the
collection gets into meanwhile.  `calls` asks it a number of times, each time in another
state.  If in all of them it finds what a list has at its position (`Finds`), it yields that
list and then nothing (`calls_of_finds`).
-/

namespace Library

variable {ω ι α ε : Type} (next : ω → ι → Except ε (Option (α × ι)))

/-- Ask for the next element once in each of the states.  The result is what was answered and
the iterator as it is then.  A call that fails leaves it as it was. -/
def calls : ι → List ω → List (Except ε (Option α)) × ι
  | it, [] => ([], it)
  | it, w :: ws =>
      match next w it with
      | .error p => ((.error p :: (calls it ws).1), (calls it ws).2)
      | .ok none => ((.ok none :: (calls it ws).1), (calls it ws).2)
      | .ok (some (a, it)) => ((.ok (some a) :: (calls it ws).1), (calls it ws).2)

/-- In the state `w` an iterator that stands `at` a position of `l` finds what is there. -/
def Finds (l : List α) (At : ι → Nat → Prop) (w : ω) : Prop :=
  ∀ it pos, At it pos →
    (∀ a, l[pos]? = some a → ∃ it', next w it = .ok (some (a, it')) ∧ At it' (pos + 1)) ∧
      (pos = l.length → next w it = .ok none)

variable {next} {l : List α} {At : ι → Nat → Prop}

/-- An iterator at the end stays there. -/
theorem calls_of_end {it : ι} {ws : List ω} (h : ∀ w ∈ ws, Finds next l At w)
    (hat : At it l.length) :
    calls next it ws = (List.replicate ws.length (.ok none), it) := by
  induction ws with
  | nil => rfl
  | cons w ws ih =>
      have hend := (h w (List.mem_cons_self ..) it _ hat).2 rfl
      rw [calls, hend, ih fun w hw => h w (List.mem_cons_of_mem _ hw)]
      rfl

theorem calls_of_finds {it : ι} {pos : Nat} {ws : List ω} (h : ∀ w ∈ ws, Finds next l At w)
    (hat : At it pos) (hle : pos ≤ l.length) :
    (calls next it ws).1 = (List.range' pos ws.length).map (fun k => .ok l[k]?) ∧
      At (calls next it ws).2 (min (pos + ws.length) l.length) := by
  induction ws generalizing it pos with
  | nil =>
      rw [List.length_nil, Nat.add_zero, Nat.min_eq_left hle]
      exact ⟨rfl, hat⟩
  | cons w ws ih =>
      rcases Nat.lt_or_eq_of_le hle with hlt | rfl
      · have hget := List.getElem?_eq_getElem hlt
        obtain ⟨it', hrun, hat'⟩ := (h w (List.mem_cons_self ..) it pos hat).1 _ hget
        obtain ⟨hvalues, hpos⟩ := ih (fun w hw => h w (List.mem_cons_of_mem _ hw)) hat' hlt
        rw [List.length_cons, List.range'_succ, List.map_cons, calls, hrun, hget]
        refine ⟨congrArg (.ok (some l[pos]) :: ·) hvalues, ?_⟩
        rwa [Nat.add_right_comm pos 1, Nat.add_assoc] at hpos
      · rw [calls_of_end h hat, Nat.min_eq_right (Nat.le_add_right _ _)]
        refine ⟨(List.eq_replicate_iff.mpr ⟨by simp, fun b hb => ?_⟩).symm, hat⟩
        obtain ⟨k, hk, rfl⟩ := List.mem_map.mp hb
        rw [List.getElem?_eq_none (List.mem_range'_1.mp hk).1]

end Library
