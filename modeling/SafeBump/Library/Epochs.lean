import Mathlib

/-!
# Epochs over a line of slots

A *slot map* gives every slot of a line a mark.  Committing a boundary `n`
with a mark `s` starts a new epoch: every slot from `n` on carries `s`, the
slots below keep theirs.  A *history* is the list of all commits, newest
first, over the mark a line is born with.  It is the whole past, so facts that
compare two moments of one line are facts about two histories, one of which
extends the other.

Where no mark is drawn twice a mark says more than which epoch it is.  A slot
carries the same mark at two moments exactly when no commit in between reached
it (`History.markAt_extend_eq_iff`), and only slots of the current epoch carry
the current mark (`History.markAt_eq_current_iff`).
-/

namespace Library

/-! ## Slot maps -/

section SlotMap

variable {K S : Type} [LinearOrder K]

/-- A mark for every slot. -/
abbrev SlotMap (K S : Type) := K → S

/-- A new epoch from `n` on. -/
def SlotMap.commit (m : SlotMap K S) (n : K) (s : S) : SlotMap K S :=
  fun i => if n ≤ i then s else m i

/-- Commits in the order they are made. -/
def SlotMap.commitAll (m : SlotMap K S) (cs : List (K × S)) : SlotMap K S :=
  cs.foldl (fun m c => m.commit c.1 c.2) m

end SlotMap

/-! ## Histories -/

/-- The commits a line has seen. -/
structure History (K S : Type) where
  /-- The mark of every slot before the first commit. -/
  birth : S
  /-- The commits, newest first. -/
  commits : List (K × S)

namespace History

section Marks

variable {K S : Type}

/-- The history of a line no boundary was committed on. -/
def new (s : S) : History K S := ⟨s, []⟩

/-- A commit becomes the newest one. -/
def commit (h : History K S) (n : K) (s : S) : History K S := ⟨h.birth, (n, s) :: h.commits⟩

/-- Several commits, newest first, on top of the present ones. -/
def extend (h : History K S) (cs : List (K × S)) : History K S := ⟨h.birth, cs ++ h.commits⟩

@[simp] theorem birth_commit (h : History K S) (n : K) (s : S) :
    (h.commit n s).birth = h.birth := rfl

@[simp] theorem birth_extend (h : History K S) (cs : List (K × S)) :
    (h.extend cs).birth = h.birth := rfl

@[simp] theorem extend_nil (h : History K S) : h.extend [] = h := rfl

theorem extend_extend (h : History K S) (cs ds : List (K × S)) :
    (h.extend cs).extend ds = h.extend (ds ++ cs) := by
  simp [extend]

/-- Every mark the line was ever given. -/
def marks (h : History K S) : List S := h.commits.map Prod.snd ++ [h.birth]

@[simp] theorem marks_new (s : S) : (new s : History K S).marks = [s] := rfl

@[simp] theorem marks_commit (h : History K S) (n : K) (s : S) :
    (h.commit n s).marks = s :: h.marks := rfl

theorem marks_extend (h : History K S) (cs : List (K × S)) :
    (h.extend cs).marks = cs.map Prod.snd ++ h.marks := by
  simp [extend, marks]

theorem birth_mem (h : History K S) : h.birth ∈ h.marks := by simp [marks]

/-- No mark was drawn twice. -/
def Distinct (h : History K S) : Prop := h.marks.Nodup

theorem Distinct.new (s : S) : (History.new s : History K S).Distinct := List.nodup_singleton s

theorem distinct_commit {h : History K S} {n : K} {s : S} :
    (h.commit n s).Distinct ↔ s ∉ h.marks ∧ h.Distinct :=
  List.nodup_cons

/-- The mark a new slot receives. -/
def current (h : History K S) : S :=
  match h.commits with
  | [] => h.birth
  | c :: _ => c.2

@[simp] theorem current_new (s : S) : (new s : History K S).current = s := rfl

@[simp] theorem current_commit (h : History K S) (n : K) (s : S) :
    (h.commit n s).current = s := rfl

theorem current_mem (h : History K S) : h.current ∈ h.marks := by
  obtain ⟨b, cs⟩ := h
  cases cs with
  | nil => simp [current, marks]
  | cons c cs => simp [current, marks]

/-- The current mark is the birth mark only before the first commit. -/
theorem current_eq_birth_iff {h : History K S} (hd : h.Distinct) :
    h.current = h.birth ↔ h.commits = [] := by
  obtain ⟨b, cs⟩ := h
  cases cs with
  | nil => simp [current]
  | cons c cs =>
      refine ⟨fun heq => ?_, fun h => by cases h⟩
      refine absurd ?_ (distinct_commit (h := ⟨b, cs⟩).mp hd).1
      exact (show c.2 = b from heq) ▸ birth_mem ⟨b, cs⟩

end Marks

variable {K S : Type} [LinearOrder K]

/-- The mark of the newest commit of a list that reached a slot. -/
def coverOf (birth : S) (i : K) : List (K × S) → S
  | [] => birth
  | c :: cs => if c.1 ≤ i then c.2 else coverOf birth i cs

/-- The mark of the newest commit that reached a slot. -/
def markAt (h : History K S) (i : K) : S := coverOf h.birth i h.commits

@[simp] theorem markAt_new (s : S) (i : K) : (new s : History K S).markAt i = s := rfl

theorem markAt_commit (h : History K S) (n : K) (s : S) (i : K) :
    (h.commit n s).markAt i = if n ≤ i then s else h.markAt i := rfl

theorem markAt_mem (h : History K S) (i : K) : h.markAt i ∈ h.marks := by
  obtain ⟨b, cs⟩ := h
  induction cs with
  | nil => simp [markAt, coverOf, marks]
  | cons c cs ih =>
      rw [show (⟨b, c :: cs⟩ : History K S) = commit ⟨b, cs⟩ c.1 c.2 from rfl, markAt_commit,
        marks_commit]
      by_cases hc : c.1 ≤ i
      · rw [if_pos hc]
        exact List.mem_cons_self ..
      · rw [if_neg hc]
        exact List.mem_cons_of_mem _ ih

/-- The marks of a history are the slot map its commits build. -/
theorem markAt_eq_commitAll (b : S) (cs : List (K × S)) :
    (⟨b, cs.reverse⟩ : History K S).markAt = SlotMap.commitAll (fun _ => b) cs := by
  induction cs using List.reverseRecOn with
  | nil => funext i; exact markAt_new b i
  | append_singleton cs c ih =>
      funext i
      rw [List.reverse_append, SlotMap.commitAll, List.foldl_append]
      change (commit ⟨b, cs.reverse⟩ c.1 c.2).markAt i = _
      rw [markAt_commit, ih]
      rfl

/-! ## Two moments of one line -/

/-- A slot keeps its mark exactly while no commit reaches it. -/
theorem markAt_extend_eq_iff {h : History K S} {cs : List (K × S)} (hd : (h.extend cs).Distinct)
    (i : K) : (h.extend cs).markAt i = h.markAt i ↔ ∀ c ∈ cs, i < c.1 := by
  induction cs with
  | nil => simp
  | cons c cs ih =>
      have hcons : h.extend (c :: cs) = (h.extend cs).commit c.1 c.2 := rfl
      rw [hcons] at hd ⊢
      obtain ⟨hnew, hold⟩ := distinct_commit.mp hd
      rw [markAt_commit]
      by_cases hc : c.1 ≤ i
      · rw [if_pos hc]
        constructor
        · intro heq
          -- the mark of `c` was never given to the line before
          refine absurd ?_ hnew
          rw [heq, marks_extend]
          exact List.mem_append_right _ (h.markAt_mem i)
        · intro hall
          exact absurd hc (not_le.mpr (hall c (List.mem_cons_self ..)))
      · rw [if_neg hc, ih hold]
        constructor
        · intro hall e he
          cases List.mem_cons.mp he with
          | inl h' => exact h' ▸ not_le.mp hc
          | inr h' => exact hall e h'
        · exact fun hall e he => hall e (List.mem_cons_of_mem _ he)

section Start

variable [OrderBot K]

/-- The first slot of the current epoch. -/
def start (h : History K S) : K :=
  match h.commits with
  | [] => ⊥
  | c :: _ => c.1

@[simp] theorem start_new (s : S) : (new s : History K S).start = ⊥ := rfl

@[simp] theorem start_commit (h : History K S) (n : K) (s : S) : (h.commit n s).start = n := rfl

theorem markAt_of_start_le {h : History K S} {i : K} (hi : h.start ≤ i) :
    h.markAt i = h.current := by
  obtain ⟨b, cs⟩ := h
  cases cs with
  | nil => exact markAt_new b i
  | cons c cs => exact (markAt_commit ⟨b, cs⟩ c.1 c.2 i).trans (if_pos hi)

/-- The current mark is the mark of the current epoch and of no slot below it. -/
theorem markAt_eq_current_iff {h : History K S} (hd : h.Distinct) {i : K} :
    h.markAt i = h.current ↔ h.start ≤ i := by
  refine ⟨fun heq => ?_, markAt_of_start_le⟩
  obtain ⟨b, cs⟩ := h
  cases cs with
  | nil => exact bot_le
  | cons c cs =>
      by_contra hlt
      have hold : (commit ⟨b, cs⟩ c.1 c.2).markAt i = markAt ⟨b, cs⟩ i := if_neg hlt
      have hmem : c.2 ∈ marks ⟨b, cs⟩ :=
        (show _ = c.2 from hold.symm.trans heq) ▸ markAt_mem ⟨b, cs⟩ i
      exact (distinct_commit.mp hd).1 hmem

end Start

end History

end Library
