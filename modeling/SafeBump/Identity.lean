import SafeBump.Library.Epochs
import SafeBump.Library.PartitionPoint
import SafeBump.Context

/-!
# The segment table

`Identity` of `segments.rs`.  An identity stores a history of commits in
compressed form: the current segment inline, one cached stamp for the slot
below it, and a table of archived segments.  The table is compacted lazily: a
commit drops the entries the segment it archives makes dead, and leaves entries
at or above the new boundary in place until the next commit.

`Identity.Models id h` says that `id` stores the history `h`.  It asks nothing
of the table from `current_start` on, which is where stale entries linger.  The
archiving half of a commit keeps it, with the history unchanged
(`Identity.Models.archive`): a commit that fails to draw its stamp leaves an
identity that stores what it stored.  The whole commit extends the history by
one (`Identity.Models.commit`).  Every lookup of a stored history agrees with
it (`Identity.Models.stampOf_eq`, `matchesArchived_iff`).
-/

namespace SafeBump

open Library (History)

/-- The commits of one arena. -/
abbrev Epochs := History Nat Stamp

/-- Single-thread per-arena identity. -/
structure Identity where
  birth : Stamp
  current : Stamp
  currentStart : Nat
  /-- The stamp covering slot `current_start - 1`, when there is one. -/
  prefixTail : Stamp
  table : List (Nat × Stamp)
deriving DecidableEq, Repr

namespace Identity

/-- `Identity::new`. -/
def new (stamp : Stamp) : Identity := ⟨stamp, stamp, 0, stamp, []⟩

/-- The archived segment covering `slot`: `covering.checked_sub(1)` and the
stamp of that entry, which exists whenever the point is not zero. -/
def coveringStamp (table : List (Nat × Stamp)) (slot : Nat) : Option Stamp :=
  match Library.partitionPoint (fun e : Nat × Stamp => decide (e.1 ≤ slot)) table with
  | 0 => none
  | index + 1 => table[index]?.map Prod.snd

/-- `Identity::stamp_of_cold`. -/
def stampOfCold (id : Identity) (slot : Nat) : Stamp :=
  (coveringStamp id.table slot).getD id.birth

/-- `Identity::stamp_of`. -/
def stampOf (id : Identity) (slot : Nat) : Stamp :=
  if id.currentStart ≤ slot then id.current
  else if slot + 1 = id.currentStart then id.prefixTail
  else id.stampOfCold slot

/-- `Identity::matches_archived`. -/
def matchesArchived (id : Identity) (slot : Nat) (stamp : Stamp) : Bool :=
  decide (slot < id.currentStart) && decide (id.stampOfCold slot = stamp)

/-- The segment a commit archives: the current one unless it is the birth segment. -/
def oldCurrent (id : Identity) : Option Stamp :=
  if id.current ≠ id.birth then some id.current else none

/-- The first half of `Identity::commit`: compact the table and archive the
segment that was current. -/
def archive (id : Identity) : Identity :=
  match id.oldCurrent with
  | none => id
  | some old =>
      let deadFrom :=
        Library.partitionPoint (fun e : Nat × Stamp => decide (e.1 < id.currentStart)) id.table
      { id with table := id.table.take deadFrom ++ [(id.currentStart, old)] }

/-- The stamp a commit at `newLen` caches for the slot below the boundary. -/
def prefixTailAt (id : Identity) (newLen : Nat) : Stamp :=
  if newLen = 0 then id.prefixTail
  else
    match id.oldCurrent with
    | some old => if id.currentStart < newLen then old else id.stampOfCold (newLen - 1)
    | none => id.birth

/-- The second half of `Identity::commit`: start the segment of `stamp` at
`newLen` and cache the stamp below it. -/
def install (id : Identity) (newLen : Nat) (stamp : Stamp) : Identity :=
  { id with
    current := stamp
    currentStart := newLen
    prefixTail := id.prefixTailAt newLen }

variable {σ : Type}

/-- `Identity::commit`. -/
def commit (fresh : Source σ) (newLen : Nat) : EStateM Exit (Identity × σ) Unit := do
  modify fun (id, src) => (id.archive, src)
  let stamp ← drawBeside fresh
  modify fun (id, src) => (id.install newLen stamp, src)

/-- Commits at the boundaries `ns` in turn, with the stamps they drew. -/
def commitAll (fresh : Source σ) : List Nat → EStateM Exit (Identity × σ) (List Stamp)
  | [] => pure []
  | n :: ns => do
      commit fresh n
      let (id, _) ← get
      let stamps ← commitAll fresh ns
      return id.current :: stamps

/-! ## Commits by cases of the draw -/

/-- A commit that draws `stamp`. -/
def commitWith (id : Identity) (newLen : Nat) (stamp : Stamp) : Identity :=
  id.archive.install newLen stamp

@[simp] theorem current_commitWith (id : Identity) (newLen : Nat) (stamp : Stamp) :
    (id.commitWith newLen stamp).current = stamp := rfl

theorem run_commit_ok {fresh : Source σ} {id : Identity} {src src' : σ} {stamp : Stamp}
    (h : fresh src = (.ok stamp, src')) (newLen : Nat) :
    (commit fresh newLen).run (id, src) = .ok () (id.commitWith newLen stamp, src') := by
  simp [commit, run_drawBeside_ok h, commitWith]

theorem run_commit_error {fresh : Source σ} {id : Identity} {src src' : σ} {p : Panic}
    (h : fresh src = (.error p, src')) (newLen : Nat) :
    (commit fresh newLen).run (id, src) = .error (.unwinds p) (id.archive, src') := by
  simp [commit, run_drawBeside_error h]

@[simp] theorem birth_archive (id : Identity) : id.archive.birth = id.birth := by
  cases ho : id.oldCurrent <;> rw [archive, ho]

@[simp] theorem current_archive (id : Identity) : id.archive.current = id.current := by
  cases ho : id.oldCurrent <;> rw [archive, ho]

@[simp] theorem currentStart_archive (id : Identity) :
    id.archive.currentStart = id.currentStart := by
  cases ho : id.oldCurrent <;> rw [archive, ho]

@[simp] theorem prefixTail_archive (id : Identity) : id.archive.prefixTail = id.prefixTail := by
  cases ho : id.oldCurrent <;> rw [archive, ho]

@[simp] theorem oldCurrent_archive (id : Identity) : id.archive.oldCurrent = id.oldCurrent := by
  simp only [oldCurrent, current_archive, birth_archive]

/-! ## Stored histories -/

/-- The identity `id` stores the history `h`. -/
structure Models (id : Identity) (h : Epochs) : Prop where
  distinct : h.Distinct
  birth : id.birth = h.birth
  current : id.current = h.current
  start : id.currentStart = h.start
  sorted : Library.Table.Sorted id.table
  /-- Below the current segment the table answers for the history. -/
  cold : ∀ i, i < h.start → (Library.Table.floor? id.table i).getD h.birth = h.markAt i
  tail : 0 < h.start → id.prefixTail = h.markAt (h.start - 1)
  /-- The birth segment is never archived. -/
  newborn : h.commits = [] → id.table = []

theorem stampOfCold_eq_floor {id : Identity} (hs : Library.Table.Sorted id.table) (slot : Nat) :
    id.stampOfCold slot = (Library.Table.floor? id.table slot).getD id.birth := by
  rw [stampOfCold, ← Library.Table.get?_partitionPoint hs slot]
  rfl

namespace Models

variable {id : Identity} {h : Epochs}

theorem new (stamp : Stamp) : (Identity.new stamp).Models (.new stamp) where
  distinct := .new stamp
  birth := rfl
  current := rfl
  start := rfl
  sorted := List.Pairwise.nil
  cold := by
    intro i hi
    exact absurd hi (Nat.not_lt_zero i)
  tail := by
    intro hpos
    exact absurd hpos (Nat.lt_irrefl 0)
  newborn := fun _ => rfl

/-! ### Lookups -/

theorem stampOfCold_eq (hm : id.Models h) {slot : Nat} (hslot : slot < id.currentStart) :
    id.stampOfCold slot = h.markAt slot := by
  rw [stampOfCold_eq_floor hm.sorted, hm.birth]
  exact hm.cold slot (hm.start ▸ hslot)

/-- Whichever branch answers, `stamp_of` is the mark of the history. -/
theorem stampOf_eq (hm : id.Models h) (slot : Nat) : id.stampOf slot = h.markAt slot := by
  rw [stampOf]
  by_cases hcur : id.currentStart ≤ slot
  · rw [if_pos hcur, hm.current, History.markAt_of_start_le (hm.start ▸ hcur)]
  · rw [if_neg hcur]
    by_cases htail : slot + 1 = id.currentStart
    · rw [if_pos htail, hm.tail (by rw [← hm.start]; omega), ← hm.start, ← htail,
        Nat.add_sub_cancel]
    · rw [if_neg htail, hm.stampOfCold_eq (by omega)]

theorem matchesArchived_iff (hm : id.Models h) (slot : Nat) (stamp : Stamp) :
    id.matchesArchived slot stamp = true ↔ slot < h.start ∧ h.markAt slot = stamp := by
  rw [matchesArchived, Bool.and_eq_true, decide_eq_true_iff, decide_eq_true_iff, ← hm.start]
  constructor
  · rintro ⟨hlt, he⟩
    exact ⟨hlt, hm.stampOfCold_eq hlt ▸ he⟩
  · rintro ⟨hlt, he⟩
    exact ⟨hlt, (hm.stampOfCold_eq hlt).trans he⟩

/-! ### Commits -/

theorem oldCurrent_eq (hm : id.Models h) :
    id.oldCurrent = if h.commits = [] then none else some h.current := by
  have hiff := History.current_eq_birth_iff hm.distinct
  rw [oldCurrent, hm.current, hm.birth]
  by_cases hc : h.commits = []
  · rw [if_pos hc, if_neg (not_not.mpr (hiff.mpr hc))]
  · rw [if_neg hc, if_pos (fun he => hc (hiff.mp he))]

theorem archive_of_newborn (hm : id.Models h) (hc : h.commits = []) : id.archive = id := by
  rw [archive, hm.oldCurrent_eq, if_pos hc]

theorem archive_table (hm : id.Models h) (hc : h.commits ≠ []) :
    id.archive = { id with
      table := id.table.filter (fun e => decide (e.1 < h.start)) ++ [(h.start, h.current)] } := by
  rw [archive, hm.oldCurrent_eq, if_neg hc]
  simp only [hm.start]
  rw [Library.Table.take_partitionPoint hm.sorted (Library.Table.downTest_lt h.start)]

/-- Archiving on its own changes no history.  The new entry starts where the
cold path does not look, and the entries dropped were there too. -/
theorem archive (hm : id.Models h) : id.archive.Models h := by
  by_cases hc : h.commits = []
  · rwa [hm.archive_of_newborn hc]
  · rw [hm.archive_table hc]
    refine ⟨hm.distinct, hm.birth, hm.current, hm.start, hm.sorted.filter_concat _ _, ?_, hm.tail,
      fun hn => absurd hn hc⟩
    intro i hi
    simp only
    rw [Library.Table.floor?_concat, if_neg (Nat.not_le.mpr hi),
      Library.Table.floor?_filter_lt _ hi]
    exact hm.cold i hi

/-- After archiving the table answers for every slot. -/
theorem archive_floor (hm : id.Models h) (i : Nat) :
    (Library.Table.floor? id.archive.table i).getD h.birth = h.markAt i := by
  by_cases hc : h.commits = []
  · rw [hm.archive_of_newborn hc, hm.newborn hc]
    obtain ⟨b, cs⟩ := h
    subst hc
    rfl
  · by_cases hi : i < h.start
    · exact hm.archive.cold i hi
    · have hle : h.start ≤ i := Nat.le_of_not_lt hi
      rw [hm.archive_table hc]
      simp only
      rw [Library.Table.floor?_concat, if_pos hle, Option.getD_some,
        History.markAt_of_start_le hle]

/-- A second archiving finds its work done. -/
theorem archive_archive (hm : id.Models h) : id.archive.archive = id.archive := by
  by_cases hc : h.commits = []
  · rw [hm.archive_of_newborn hc, hm.archive_of_newborn hc]
  · rw [hm.archive.archive_table hc, hm.archive_table hc]
    simp [List.filter_append, List.filter_filter]

/-- A commit that draws a stamp new to the arena extends the history by one. -/
theorem commit (hm : id.Models h) {newLen : Nat} {stamp : Stamp} (hnew : stamp ∉ h.marks) :
    (id.commitWith newLen stamp).Models (h.commit newLen stamp) := by
  have ha := hm.archive
  -- below the new boundary the table answers for the old history
  have hcold : ∀ i, i < newLen → (h.commit newLen stamp).markAt i = h.markAt i := by
    intro i hi
    rw [History.markAt_commit, if_neg (Nat.not_le.mpr hi)]
  refine ⟨History.distinct_commit.mpr ⟨hnew, hm.distinct⟩, ha.birth, rfl, rfl, ha.sorted, ?_, ?_,
    fun hn => by cases hn⟩
  · intro i hi
    rw [hcold i hi]
    exact hm.archive_floor i
  · intro hpos
    have hpos : 0 < newLen := hpos
    have h0 : newLen ≠ 0 := Nat.ne_of_gt hpos
    rw [show (h.commit newLen stamp).start = newLen from rfl, hcold _ (Nat.sub_lt hpos Nat.one_pos)]
    simp only [commitWith, install, prefixTailAt, if_neg h0, ha.oldCurrent_eq]
    by_cases hc : h.commits = []
    · rw [if_pos hc, ha.birth]
      obtain ⟨b, cs⟩ := h
      subst hc
      rfl
    · rw [if_neg hc, ha.start]
      rcases Nat.lt_or_ge h.start newLen with hlt | hge
      · simp only [if_pos hlt]
        exact (History.markAt_of_start_le (Nat.le_sub_one_of_lt hlt)).symm
      · simp only [if_neg (Nat.not_lt.mpr hge)]
        rw [stampOfCold_eq_floor ha.sorted, ha.birth]
        exact hm.archive_floor _

end Models

end Identity

end SafeBump
