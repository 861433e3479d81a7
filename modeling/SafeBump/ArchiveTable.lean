import SafeBump.SegmentTable

/-!
# The archive table stays small

One identity among whatever else draws stamps in its process, from its birth on.  A
commit that finds no stamp panics and leaves the archiving half of its work behind
(`Identity.run_commit_error`), so what holds of the table is said of the commits that went
through, whatever came in between (`Archive`).

The table is always some of these commits in the order of their boundaries, which are
all different, so that there are never more entries than boundaries
(`archive_table_is_bounded`).
-/

namespace SafeBump

open Library (History)
open Library.Unwind

/-- What happens to the stamps of a process, and to one identity in it. -/
inductive Turn where
  /-- Thread `t` commits the boundary `n`.  A panic is caught. -/
  | commit (t : ThreadId) (n : Nat)
  /-- Thread `t` draws a stamp for something else. -/
  | draw (t : ThreadId)
  /-- Thread `t` ends. -/
  | exit (t : ThreadId)

/-- What is left of the stamps after some turns, the draws of the commits included. -/
def Turn.stampsAfter (sp : StampSpace) (es : List Turn) : StampSpace :=
  es.foldl (fun sp e =>
    match e with
    | .commit t _ => (sp.fresh t).2
    | .draw t => (sp.fresh t).2
    | .exit t => sp.exit t) sp

theorem Turn.ok_stampsAfter {sp : StampSpace} (h : sp.Ok) (es : List Turn) :
    (stampsAfter sp es).Ok := by
  induction es generalizing sp with
  | nil => exact h
  | cons e es ih =>
      cases e with
      | commit t n => exact ih (h.fresh t)
      | draw t => exact ih (h.fresh t)
      | exit t => exact ih (h.exit t)

section Run

variable {I C : Type} (commit : Source StampSpace → Nat → EStateM Exit (I × StampSpace) Unit)
  (current : I → C)

/-- A turn with an identity of kind `I`. -/
def Turn.next (c : I × StampSpace) : Turn → I × StampSpace
  | .commit t n => left ((commit (StampSpace.fresh t) n).run c)
  | .draw t => (c.1, (c.2.fresh t).2)
  | .exit t => (c.1, c.2.exit t)

/-- The commit a turn makes, with the stamp that is current after it. -/
def Turn.made (c : I × StampSpace) : Turn → List (Nat × C)
  | .commit t n =>
      match (commit (StampSpace.fresh t) n).run c with
      | .ok () c => [(n, current c.1)]
      | .error _ _ => []
  | _ => []

/-- Several turns. -/
def turns (c : I × StampSpace) (es : List Turn) : I × StampSpace := es.foldl (Turn.next commit) c

/-- The commits several turns make, oldest first. -/
def madeOver : I × StampSpace → List Turn → List (Nat × C)
  | _, [] => []
  | c, e :: es => e.made commit current c ++ madeOver (e.next commit c) es

end Run

/-! ## Tables of earlier commits -/

/-- The table is made of some of the commits `made`. -/
structure Archive (birth : Stamp) (made : List (Nat × Stamp)) (table : List (Nat × Stamp)) :
    Prop where
  /-- The starts ascend. -/
  sorted : Library.Table.Sorted table
  /-- The search for the segment of a slot runs on a partitioned slice. -/
  covering : ∀ slot : Nat,
    ∃ k, Library.PartitionedAt (fun e : Nat × Stamp => decide (e.1 ≤ slot)) table k
  /-- So does the one for the dead entries. -/
  compaction : ∀ start : Nat,
    ∃ k, Library.PartitionedAt (fun e : Nat × Stamp => decide (e.1 < start)) table k
  /-- An entry is a commit, with the stamp it drew. -/
  entries : ∀ e ∈ table, e ∈ made
  stamps : (table.map Prod.snd).Nodup
  birth : birth ∉ table.map Prod.snd
  length_le_boundaries : table.length ≤ (made.map Prod.fst).toFinset.card
  length_le_commits : table.length ≤ made.length

/-- Sorted tables of commits with stamps of their own. -/
theorem Archive.of_subset {birth : Stamp} {made table : List (Nat × Stamp)}
    (hd : (birth :: made.map Prod.snd).Nodup) (hs : Library.Table.Sorted table)
    (hsub : ∀ e ∈ table, e ∈ made) : Archive birth made table := by
  obtain ⟨hbirth, hmade⟩ := List.nodup_cons.mp hd
  have hstarts : (table.map Prod.fst).Nodup := by
    have hpair : (table.map Prod.fst).Pairwise (· < ·) := List.pairwise_map.mpr hs
    exact hpair.imp fun h => Nat.ne_of_lt h
  have hnodup : table.Nodup := hstarts.of_map _
  have hinj := List.inj_on_of_nodup_map hmade
  refine ⟨hs, fun slot => ⟨_, (hs.partitioned (Library.Table.downTest_le slot)).1⟩,
    fun start => ⟨_, (hs.partitioned (Library.Table.downTest_lt start)).1⟩, hsub, ?_, ?_, ?_, ?_⟩
  · exact hnodup.map_on fun a ha b hb hab => hinj (hsub a ha) (hsub b hb) hab
  · intro hmem
    obtain ⟨e, he, hst⟩ := List.mem_map.mp hmem
    exact hbirth (hst ▸ List.mem_map_of_mem (hsub e he))
  · rw [← List.length_map (f := Prod.fst), ← List.toFinset_card_of_nodup hstarts]
    refine Finset.card_le_card fun n hn => ?_
    obtain ⟨e, he, hen⟩ := List.mem_map.mp (List.mem_toFinset.mp hn)
    exact List.mem_toFinset.mpr (hen ▸ List.mem_map_of_mem (hsub e he))
  · exact (List.subperm_of_subset hnodup hsub).length_le

/-- Commits at one boundary leave one entry. -/
theorem Archive.length_le_one {birth : Stamp} {made table : List (Nat × Stamp)}
    (h : Archive birth made table) {n : Nat} (hn : ∀ e ∈ made, e.1 = n) : table.length ≤ 1 := by
  refine Nat.le_trans h.length_le_boundaries (Finset.card_le_one.mpr fun a ha b hb => ?_)
  obtain ⟨e, he, rfl⟩ := List.mem_map.mp (List.mem_toFinset.mp ha)
  obtain ⟨e', he', rfl⟩ := List.mem_map.mp (List.mem_toFinset.mp hb)
  exact (hn e he).trans (hn e' he').symm

/-! ## One identity through the turns -/

/-- The identity stores the history, and archived nothing but its commits.  Every mark
of the history is spent. -/
structure Identity.Keeps (c : Identity × StampSpace) (h : Epochs) : Prop where
  models : c.1.Models h
  entries : ∀ e ∈ c.1.table, e ∈ h.commits
  ok : c.2.Ok
  used : ∀ s ∈ h.marks, ¬ c.2.Unused s.get

namespace Identity

/-- What archiving adds is the newest commit. -/
theorem Models.mem_archive_table {id : Identity} {h : Epochs} (hm : id.Models h)
    (hsub : ∀ e ∈ id.table, e ∈ h.commits) : ∀ e ∈ id.archive.table, e ∈ h.commits := by
  cases hc : h.commits with
  | nil =>
      rw [hm.archive_of_newborn hc, hm.newborn hc]
      exact List.forall_mem_nil _
  | cons last commits =>
      have hne : h.commits ≠ [] := hc ▸ List.cons_ne_nil last commits
      have hlast : (h.start, h.current) = last := by
        rw [History.start, History.current, hc]
      rw [hm.archive_table hne, ← hc]
      intro e he
      rcases List.mem_append.mp he with he | he
      · exact hsub e (List.mem_of_mem_filter he)
      · rw [List.mem_singleton.mp he, hlast, hc]
        exact List.mem_cons_self ..

namespace Keeps

variable {c : Identity × StampSpace} {h : Epochs}

/-- A sorted table of commits of the history. -/
theorem archive_of_subset (hk : Keeps c h) {table : List (Nat × Stamp)}
    (hs : Library.Table.Sorted table) (hsub : ∀ e ∈ table, e ∈ h.commits) :
    Archive h.birth h.commits.reverse table := by
  refine .of_subset ?_ hs fun e he => List.mem_reverse.mpr (hsub e he)
  rw [List.map_reverse]
  have hperm : (h.birth :: (h.commits.map Prod.snd).reverse).Perm h.marks :=
    ((List.reverse_perm _).cons _).trans (List.perm_append_singleton ..).symm
  exact hperm.nodup_iff.mpr hk.models.distinct

/-- A commit that goes through makes one more commit of the history. -/
theorem commit_ok (hk : Keeps c h) {t : ThreadId} {s : Stamp} {sp : StampSpace}
    (hf : c.2.fresh t = (.ok s, sp)) (n : Nat) :
    Keeps (c.1.commitWith n s, sp) (h.commit n s) ∧ s ∉ h.marks ∧
      ∀ e ∈ (c.1.commitWith n s).table, e ∈ h.commits := by
  have hspends := StampSpace.Spends.fresh hk.ok t
  rw [hf] at hspends
  obtain ⟨hunused, hspent⟩ := hspends.taken s rfl
  have hnew : s ∉ h.marks := fun hs => hk.used s hs hunused
  have hentries := hk.models.mem_archive_table hk.entries
  refine ⟨⟨hk.models.commit hnew, fun e he => List.mem_cons_of_mem _ (hentries e he),
    hspends.ok, fun x hx => ?_⟩, hnew, hentries⟩
  rcases List.mem_cons.mp hx with rfl | hx
  · exact hspent
  · exact fun hu => hk.used x hx (hspends.shrinks _ hu)

/-- One that finds no stamp archives. -/
theorem commit_error (hk : Keeps c h) {t : ThreadId} {p : Panic} {sp : StampSpace}
    (hf : c.2.fresh t = (.error p, sp)) : Keeps (c.1.archive, sp) h := by
  have hspends := StampSpace.Spends.fresh hk.ok t
  rw [hf] at hspends
  exact ⟨hk.models.archive, hk.models.mem_archive_table hk.entries, hspends.ok,
    fun x hx hu => hk.used x hx (hspends.shrinks _ hu)⟩

theorem next (hk : Keeps c h) (e : Turn) :
    Keeps (e.next Identity.commit c)
      (h.extend (e.made Identity.commit Identity.current c).reverse) := by
  obtain ⟨id, sp⟩ := c
  cases e with
  | commit t n =>
      rw [Turn.next, Turn.made]
      rcases hf : sp.fresh t with ⟨p | s, sp'⟩
      · rw [run_commit_error hf]
        exact hk.commit_error hf
      · rw [run_commit_ok hf]
        exact (hk.commit_ok hf n).1
  | draw t =>
      have hspends := StampSpace.Spends.fresh hk.ok t
      exact ⟨hk.models, hk.entries, hspends.ok, fun x hx hu => hk.used x hx (hspends.shrinks _ hu)⟩
  | exit t =>
      exact ⟨hk.models, hk.entries, hk.ok.exit t, fun x hx hu =>
        hk.used x hx (StampSpace.exit_shrinks hu)⟩

theorem turns (hk : Keeps c h) (es : List Turn) :
    Keeps (turns Identity.commit c es)
      (h.extend (madeOver Identity.commit Identity.current c es).reverse) := by
  induction es generalizing c h with
  | nil => exact hk
  | cons e es ih =>
      have hrest := ih (hk.next e)
      rw [History.extend_extend, ← List.reverse_append] at hrest
      exact hrest

end Keeps

end Identity

/-! ## The concurrent identity -/

namespace SharedIdentity

/-- The concurrent identity makes the same commits. -/
theorem Mirrors.next {sid : SharedIdentity} {id : Identity} (hm : sid.Mirrors id)
    (sp : StampSpace) (e : Turn) :
    (e.next SharedIdentity.commit (sid, sp)).1.Mirrors (e.next Identity.commit (id, sp)).1 ∧
      (e.next SharedIdentity.commit (sid, sp)).2 = (e.next Identity.commit (id, sp)).2 ∧
      e.made SharedIdentity.commit SharedIdentity.current (sid, sp)
        = (e.made Identity.commit Identity.current (id, sp)).map fun c => (c.1, c.2.get) := by
  cases e with
  | commit t n =>
      simp only [Turn.next, Turn.made]
      rcases hf : sp.fresh t with ⟨p | s, sp'⟩
      · obtain ⟨sid', hrun, hm'⟩ := hm.commit_error hf n
        rw [hrun, Identity.run_commit_error hf]
        exact ⟨hm', rfl, rfl⟩
      · obtain ⟨sid', hrun, hm'⟩ := hm.commit_ok hf n
        rw [hrun, Identity.run_commit_ok hf]
        refine ⟨hm', rfl, ?_⟩
        simp only [hm'.current, List.map_cons, List.map_nil]
  | draw t => exact ⟨hm, rfl, rfl⟩
  | exit t => exact ⟨hm, rfl, rfl⟩

theorem Mirrors.turns {sid : SharedIdentity} {id : Identity} (hm : sid.Mirrors id)
    (sp : StampSpace) (es : List Turn) :
    (turns SharedIdentity.commit (sid, sp) es).1.Mirrors (turns Identity.commit (id, sp) es).1 ∧
      (turns SharedIdentity.commit (sid, sp) es).2 = (turns Identity.commit (id, sp) es).2 ∧
      madeOver SharedIdentity.commit SharedIdentity.current (sid, sp) es
        = (madeOver Identity.commit Identity.current (id, sp) es).map fun c => (c.1, c.2.get) := by
  induction es generalizing sid id sp with
  | nil => exact ⟨hm, rfl, rfl⟩
  | cons e es ih =>
      obtain ⟨hm', hsp, hmade⟩ := hm.next sp e
      obtain ⟨hrest, hsp', hmade'⟩ := ih hm' (e.next Identity.commit (id, sp)).2
      have hpair : e.next SharedIdentity.commit (sid, sp)
          = ((e.next SharedIdentity.commit (sid, sp)).1, (e.next Identity.commit (id, sp)).2) :=
        Prod.ext rfl hsp
      rw [SafeBump.turns, List.foldl_cons, hpair, madeOver, hmade, hpair, madeOver, List.map_append]
      exact ⟨hrest, hsp', congrArg _ hmade'⟩

/-- Without an identity there is nothing to archive. -/
theorem turns_new (sp : StampSpace) (es : List Turn) :
    (turns SharedIdentity.commit (new, sp) es).1 = new := by
  induction es generalizing sp with
  | nil => rfl
  | cons e es ih =>
      cases e with
      | commit t n =>
          rw [turns, List.foldl_cons, Turn.next, run_commit_new]
          exact ih sp
      | draw t => exact ih _
      | exit t => exact ih _

end SharedIdentity

/-- Through commits at boundaries in any order, and commits that found no stamp, the table
holds earlier commits only, at ascending boundaries and each with the stamp it drew,
and never the birth stamp.  A commit that goes through leaves its own stamp out of it.  The
table of the concurrent identity is the same one. -/
theorem archive_table_is_bounded (es₀ : List Turn) (t₀ : ThreadId) (birth : Stamp) (sp : StampSpace)
    (hbirth : (Turn.stampsAfter .initial es₀).fresh t₀ = (.ok birth, sp)) (es : List Turn) :
    let c := turns Identity.commit (.new birth, sp) es
    let made := madeOver Identity.commit Identity.current (.new birth, sp) es
    let shared := turns SharedIdentity.commit (.born birth, sp) es
    c.1.birth = birth ∧ Archive birth made c.1.table ∧
      (∀ n, (∀ e ∈ made, e.1 = n) → c.1.table.length ≤ 1) ∧
      (∀ t n id' sp', (Identity.commit (StampSpace.fresh t) n).run c = .ok () (id', sp') →
        id'.birth = birth ∧ Archive birth made id'.table ∧
          id'.current ∉ id'.table.map Prod.snd) ∧
      (shared.1.table.getD [] = c.1.table ∧ shared.1.birth = c.1.birth.get ∧
        shared.1.current = c.1.current.get ∧ shared.1.currentStart = c.1.currentStart ∧
        shared.2 = c.2 ∧
        madeOver SharedIdentity.commit SharedIdentity.current (.born birth, sp) es
          = made.map fun e => (e.1, e.2.get)) ∧
      (turns SharedIdentity.commit (.new, sp) es).1.table = none := by
  intro c made shared
  have hspends := StampSpace.Spends.fresh (Turn.ok_stampsAfter .initial es₀) t₀
  rw [hbirth] at hspends
  have hk₀ : Identity.Keeps (Identity.new birth, sp) (.new birth) :=
    ⟨.new birth, List.forall_mem_nil _, hspends.ok, fun s hs => by
      rw [List.mem_singleton.mp hs]
      exact (hspends.taken birth rfl).2⟩
  have hk := hk₀.turns es
  have hmade : ((History.new birth : Epochs).extend made.reverse).commits.reverse = made := by
    simp [History.extend, History.new]
  have harchive : Archive birth made c.1.table :=
    hmade ▸ hk.archive_of_subset hk.models.sorted hk.entries
  refine ⟨hk.models.birth, harchive, fun n hn => harchive.length_le_one hn,
    fun t n id' sp' hrun => ?_, ?_, ?_⟩
  · rcases hf : c.2.fresh t with ⟨p | stamp, sp₁⟩
    · have hpanics : (Identity.commit (StampSpace.fresh t) n).run c = _ :=
        Identity.run_commit_error hf n
      cases hpanics.symm.trans hrun
    · have hcommits : (Identity.commit (StampSpace.fresh t) n).run c = _ :=
        Identity.run_commit_ok hf n
      cases hcommits.symm.trans hrun
      obtain ⟨hk', hnew, hentries⟩ := hk.commit_ok hf n
      refine ⟨hk'.models.birth, hmade ▸ hk.archive_of_subset hk'.models.sorted hentries,
        fun hmem => ?_⟩
      obtain ⟨e, he, hst⟩ := List.mem_map.mp hmem
      have hst : e.2 = stamp := hst
      exact hnew (hst ▸ List.mem_append_left _ (List.mem_map_of_mem (hentries e he)))
  · obtain ⟨hm, hsp, hsame⟩ := (SharedIdentity.Mirrors.of_born birth).turns sp es
    exact ⟨hm.table, hm.birth, hm.current, hm.start, hsp, hsame⟩
  · rw [SharedIdentity.turns_new]
    rfl

/-- Boundaries 3, 5 and 2, then 4 by a thread that takes new stamps. -/
theorem archive_table_is_bounded_mixed : ∃ birth sp,
    (Turn.stampsAfter .initial [.draw 0]).fresh 0 = (.ok birth, sp) ∧
      let es : List Turn := [.commit 0 3, .commit 1 5, .commit 0 2, .exit 0, .commit 2 4]
      let c := turns Identity.commit (.new birth, sp) es
      c.1.table = [(2, .nth 3)] ∧ c.1.table.length ≤ 4 := by
  refine ⟨_, _, rfl, ?_⟩
  intro es c
  obtain ⟨-, h, -⟩ := archive_table_is_bounded [.draw 0] 0 _ _ rfl es
  exact ⟨by decide +kernel, h.length_le_commits⟩

end SafeBump
