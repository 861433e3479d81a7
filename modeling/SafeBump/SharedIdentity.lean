import SafeBump.Identity

/-!
# The segment table of the concurrent arena

`SharedIdentity` of `segments.rs`, as one thread sees it.  `birth` and
`current` are raw words, 0 while unassigned, and the table is absent until the
first segment is archived.  Reading either word may have to assign both.

`SharedIdentity.Mirrors` relates it to an `Identity` with the same content.
From there on it behaves the same: every lookup answers alike and changes
nothing, and a commit that draws the same stamp leaves mirrored identities
(`SharedIdentity.Mirrors.commit_ok`).
-/

namespace SafeBump

/-- Concurrency-friendly per-arena identity. -/
structure SharedIdentity where
  birth : Nat
  current : Nat
  currentStart : Nat
  prefixTail : Stamp
  table : Option (List (Nat × Stamp))
deriving DecidableEq, Repr

namespace SharedIdentity

/-- `SharedIdentity::new`. -/
def new : SharedIdentity := ⟨0, 0, 0, ⟨1, Nat.one_ne_zero⟩, none⟩

variable {σ : Type}

/-- The re-read loop of `SharedIdentity::assign`, on one thread: `current` is
either there or never comes. -/
def reread : EStateM Exit (SharedIdentity × σ) Stamp := do
  let (id, _) ← get
  if h : id.current = 0 then throw .spins else return ⟨id.current, h⟩

/-- `SharedIdentity::assign`. -/
def assign (fresh : Source σ) : EStateM Exit (SharedIdentity × σ) Stamp := do
  let stamp ← drawBeside fresh
  modify fun (id, src) =>
    if id.birth = 0 then ({ id with birth := stamp.get, current := stamp.get }, src) else (id, src)
  reread

/-- `SharedIdentity::birth`. -/
def birthStamp (fresh : Source σ) : EStateM Exit (SharedIdentity × σ) Stamp := do
  let (id, _) ← get
  if h : id.birth = 0 then assign fresh else return ⟨id.birth, h⟩

/-- `SharedIdentity::current`. -/
def currentStamp (fresh : Source σ) : EStateM Exit (SharedIdentity × σ) Stamp := do
  let (id, _) ← get
  if h : id.current = 0 then assign fresh else return ⟨id.current, h⟩

/-- `SharedIdentity::stamp_of_cold`. -/
def stampOfCold (fresh : Source σ) (slot : Nat) : EStateM Exit (SharedIdentity × σ) Stamp := do
  let (id, _) ← get
  match id.table with
  | none => birthStamp fresh
  | some table =>
      match Identity.coveringStamp table slot with
      | none => birthStamp fresh
      | some stamp => return stamp

/-- `SharedIdentity::stamp_of`. -/
def stampOf (fresh : Source σ) (slot : Nat) : EStateM Exit (SharedIdentity × σ) Stamp := do
  let (id, _) ← get
  if id.currentStart ≤ slot then currentStamp fresh
  else if slot + 1 = id.currentStart then return id.prefixTail
  else stampOfCold fresh slot

/-- `SharedIdentity::matches_archived`. -/
def matchesArchived (fresh : Source σ) (slot : Nat) (stamp : Stamp) :
    EStateM Exit (SharedIdentity × σ) Bool := do
  let (id, _) ← get
  if slot < id.currentStart then return decide ((← stampOfCold fresh slot) = stamp)
  else return false

/-- `SharedIdentity::matches`. -/
def matchesStamp (fresh : Source σ) (slot : Nat) (stamp : Stamp) :
    EStateM Exit (SharedIdentity × σ) Bool := do
  let (id, _) ← get
  if stamp.get = id.current then return true else matchesArchived fresh slot stamp

/-- The segment a commit archives: the current one unless it is the birth segment. -/
def oldCurrent : EStateM Exit (SharedIdentity × σ) (Option Stamp) := do
  let (id, _) ← get
  if id.current ≠ id.birth then
    if h : id.current = 0 then throw (.unwinds .currentUnassigned) else return some ⟨id.current, h⟩
  else return none

/-- Compact the table and archive the segment `old`. -/
def archiveWith (id : SharedIdentity) (old : Stamp) : SharedIdentity :=
  let table := id.table.getD []
  let deadFrom :=
    Library.partitionPoint (fun e : Nat × Stamp => decide (e.1 < id.currentStart)) table
  { id with table := some (table.take deadFrom ++ [(id.currentStart, old)]) }

/-- The first half of `SharedIdentity::commit`, with the segment it archives. -/
def archive : EStateM Exit (SharedIdentity × σ) (Option Stamp) := do
  let old ← oldCurrent
  match old with
  | some old => modify fun (id, src) => (id.archiveWith old, src)
  | none => pure ()
  return old

/-- The stamp a commit at `newLen` caches for the slot below the boundary. -/
def prefixTailAt (fresh : Source σ) (old : Option Stamp) (oldStart newLen : Nat) :
    EStateM Exit (SharedIdentity × σ) Stamp := do
  let (id, _) ← get
  if newLen = 0 then return id.prefixTail
  else
    match old with
    | some old => if oldStart < newLen then return old else stampOfCold fresh (newLen - 1)
    | none => birthStamp fresh

/-- `SharedIdentity::commit`. -/
def commit (fresh : Source σ) (newLen : Nat) : EStateM Exit (SharedIdentity × σ) Unit := do
  let (id, _) ← get
  if id.birth = 0 then return
  let old ← archive
  let stamp ← drawBeside fresh
  modify fun (id, src) => ({ id with current := stamp.get, currentStart := newLen }, src)
  let tail ← prefixTailAt fresh old id.currentStart newLen
  modify fun (id, src) => ({ id with prefixTail := tail }, src)

/-- Commits at the boundaries `ns` in turn, with the raw stamps they left current. -/
def commitAll (fresh : Source σ) : List Nat → EStateM Exit (SharedIdentity × σ) (List Nat)
  | [] => pure []
  | n :: ns => do
      commit fresh n
      let (id, _) ← get
      let stamps ← commitAll fresh ns
      return id.current :: stamps

/-! ## Assignment -/

/-- The identity that `assign` leaves when it wins with `stamp`. -/
def born (stamp : Stamp) : SharedIdentity :=
  { new with birth := stamp.get, current := stamp.get }

theorem run_assign_ok {fresh : Source σ} {src src' : σ} {stamp : Stamp}
    (h : fresh src = (.ok stamp, src')) :
    (assign fresh).run (new, src) = .ok stamp (born stamp, src') := by
  simp [assign, run_drawBeside_ok h, reread, new, born, stamp.ne_zero]

theorem run_assign_error {fresh : Source σ} {src src' : σ} {p : Panic}
    (h : fresh src = (.error p, src')) :
    (assign fresh).run (new, src) = .error (.unwinds p) (new, src') := by
  simp [assign, run_drawBeside_error h]

theorem run_birthStamp_new (fresh : Source σ) (src : σ) :
    (birthStamp fresh).run (new, src) = (assign fresh).run (new, src) := by
  simp [birthStamp, new]

theorem run_currentStamp_new (fresh : Source σ) (src : σ) :
    (currentStamp fresh).run (new, src) = (assign fresh).run (new, src) := by
  simp [currentStamp, new]

/-- Before any identity exists a commit does nothing and draws nothing. -/
theorem run_commit_new (fresh : Source σ) (newLen : Nat) (src : σ) :
    (commit fresh newLen).run (new, src) = .ok () (new, src) := by
  simp [commit, new]

/-! ## Mirrored identities -/

/-- `sid` has the content of `id`. -/
structure Mirrors (sid : SharedIdentity) (id : Identity) : Prop where
  birth : sid.birth = id.birth.get
  current : sid.current = id.current.get
  start : sid.currentStart = id.currentStart
  table : sid.table.getD [] = id.table
  tail : 0 < id.currentStart → sid.prefixTail = id.prefixTail

namespace Mirrors

variable {sid : SharedIdentity} {id : Identity} {fresh : Source σ} {src : σ}

theorem of_born (stamp : Stamp) : (born stamp).Mirrors (.new stamp) :=
  ⟨rfl, rfl, rfl, rfl, fun h => absurd h (Nat.lt_irrefl 0)⟩

/-- Both words assigned, there is an identity with the same content. -/
theorem of_assigned (hb : sid.birth ≠ 0) (hc : sid.current ≠ 0) : ∃ id, sid.Mirrors id :=
  ⟨⟨⟨sid.birth, hb⟩, ⟨sid.current, hc⟩, sid.currentStart, sid.prefixTail, sid.table.getD []⟩,
    rfl, rfl, rfl, rfl, fun _ => rfl⟩

theorem birth_ne_zero (hm : sid.Mirrors id) : sid.birth ≠ 0 := hm.birth ▸ id.birth.ne_zero

theorem current_ne_zero (hm : sid.Mirrors id) : sid.current ≠ 0 := hm.current ▸ id.current.ne_zero

/-! ### Lookups answer alike and change nothing -/

theorem run_birthStamp (hm : sid.Mirrors id) :
    (birthStamp fresh).run (sid, src) = .ok id.birth (sid, src) := by
  have hb : (⟨sid.birth, hm.birth_ne_zero⟩ : Stamp) = id.birth := Stamp.get_inj.mp hm.birth
  simp [birthStamp, hm.birth_ne_zero, hb]

theorem run_currentStamp (hm : sid.Mirrors id) :
    (currentStamp fresh).run (sid, src) = .ok id.current (sid, src) := by
  have hc : (⟨sid.current, hm.current_ne_zero⟩ : Stamp) = id.current := Stamp.get_inj.mp hm.current
  simp [currentStamp, hm.current_ne_zero, hc]

theorem run_stampOfCold (hm : sid.Mirrors id) (slot : Nat) :
    (stampOfCold fresh slot).run (sid, src) = .ok (id.stampOfCold slot) (sid, src) := by
  have htable := hm.table
  cases ht : sid.table with
  | none =>
      rw [ht, Option.getD_none] at htable
      simp [stampOfCold, ht, hm.run_birthStamp, Identity.stampOfCold, ← htable,
        Identity.coveringStamp, Library.partitionPoint]
  | some table =>
      rw [ht, Option.getD_some] at htable
      subst htable
      simp only [stampOfCold, EStateM.run_bind, EStateM.run_get, ht, Identity.stampOfCold]
      cases Identity.coveringStamp id.table slot with
      | none => simp [hm.run_birthStamp]
      | some stamp => simp

theorem run_stampOf (hm : sid.Mirrors id) (slot : Nat) :
    (stampOf fresh slot).run (sid, src) = .ok (id.stampOf slot) (sid, src) := by
  simp only [stampOf, EStateM.run_bind, EStateM.run_get, Identity.stampOf, hm.start]
  by_cases hcur : id.currentStart ≤ slot
  · simp only [if_pos hcur, hm.run_currentStamp]
  · rw [if_neg hcur, if_neg hcur]
    by_cases htail : slot + 1 = id.currentStart
    · simp only [if_pos htail, EStateM.run_pure, hm.tail (by omega)]
    · simp only [if_neg htail, hm.run_stampOfCold]

theorem run_matchesArchived (hm : sid.Mirrors id) (slot : Nat) (stamp : Stamp) :
    (matchesArchived fresh slot stamp).run (sid, src)
      = .ok (id.matchesArchived slot stamp) (sid, src) := by
  simp only [matchesArchived, EStateM.run_bind, EStateM.run_get, hm.start,
    Identity.matchesArchived]
  by_cases hlt : slot < id.currentStart
  · simp [hlt, hm.run_stampOfCold]
  · simp [hlt]

theorem run_matchesStamp (hm : sid.Mirrors id) (slot : Nat) (stamp : Stamp) :
    (matchesStamp fresh slot stamp).run (sid, src)
      = .ok (decide (stamp.get = id.current.get) || id.matchesArchived slot stamp) (sid, src) := by
  simp only [matchesStamp, EStateM.run_bind, EStateM.run_get, hm.current]
  by_cases hc : stamp.get = id.current.get
  · simp [hc]
  · simp [hc, hm.run_matchesArchived]

/-! ### Commits -/

theorem run_oldCurrent (hm : sid.Mirrors id) :
    (oldCurrent).run (sid, src) = .ok id.oldCurrent (sid, src) := by
  have hc : (⟨sid.current, hm.current_ne_zero⟩ : Stamp) = id.current := Stamp.get_inj.mp hm.current
  have hiff : sid.current = sid.birth ↔ id.current = id.birth := by
    rw [hm.current, hm.birth, Stamp.get_inj]
  by_cases he : id.current = id.birth
  · simp [oldCurrent, Identity.oldCurrent, hiff.mpr he, he]
  · simp [oldCurrent, Identity.oldCurrent, mt hiff.mp he, he, hm.current_ne_zero, hc]

theorem archiveWith (hm : sid.Mirrors id) {old : Stamp} (ho : id.oldCurrent = some old) :
    (sid.archiveWith old).Mirrors id.archive := by
  have hid : id.archive = { id with table := id.table.take (Library.partitionPoint
      (fun e : Nat × Stamp => decide (e.1 < id.currentStart)) id.table)
        ++ [(id.currentStart, old)] } := by
    rw [Identity.archive, ho]
  rw [hid]
  refine ⟨hm.birth, hm.current, hm.start, ?_, hm.tail⟩
  simp only [SharedIdentity.archiveWith, Option.getD_some, hm.table, hm.start]

/-- Archiving, as a function of the content. -/
def archived (sid : SharedIdentity) (id : Identity) : SharedIdentity :=
  match id.oldCurrent with
  | some old => sid.archiveWith old
  | none => sid

theorem archived_mirrors (hm : sid.Mirrors id) : (archived sid id).Mirrors id.archive := by
  cases ho : id.oldCurrent with
  | none =>
      rw [archived, ho, Identity.archive, ho]
      exact hm
  | some old =>
      rw [archived, ho]
      exact hm.archiveWith ho

theorem run_archive (hm : sid.Mirrors id) :
    (archive).run (sid, src) = .ok id.oldCurrent (archived sid id, src) := by
  cases ho : id.oldCurrent with
  | none => simp [SharedIdentity.archive, hm.run_oldCurrent, ho, archived]
  | some old => simp [SharedIdentity.archive, hm.run_oldCurrent, ho, archived]

/-- The cached stamp is computed on the archived table. -/
theorem run_prefixTailAt (hm : sid.Mirrors id) (old : Option Stamp) (oldStart : Nat)
    {newLen : Nat} (hpos : newLen ≠ 0) :
    (prefixTailAt fresh old oldStart newLen).run (sid, src)
      = .ok (match old with
          | some old => if oldStart < newLen then old else id.stampOfCold (newLen - 1)
          | none => id.birth) (sid, src) := by
  cases old with
  | none => simp [prefixTailAt, hpos, hm.run_birthStamp]
  | some old =>
      rcases Nat.lt_or_ge oldStart newLen with hlt | hge
      · simp [prefixTailAt, hpos, hlt]
      · simp [prefixTailAt, hpos, Nat.not_lt.mpr hge, hm.run_stampOfCold]

/-- A commit that draws a stamp leaves mirrored identities. -/
theorem commit_ok (hm : sid.Mirrors id) {src' : σ} {stamp : Stamp}
    (h : fresh src = (.ok stamp, src')) (newLen : Nat) :
    ∃ sid', (commit fresh newLen).run (sid, src) = .ok () (sid', src') ∧
      sid'.Mirrors (id.commitWith newLen stamp) := by
  have ha := hm.archived_mirrors
  -- the identity before its `prefix_tail` is set
  have hmid : { archived sid id with current := stamp.get, currentStart := newLen }.Mirrors
      { id.archive with
        current := stamp, currentStart := newLen, prefixTail := (archived sid id).prefixTail } :=
    ⟨ha.birth, rfl, rfl, ha.table, fun _ => rfl⟩
  simp only [commit, EStateM.run_bind, EStateM.run_get, if_neg hm.birth_ne_zero, hm.run_archive,
    run_drawBeside_ok h, EStateM.run_modify]
  cases newLen with
  | zero =>
      refine ⟨{ archived sid id with current := stamp.get, currentStart := 0 }, ?_, ?_⟩
      · simp [prefixTailAt]
      · exact ⟨ha.birth, rfl, rfl, ha.table, fun hpos => absurd hpos (Nat.lt_irrefl 0)⟩
  | succ n =>
      rw [hmid.run_prefixTailAt _ _ (Nat.succ_ne_zero n)]
      refine ⟨_, rfl, ha.birth, rfl, rfl, ha.table, fun _ => ?_⟩
      simp only [Identity.commitWith, Identity.install, Identity.prefixTailAt,
        if_neg (Nat.succ_ne_zero n), Identity.oldCurrent_archive, Identity.currentStart_archive,
        hm.start]
      rfl

/-- A commit that draws no stamp leaves mirrored identities too. -/
theorem commit_error (hm : sid.Mirrors id) {src' : σ} {p : Panic}
    (h : fresh src = (.error p, src')) (newLen : Nat) :
    ∃ sid', (commit fresh newLen).run (sid, src) = .error (.unwinds p) (sid', src') ∧
      sid'.Mirrors id.archive := by
  refine ⟨archived sid id, ?_, hm.archived_mirrors⟩
  simp only [commit, EStateM.run_bind, EStateM.run_get, if_neg hm.birth_ne_zero, hm.run_archive,
    run_drawBeside_error h]

end Mirrors

end SharedIdentity

end SafeBump
