import SafeBump.WorldShown

/-!
# Checkpoints are exact

A checkpoint is accepted by the arena it was captured from until that arena
commits a boundary below its length, and by no other arena.  What is checked is
the owner, the length and the mark of one slot, and that is enough because the
mark of a slot says everything about the slots below it that a prefix needs
(`Store.Extends.validateCheckpoint_iff`).

The checks hold at every moment of a concurrent arena, calls under way or not.
-/

namespace SafeBump

open Library (History)
open Library.Unwind

variable {tgt : Target} {T : Type}

namespace World

/-- `validate_checkpoint` on arena `o` accepts `cp`. -/
def Accepts (w : World tgt T) (t : ThreadId) (o : Owner) (cp : Checkpoint) : Prop :=
  w.outcome t o (.validateCheckpoint cp) = .ok (.verdict (.ok ()))

/-- The boundary an event is meant to begin on an arena. -/
def Event.boundary (o : Owner) : Event T → Option Nat
  | .single (.request _ n req) => if o = .single n then req.boundary else none
  | .alone _ n req => if o = .shared n then req.boundary else none
  | _ => none

section Verdicts

variable {w : World tgt T} {stores : Owner → Store T}

/-- The checks of a checkpoint read the store. -/
theorem Shows.outcome_validateCheckpoint (h : w.Shows stores) (t : ThreadId) (o : Owner)
    (cp : Checkpoint) :
    w.outcome t o (.validateCheckpoint cp) = .ok (.verdict ((stores o).validateCheckpoint cp)) := by
  cases o with
  | single n =>
      have hv := Arena.validateCheckpoint_eq (h.singles n) cp
      exact congrArg (fun v => Except.ok (Reply.verdict v)) hv
  | shared n =>
      have hv := (h.shareds n).shown.run_validateCheckpoint (StampSpace.fresh t) cp w.process.stamps
        (w.shareds n).dropped
      rw [outcome, served, SharedArena.serve, ending_run_map, hv]
      rfl

theorem Shows.accepts_iff (h : w.Shows stores) (t : ThreadId) (o : Owner) (cp : Checkpoint) :
    w.Accepts t o cp ↔ (stores o).validateCheckpoint cp = .ok () := by
  rw [Accepts, h.outcome_validateCheckpoint]
  exact ⟨fun he => Reply.verdict.inj (Except.ok.inj he), fun he => by rw [he]⟩

/-- A rejected rollback ends with the reason, and nothing about the arena has
changed. -/
theorem Shows.served_rejected (h : w.Shows stores) (t : ThreadId) (panics : Dtor T)
    (cp : Checkpoint) (err : CheckpointError) :
    (∀ n, (stores (.single n)).validateCheckpoint cp = .error err →
      w.process.served tgt t n (.tryRollback cp panics)
        = .ok (.verdict (.error err)) (w.process.ctx n)) ∧
    (∀ n, (stores (.shared n)).validateCheckpoint cp = .error err →
      w.served t n (.tryRollback cp panics) = .ok (.verdict (.error err))
        ⟨(w.shareds n).arena, w.process.stamps, (w.shareds n).dropped⟩) := by
  refine ⟨fun n hv => ?_, fun n hv => ?_⟩
  · have hv' := (Arena.validateCheckpoint_eq (h.singles n) cp).trans hv
    have hv' : (w.process.ctx n).arena.validateCheckpoint cp = .error err := hv'
    simp [Process.served, Arena.serve, Arena.tryRollback, hv']
  · have hrun := (h.shareds n).shown.run_validateCheckpoint (StampSpace.fresh t) cp w.process.stamps
      (w.shareds n).dropped
    rw [hv] at hrun
    simp [served, SharedArena.serve, SharedArena.tryRollback, hrun]

/-- An accepted rollback does not end with a reason to reject it. -/
theorem Shows.outcome_accepted (h : w.Shows stores) (t : ThreadId) (o : Owner) (panics : Dtor T)
    {cp : Checkpoint} (hv : (stores o).validateCheckpoint cp = .ok ()) (err : CheckpointError) :
    w.outcome t o (.tryRollback cp panics) ≠ .ok (.verdict (.error err)) := by
  -- its verdict is put on what the commit and the loop return
  have hmap : ∀ {A : Type} (m : Op A StampSpace T Unit) (c : Ctx A StampSpace T),
      ending (((fun _ => Reply.verdict (.ok ())) <$> m).run c)
        ≠ (.ok (.verdict (.error err)) : Except Exit (Reply T)) := by
    intro A m c he
    rw [ending_run_map] at he
    cases hm : ending (m.run c) with
    | ok u => rw [hm] at he; cases he
    | error e => rw [hm] at he; cases he
  cases o with
  | single n =>
      have hm := h.singles n
      have hv' : (w.process.ctx n).arena.validateCheckpoint cp = .ok () :=
        (Arena.validateCheckpoint_eq hm cp).trans hv
      have hid : ∃ id, (w.process.ctx n).arena.sidecar = some id := by
        cases hs : (w.process.ctx n).arena.sidecar with
        | some id => exact ⟨id, rfl⟩
        | none =>
            rw [Arena.validateCheckpoint, hs] at hv'
            cases hv'
      obtain ⟨id, hid⟩ := hid
      have hrun : (Arena.serve tgt (StampSpace.fresh t) (.tryRollback cp panics)).run
          (w.process.ctx n) = ((fun _ => Reply.verdict (.ok ())) <$>
              Arena.cutDown (StampSpace.fresh t) panics id cp.len).run (w.process.ctx n) := by
        rw [Arena.serve, run_map, Arena.run_tryRollback_valid hv' hid, run_map, run_map]
        cases (Arena.cutDown (StampSpace.fresh t) panics id cp.len).run (w.process.ctx n) <;> rfl
      rw [outcome, Process.outcome, Process.served, hrun]
      exact hmap _ _
  | shared n =>
      have hv' :=
        (h.shareds n).shown.run_validateCheckpoint (StampSpace.fresh t) cp w.process.stamps
        (w.shareds n).dropped
      rw [hv] at hv'
      have hrun : w.served t n (.tryRollback cp panics)
          = ((fun _ => Reply.verdict (.ok ())) <$>
              SharedArena.cutDown (StampSpace.fresh t) panics cp.len).run
                ⟨(w.shareds n).arena, w.process.stamps, (w.shareds n).dropped⟩ := by
        rw [served, SharedArena.serve, run_map, SharedArena.run_tryRollback_valid hv', run_map,
          run_map]
        cases (SharedArena.cutDown (StampSpace.fresh t) panics cp.len).run
          ⟨(w.shareds n).arena, w.process.stamps, (w.shareds n).dropped⟩ <;> rfl
      rw [outcome, hrun]
      exact hmap _ _

/-- A rollback is rejected for what its checkpoint is rejected for. -/
theorem Shows.outcome_tryRollback (h : w.Shows stores) (t : ThreadId) (o : Owner)
    (cp : Checkpoint) (panics : Dtor T) (err : CheckpointError) :
    w.outcome t o (.tryRollback cp panics) = .ok (.verdict (.error err)) ↔
      (stores o).validateCheckpoint cp = .error err := by
  obtain ⟨hsingle, hshared⟩ := h.served_rejected t panics cp err
  constructor
  · intro he
    cases hv : (stores o).validateCheckpoint cp with
    | ok u => exact absurd he (h.outcome_accepted t o panics hv err)
    | error err' =>
        obtain ⟨hsingle, hshared⟩ := h.served_rejected t panics cp err'
        cases o with
        | single n =>
            rw [outcome, Process.outcome, hsingle n hv] at he
            cases he
            rfl
        | shared n =>
            rw [outcome, hshared n hv] at he
            cases he
            rfl
  · intro hv
    cases o with
    | single n => rw [outcome, Process.outcome, hsingle n hv, ending_ok]
    | shared n => rw [outcome, hshared n hv, ending_ok]

/-- A rejected rollback leaves everything the arenas can be asked as it was. -/
theorem Shows.step_rejected (h : w.Shows stores) (t : ThreadId) (o : Owner) {cp : Checkpoint}
    (panics : Dtor T) {err : CheckpointError}
    (hv : (stores o).validateCheckpoint cp = .error err) :
    (w.step (.request t o (.tryRollback cp panics))).process = w.process ∧
      ∀ n, ((w.step (.request t o (.tryRollback cp panics))).shareds n).arena
        = (w.shareds n).arena ∧
        ((w.step (.request t o (.tryRollback cp panics))).shareds n).dropped
          = (w.shareds n).dropped := by
  obtain ⟨hsingle, hshared⟩ := h.served_rejected t panics cp err
  cases o with
  | single n =>
      refine ⟨?_, fun _ => ⟨rfl, rfl⟩⟩
      have hput : w.process.put n (w.process.ctx n) = w.process := by
        simp only [Process.put, Process.ctx, Function.update_eq_self]
      rw [Event.request, World.step, Process.step, hsingle n hv, left_ok, hput]
  | shared n =>
      rw [Event.request, World.step]
      split
      · simp only [hshared n hv, left_ok]
        refine ⟨rfl, fun m => ?_⟩
        rcases eq_or_ne m n with rfl | hne
        · rw [shareds_put_self]
          exact ⟨rfl, rfl⟩
        · rw [w.shareds_put_of_ne hne]
          exact ⟨rfl, rfl⟩
      · exact ⟨rfl, fun _ => ⟨rfl, rfl⟩⟩

end Verdicts

/-- What is asked of an arena is answered by the arenas and the stamps. -/
theorem outcome_congr {w w' : World tgt T} (hp : w'.process = w.process)
    (hs : ∀ n, (w'.shareds n).arena = (w.shareds n).arena ∧
      (w'.shareds n).dropped = (w.shareds n).dropped) (t : ThreadId) (o : Owner) (req : Request T) :
    w'.outcome t o req = w.outcome t o req ∧ w'.dropped o = w.dropped o := by
  cases o with
  | single n => simp only [outcome, dropped, hp, and_self]
  | shared n => simp only [outcome, served, dropped, hp, (hs n).1, (hs n).2, and_self]

/-- An event begins no boundary but the one it is meant to. -/
theorem boundary_of_mem_changes {w : World tgt T} {o : Owner} {e : Event T} {n : Nat}
    (h : n ∈ Change.boundaries (w.changes o e)) : e.boundary o = some n := by
  have hof : ∀ {req : Request T} {r : Except Exit (Reply T)},
      n ∈ Change.boundaries (T := T) (Change.ofBoundary (committed req r)) →
        req.boundary = some n := by
    intro req r hn
    cases hc : committed req r with
    | none =>
        rw [hc] at hn
        cases hn
    | some m =>
        rw [hc] at hn
        cases List.mem_singleton.mp hn
        exact boundary_of_committed hc
  cases e with
  | single e =>
      cases o with
      | shared n => cases h
      | single k =>
          cases e with
          | request t m req =>
              rw [changes, Process.changes] at h
              split at h
              · rename_i hm
                cases hm
                exact (if_pos rfl).trans (hof h)
              · cases h
          | write m f =>
              rw [changes, Process.changes] at h
              split at h
              · rw [Arena.boundaries_changes] at h
                cases h
              · cases h
          | draw t => cases h
          | exit t => cases h
  | start k t ask => cases h
  | step k i mishap => cases h
  | alone t k req =>
      rw [changes] at h
      split at h
      · rename_i hq
        exact (if_pos hq.1).trans (hof h)
      · cases h

theorem boundary_of_mem_changesOver {w : World tgt T} {o : Owner} {es : List (Event T)} {n : Nat}
    (h : n ∈ Change.boundaries (changesOver o w es)) : ∃ e ∈ es, e.boundary o = some n := by
  induction es generalizing w with
  | nil => cases h
  | cons e es ih =>
      rw [changesOver, Change.boundaries_append] at h
      rcases List.mem_append.mp h with h | h
      · exact ⟨e, List.mem_cons_self .., boundary_of_mem_changes h⟩
      · obtain ⟨e', he', hb⟩ := ih h
        exact ⟨e', List.mem_cons_of_mem _ he', hb⟩

/-- An event that is not meant to begin a boundary begins none. -/
theorem boundaries_changes (w : World tgt T) {o : Owner} {e : Event T} (h : e.boundary o = none) :
    Change.boundaries (w.changes o e) = [] :=
  List.eq_nil_iff_forall_not_mem.mpr fun _ hn => by
    cases h.symm.trans (boundary_of_mem_changes hn)

theorem boundaries_changesOver (w : World tgt T) {o : Owner} {es : List (Event T)}
    (h : ∀ e ∈ es, e.boundary o = none) : Change.boundaries (changesOver o w es) = [] := by
  refine List.eq_nil_iff_forall_not_mem.mpr fun n hn => ?_
  obtain ⟨e, he, hb⟩ := boundary_of_mem_changesOver hn
  cases (h e he).symm.trans hb

/-- What arena `b` says against a checkpoint of arena `o` it rejects. -/
def refusal (w : World tgt T) (o b : Owner) (cp : Checkpoint) : CheckpointError :=
  if b ≠ o then .foreignArena
  else if w.len b < cp.len then .beyondCurrent cp.len (w.len b)
  else .divergedPrefix cp.len

/-- What arena `b` says of a checkpoint that was good for arena `o` before the
changes `cs`. -/
theorem Shows.validateCheckpoint {w : World tgt T} {stores stores' : Owner → Store T}
    (h : w.Shows stores') {o : Owner} {cs : List (Change T)}
    (hext : (stores o).Extends cs (stores' o)) {cp : Checkpoint}
    (hv : (stores o).validateCheckpoint cp = .ok ()) (b : Owner) :
    ((stores' b).validateCheckpoint cp = .ok () ↔
        b = o ∧ ∀ n ∈ Change.boundaries cs, cp.len ≤ n) ∧
      ∀ err, (stores' b).validateCheckpoint cp = .error err →
        err = w.refusal o b cp := by
  rw [refusal, h.len_eq]
  rcases eq_or_ne b o with rfl | hne
  · refine ⟨(hext.validateCheckpoint_iff (h.ok b) hv).trans (and_iff_right rfl).symm, ?_⟩
    intro err he
    rw [if_neg (not_not.mpr rfl)]
    obtain ⟨vs, e, hst⟩ : ∃ vs e, stores b = .live vs e := by
      cases hst : stores b with
      | unused => rw [hst] at hv; cases hv
      | live vs e => exact ⟨vs, e, rfl⟩
    rw [hst] at hext hv
    obtain ⟨ds, -, hep⟩ := hext.history e rfl
    cases hst' : stores' b with
    | unused => rw [hst'] at hep; cases hep
    | live vs' e' =>
        rw [hst'] at hep he
        cases hep
        refine Store.validateCheckpoint_own ?_ he
        rw [History.birth_extend]
        exact (Store.validateCheckpoint_live.mp hv).1
  · have hforeign : (stores' b).validateCheckpoint cp = .error .foreignArena :=
      Store.validateCheckpoint_foreign fun hs =>
        hne (h.apart hs (hext.marks_subset (Store.owner_mem hv)))
    rw [hforeign, if_pos hne]
    refine ⟨⟨by intros; contradiction, fun hg => absurd hg.1 hne⟩, ?_⟩
    rintro err ⟨⟩
    rfl

/-- A checkpoint is accepted by the arena it was captured from, as long as that
arena has begun no boundary below its length, and by no other.  The other times
both the check and a rollback say why, and nothing changes. -/
theorem checkpoints_are_exact (es₁ es₂ : List (Event T)) (e : Event T) {o : Owner} {cp : Checkpoint}
    (hreply : ((initial : World tgt T).run es₁).reply e = some (o, .checkpoint cp)) (b : Owner)
    (t : ThreadId) :
    let w₁ := ((initial : World tgt T).run es₁).step e
    let w := w₁.run es₂
    let good := b = o ∧ ∀ n ∈ Change.boundaries (changesOver o w₁ es₂), cp.len ≤ n
    (w.Accepts t b cp ↔ good) ∧
      (∀ err, w.outcome t b (.validateCheckpoint cp) = .ok (.verdict (.error err)) ↔
        ¬ good ∧ err = w.refusal o b cp) ∧
      (∀ panics, (∀ err, w.outcome t b (.tryRollback cp panics) = .ok (.verdict (.error err)) ↔
          ¬ good ∧ err = w.refusal o b cp) ∧
        (¬ good → ∀ t' o' req,
          (w.step (.request t b (.tryRollback cp panics))).outcome t' o' req = w.outcome t' o' req ∧
            (w.step (.request t b (.tryRollback cp panics))).dropped o' = w.dropped o')) ∧
      (¬ w.Accepts t o cp → ∀ es₃, ¬ (w.run es₃).Accepts t o cp) ∧
      (w.Accepts t o cp → ∀ es₃, (∀ e' ∈ es₃, e'.boundary o = none) → (w.run es₃).Accepts t o cp) ∧
      (cp.len = 0 → w.Accepts t o cp) := by
  intro w₁ w good
  obtain ⟨stores₁, h₁, -⟩ := (Shows.initial : (initial : World tgt T).Shows _).run es₁
  obtain ⟨stores₂, hm⟩ := h₁.moves e
  have hcaptured := (hm.issued o _ hreply).2 cp rfl
  obtain ⟨stores₃, h₃, hext₃⟩ := hm.kept.run es₂
  -- what the store of any arena says after `es₂`, and after any run that goes on
  have hverdict := h₃.validateCheckpoint (hext₃ o) hcaptured b
  have hreject : ∀ err, (stores₃ b).validateCheckpoint cp = .error err ↔
      ¬ good ∧ err = w.refusal o b cp := by
    intro err
    constructor
    · refine fun he => ⟨fun hg => ?_, hverdict.2 err he⟩
      cases he.symm.trans (hverdict.1.mpr hg)
    · rintro ⟨hg, rfl⟩
      cases hv : (stores₃ b).validateCheckpoint cp with
      | ok u => exact absurd (hverdict.1.mp hv) hg
      | error err => rw [hverdict.2 err hv]
  have hlater : ∀ es₃, ((w.run es₃).Accepts t o cp ↔
      (∀ n ∈ Change.boundaries (changesOver o w₁ es₂), cp.len ≤ n) ∧
        ∀ n ∈ Change.boundaries (changesOver o w es₃), cp.len ≤ n) := by
    intro es₃
    obtain ⟨stores₄, h₄, hext₄⟩ := h₃.run es₃
    rw [h₄.accepts_iff, (h₄.validateCheckpoint ((hext₃ o).trans (hext₄ o)) hcaptured o).1,
      Change.boundaries_append, List.forall_mem_append]
    exact and_iff_right rfl
  have hnow : w.Accepts t o cp ↔ ∀ n ∈ Change.boundaries (changesOver o w₁ es₂), cp.len ≤ n :=
    (hlater []).trans (and_iff_left (by intros; contradiction))
  refine ⟨(h₃.accepts_iff t b cp).trans hverdict.1, ?_, fun panics => ⟨?_, ?_⟩, ?_, ?_, ?_⟩
  · intro err
    rw [h₃.outcome_validateCheckpoint, ← hreject err]
    exact ⟨fun he => Reply.verdict.inj (Except.ok.inj he), fun he => by rw [he]⟩
  · exact fun err => (h₃.outcome_tryRollback t b cp panics err).trans (hreject err)
  · intro hg t' o' req
    obtain ⟨hp, hs⟩ := h₃.step_rejected t b panics ((hreject _).mpr ⟨hg, rfl⟩)
    exact outcome_congr hp hs t' o' req
  · exact fun hn es₃ ha => hn (hnow.mpr ((hlater es₃).mp ha).1)
  · intro ha es₃ hes
    refine (hlater es₃).mpr ⟨hnow.mp ha, ?_⟩
    rw [w.boundaries_changesOver hes]
    intros; contradiction
  · exact fun hz => hnow.mpr fun n _ => hz ▸ Nat.zero_le n

/-- The rollback of a concurrent arena to length 1 ends early.  Its boundary is
below the checkpoint of length 2, which is refused from then on, and again once
the arena is that long again. -/
theorem checkpoints_are_exact_interrupted :
    let tgt : Target := ⟨8, fun _ => true⟩
    let cp : Checkpoint := ⟨.nth 0, 2, some (.nth 0)⟩
    let w : World tgt Nat := (initial.run [.alone 0 0 (.allocBlock ⟨[8, 9], false⟩)]).step
      (.alone 0 0 .checkpoint)
    let es : List (Event Nat) := [.single (.request 1 0 (.alloc 5)),
      .alone 1 0 (.tryRollback ⟨.nth 0, 1, some (.nth 0)⟩ fun _ _ => true), .alone 0 0 (.alloc 7)]
    ¬ (w.run es).Accepts 0 (.shared 0) cp ∧
      (w.run es).outcome 0 (.shared 0) (.tryRollback cp fun _ _ => false)
        = .ok (.verdict (.error (.divergedPrefix 2))) ∧
      (w.run es).outcome 0 (.single 0) (.validateCheckpoint cp)
        = .ok (.verdict (.error .foreignArena)) := by
  intro tgt cp w es
  have hreply : ((initial : World tgt Nat).run [.alone 0 0 (.allocBlock ⟨[8, 9], false⟩)]).reply
      (.alone 0 0 .checkpoint) = some (.shared 0, .checkpoint cp) := by decide +kernel
  have h := checkpoints_are_exact [.alone 0 0 (.allocBlock ⟨[8, 9], false⟩)] es
    (.alone 0 0 .checkpoint) hreply
  have hb : Change.boundaries (changesOver (.shared 0) w es) = [1] := by decide +kernel
  have hbad : ¬ ∀ n ∈ Change.boundaries (changesOver (.shared 0) w es), cp.len ≤ n := by
    rw [hb]
    exact fun hle => absurd (hle 1 (List.mem_singleton_self 1)) (by decide)
  have hlen : (w.run es).len (.shared 0) = 2 := by decide +kernel
  refine ⟨fun ha => hbad ((h (.shared 0) 0).1.mp ha).2, ?_, ?_⟩
  · refine ((h (.shared 0) 0).2.2.1 _).1 _ |>.mpr ⟨fun hg => hbad hg.2, ?_⟩
    rw [refusal, hlen]
    rfl
  · exact ((h (.single 0) 0).2.1 _).mpr ⟨fun hg => (by cases hg.1), rfl⟩

end World

end SafeBump
