import SafeBump.Checkpoints
import SafeBump.Conservation
import SafeBump.Issuance

/-!
# Interrupted rollbacks

A rollback to a boundary `n` that a destructor interrupts leaves its commit
behind and values above `n` in their slots.  The caller may try again at once, or
put values in first.  In the meantime every event either begins no boundary or
begins `n` again (`World.Event.Retries`).  So the prefix below `n` and its handles
stay good, the old handles above `n` never come back, and each interrupted
attempt leaves at least one value fewer than it found.
-/

namespace SafeBump

open Library.Unwind

variable {tgt : Target} {T : Type}

/-- A drop loop over the values `vs` went from the top down to slot `k` and ended
with `r`. -/
structure DroppedDown (panics : Dtor T) (n : Nat) (vs d : List T) (r : Except Exit (Reply T))
    (vs' d' : List T) (k : Nat) : Prop where
  floor : n ≤ k
  fits : k ≤ vs.length
  values : vs' = vs.take k
  dropped : d' = d ++ (vs.drop k).reverse
  above : ∀ j v, k < j → vs[j]? = some v → panics j v = false
  ending : (∃ reply, r = .ok reply) ∧ k = n ∧ (∀ v, vs[k]? = some v → panics k v = false) ∨
    r = .error (.unwinds .destructor) ∧ ∃ v, vs[k]? = some v ∧ panics k v = true

/-- How many of the destructors panic when the values from slot `k` on are dropped. -/
def panicsFrom (panics : Dtor T) (vs : List T) (k : Nat) : Nat :=
  (vs.zipIdx.drop k).countP fun p => panics p.2 p.1

/-- A destructor panicked. -/
def interrupted : Except Exit (Reply T) → Bool
  | .error (.unwinds .destructor) => true
  | _ => false

theorem panicsFrom_eq_zero {panics : Dtor T} {vs : List T} {k : Nat}
    (h : ∀ j v, k ≤ j → vs[j]? = some v → panics j v = false) : panicsFrom panics vs k = 0 := by
  refine List.countP_eq_zero.mpr fun p hp => ?_
  obtain ⟨i, hi⟩ := List.mem_iff_getElem?.mp hp
  rw [List.getElem?_drop, List.getElem?_zipIdx] at hi
  obtain ⟨v, hv, rfl⟩ := Option.map_eq_some_iff.mp hi
  have hno := h _ v (Nat.le_add_right k i) hv
  simpa using hno

/-- The value at slot `k` comes last. -/
theorem panicsFrom_succ {panics : Dtor T} {vs : List T} {k : Nat} {v : T} (hv : vs[k]? = some v) :
    panicsFrom panics vs k = panicsFrom panics vs (k + 1) + if panics k v then 1 else 0 := by
  have hget : vs.zipIdx[k]? = some (v, k) := by
    rw [List.getElem?_zipIdx, hv, Option.map_some, Nat.zero_add]
  obtain ⟨hlt, hk⟩ := List.getElem?_eq_some_iff.mp hget
  rw [panicsFrom, panicsFrom, List.drop_eq_getElem_cons hlt, hk, List.countP_cons]

namespace DroppedDown

variable {panics : Dtor T} {n k : Nat} {vs d vs' d' : List T} {r : Except Exit (Reply T)}

/-- The loop of a cut, by where it stopped. -/
theorem of_stop {stop : Option Nat} (hn : n ≤ vs.length)
    (hstop : stop = lastPanic panics vs n vs.length)
    (hvalues : vs' = vs.take (stop.getD n)) (hdropped : d' = d ++ (vs.drop (stop.getD n)).reverse)
    (hr : (∃ reply, r = .ok reply) ∧ stop = none ∨
      r = .error (.unwinds .destructor) ∧ stop.isSome = true) :
    DroppedDown panics n vs d r vs' d' (stop.getD n) := by
  cases stop with
  | none =>
      have hno : ∀ j v, n ≤ j → vs[j]? = some v → panics j v = false := fun j v hj hv =>
        Store.lastPanic_none hstop.symm hj (List.getElem?_eq_some_iff.mp hv).1 hv
      obtain ⟨hok, -⟩ | ⟨-, hsome⟩ := hr
      · exact ⟨Nat.le_refl n, hn, hvalues, hdropped, fun j v hj hv => hno j v (Nat.le_of_lt hj) hv,
          .inl ⟨hok, rfl, fun v hv => hno n v (Nat.le_refl n) hv⟩⟩
      · cases hsome
  | some k =>
      obtain ⟨hpanics, habove⟩ := Store.lastPanic_some hstop.symm
      obtain ⟨-, hnone⟩ | ⟨hd, -⟩ := hr
      · cases hnone
      · obtain ⟨hfloor, hlt⟩ := Store.lastPanic_bounds hstop.symm
        exact ⟨hfloor, Nat.le_of_lt hlt, hvalues, hdropped, fun j v hj hv =>
          habove j v hj (List.getElem?_eq_some_iff.mp hv).1 hv, .inr ⟨hd, hpanics⟩⟩

/-- An interrupted loop ran one destructor that panics, and a complete one none. -/
theorem panicsFrom_eq (h : DroppedDown panics n vs d r vs' d' k) :
    panicsFrom panics vs k = if interrupted r then 1 else 0 := by
  rcases h.ending with ⟨⟨reply, rfl⟩, -, hlast⟩ | ⟨rfl, v, hv, hp⟩
  · refine panicsFrom_eq_zero fun j v hj hv => ?_
    rcases Nat.eq_or_lt_of_le hj with rfl | hlt
    · exact hlast v hv
    · exact h.above j v hlt hv
  · have hzero : panicsFrom panics vs (k + 1) = 0 :=
      panicsFrom_eq_zero fun j v hj hv => h.above j v hj hv
    rw [panicsFrom_succ hv, hzero, hp]
    rfl

/-- An interrupted loop leaves fewer values above the boundary than it found. -/
theorem length_le (h : DroppedDown panics n vs d r vs' d' k) :
    (if interrupted r then 1 else 0) + (vs'.length - n) ≤ vs.length - n := by
  have hfloor := h.floor
  rw [h.values, List.length_take]
  rcases h.ending with ⟨⟨reply, rfl⟩, -, -⟩ | ⟨rfl, v, hv, -⟩
  · simp only [interrupted, Bool.false_eq_true, if_false]
    omega
  · obtain ⟨hlt, -⟩ := List.getElem?_eq_some_iff.mp hv
    simp only [interrupted, if_true]
    omega

end DroppedDown

namespace World

/-- What may happen on an arena while it is being cut down to `n`: what begins no
boundary, and attempts to begin `n`, by a reset or through a checkpoint that is
accepted. -/
def Event.Retries (w : World tgt T) (o : Owner) (n : Nat) (e : Event T) : Prop :=
  ¬ e.Writes o ∧ (e.boundary o = none ∨ ∃ t panics, e = .request t o (.reset panics) ∧ n = 0 ∨
    ∃ cp, e = .request t o (.tryRollback cp panics) ∧ cp.len = n ∧ w.Accepts t o cp)

/-- An attempt to cut an arena down: the destructors it has to run, and how it ended. -/
def attempt (w : World tgt T) (o : Owner) : Event T → Option (Dtor T × Except Exit (Reply T))
  | .single (.request t n req) =>
      if o = .single n then req.dtor.map fun panics => (panics, w.outcome t o req) else none
  | .alone t n req =>
      if o = .shared n ∧ (w.shareds n).quiet then
        req.dtor.map fun panics => (panics, w.outcome t o req)
      else none
  | _ => none

/-- How the attempts of a run to cut an arena down ended. -/
def attemptsOver (o : Owner) : World tgt T → List (Event T) → List (Except Exit (Reply T))
  | _, [] => []
  | w, e :: es => ((w.attempt o e).map Prod.snd).toList ++ attemptsOver o (w.step e) es

/-- How many of the values an attempt dropped had a panicking destructor. -/
def panicsAt (w : World tgt T) (o : Owner) (e : Event T) : Nat :=
  match w.attempt o e with
  | none => 0
  | some (panics, _) => panicsFrom panics (w.contents o) ((w.step e).len o)

/-- How many of the values the attempts of a run dropped had a panicking destructor. -/
def panicsOver (o : Owner) : World tgt T → List (Event T) → Nat
  | _, [] => 0
  | w, e :: es => w.panicsAt o e + panicsOver o (w.step e) es

section Retry

variable {w : World tgt T} {stores : Owner → Store T} {o : Owner} {n : Nat}

theorem attempt_request (t : ThreadId) (req : Request T) : w.attempt o (.request t o req) =
    if w.quiet o then req.dtor.map fun panics => (panics, w.outcome t o req) else none := by
  cases o with
  | single n => exact if_pos rfl
  | shared n =>
      rw [Event.request, attempt]
      exact if_congr (and_iff_right rfl) rfl rfl

/-- Only a request with destructors to run is an attempt. -/
theorem attempt_eq_none {e : Event T} (h : e.boundary o = none) : w.attempt o e = none := by
  have hnone : ∀ {req : Request T} (f : Dtor T → Dtor T × Except Exit (Reply T)),
      req.boundary = none → req.dtor.map f = none := by
    intro req f hb
    cases req with
    | tryRollback cp panics => cases hb
    | reset panics => cases hb
    | _ => rfl
  cases e with
  | single e =>
      cases e with
      | request t m req =>
          rw [attempt]
          split
          · rename_i ho
            rw [Event.boundary, if_pos ho] at h
            exact hnone _ h
          · rfl
      | write m f => rfl
      | draw t => rfl
      | exit t => rfl
  | start m t ask => rfl
  | step m i mishap => rfl
  | alone t m req =>
      rw [attempt]
      split
      · rename_i ho
        rw [Event.boundary, if_pos ho.1] at h
        exact hnone _ h
      · rfl

theorem boundary_request (t : ThreadId) (o : Owner) (req : Request T) :
    (Event.request t o req).boundary o = req.boundary := by
  cases o <;> exact if_pos rfl

theorem changes_request (t : ThreadId) (req : Request T) : w.changes o (.request t o req) =
    if w.quiet o then Change.ofBoundary (committed req (w.outcome t o req)) else [] := by
  cases o with
  | single n => exact if_pos rfl
  | shared n =>
      rw [Event.request, changes]
      exact if_congr (and_iff_right rfl) rfl rfl

/-- Only a request hands values out. -/
theorem request_or_yields_nothing (w : World tgt T) (o : Owner) (e : Event T) :
    (∃ t req, e = .request t o req) ∨ w.yielded o e = [] := by
  cases e with
  | single e =>
      cases e with
      | request t m req =>
          rcases eq_or_ne o (.single m) with rfl | hne
          · exact .inl ⟨t, req, rfl⟩
          · exact .inr (if_neg hne)
      | write m f => exact .inr rfl
      | draw t => exact .inr rfl
      | exit t => exact .inr rfl
  | start m t ask => exact .inr rfl
  | step m i mishap => exact .inr rfl
  | alone t m req =>
      rcases eq_or_ne o (.shared m) with rfl | hne
      · exact .inl ⟨t, req, rfl⟩
      · exact .inr (if_neg fun he => hne he.1)

theorem yielded_request (t : ThreadId) (req : Request T) : w.yielded o (.request t o req) =
    if w.quiet o then handedOut (w.outcome t o req) else [] := by
  cases o with
  | single n => exact if_pos rfl
  | shared n =>
      rw [Event.request, yielded]
      exact if_congr (and_iff_right rfl) rfl rfl

/-- Writes apart, an event rewrites nothing. -/
theorem rewritten_changes {e : Event T} (h : ¬ e.Writes o) (slot : Nat) (v : T) :
    Change.rewritten slot (w.changes o e) v = v := by
  have hnone : ∀ b, Change.rewritten slot (Change.ofBoundary b) v = v := fun b => by cases b <;> rfl
  cases e with
  | single e =>
      cases o with
      | shared m => rfl
      | single m =>
          cases e with
          | request t k req =>
              rw [changes, Process.changes]
              split
              · exact hnone _
              · rfl
          | write k f =>
              rw [changes, Process.changes, if_neg fun he => h (congrArg Owner.single he).symm]
              rfl
          | draw t => rfl
          | exit t => rfl
  | start m t ask => rfl
  | step m i mishap => rfl
  | alone t m req =>
      rw [changes]
      split
      · exact hnone _
      · rfl

/-- No boundary but `n` begins meanwhile. -/
theorem Event.Retries.boundaries {e : Event T} {w₀ : World tgt T} (h : e.Retries w₀ o n)
    (w : World tgt T) : ∀ b ∈ Change.boundaries (w.changes o e), b = n := by
  have hrequest : ∀ (t : ThreadId) (req : Request T), req.boundary = some n →
      ∀ b ∈ Change.boundaries (w.changes o (.request t o req)), b = n := by
    intro t req hreq b hb
    rw [changes_request] at hb
    split at hb
    · cases hc : committed req (w.outcome t o req) with
      | none => rw [hc] at hb; cases hb
      | some m =>
          rw [hc] at hb
          rw [List.mem_singleton.mp hb]
          exact Option.some.inj ((boundary_of_committed hc).symm.trans hreq)
    · cases hb
  obtain ⟨-, hnone | ⟨t, panics, ⟨rfl, rfl⟩ | ⟨cp, rfl, rfl, -⟩⟩⟩ := h
  · rw [w.boundaries_changes hnone]
    intros; contradiction
  · exact hrequest t _ rfl
  · exact hrequest t _ rfl

/-- What was a way to go on stays one. -/
theorem Event.Retries.after (hall : ∀ k, tgt.allocates k = true) (h : w.Stores stores)
    {e e' : Event T} (he : e.Retries w o n) (he' : e'.Retries w o n) :
    e'.Retries (w.step e) o n := by
  obtain ⟨hw, hnone | ⟨t, panics, hreset | ⟨cp, rfl, hlen, hcp⟩⟩⟩ := he'
  · exact ⟨hw, .inl hnone⟩
  · exact ⟨hw, .inr ⟨t, panics, .inl hreset⟩⟩
  · obtain ⟨stores', hf⟩ := h.follows hall e
    refine ⟨hw, .inr ⟨t, panics, .inr ⟨cp, rfl, hlen, ?_⟩⟩⟩
    rw [hf.kept.accepts_iff,
      (hf.extended o).validateCheckpoint_iff (hf.kept.ok o) ((h.accepts_iff t o cp).mp hcp)]
    exact fun b hb => Nat.le_of_eq (hlen.trans (he.boundaries w b hb).symm)

/-- What an attempt is. -/
theorem Event.Retries.of_attempt {e : Event T} (he : e.Retries w o n) {panics : Dtor T}
    {r : Except Exit (Reply T)} (ha : w.attempt o e = some (panics, r)) : w.quiet o = true ∧
      ∃ t req, e = .request t o req ∧ req.dtor = some panics ∧ req.boundary = some n ∧
        r = w.outcome t o req ∧
        (req = .reset panics ∨ ∃ cp, req = .tryRollback cp panics ∧ w.Accepts t o cp) := by
  have hrequest : ∀ (t : ThreadId) (req : Request T) (panics' : Dtor T), req.dtor = some panics' →
      w.attempt o (.request t o req) = some (panics, r) →
      w.quiet o = true ∧ panics' = panics ∧ r = w.outcome t o req := by
    intro t req panics' hd ha
    rw [attempt_request, hd] at ha
    split at ha
    · cases ha
      exact ⟨‹_›, rfl, rfl⟩
    · cases ha
  obtain ⟨-, hnone | ⟨t, panics', ⟨rfl, rfl⟩ | ⟨cp, rfl, rfl, hcp⟩⟩⟩ := he
  · cases (attempt_eq_none hnone).symm.trans ha
  · obtain ⟨hquiet, rfl, hr⟩ := hrequest t _ panics' rfl ha
    exact ⟨hquiet, t, _, rfl, rfl, rfl, hr, .inl rfl⟩
  · obtain ⟨hquiet, rfl, hr⟩ := hrequest t _ panics' rfl ha
    exact ⟨hquiet, t, _, rfl, rfl, rfl, hr, .inr ⟨cp, rfl, hcp⟩⟩

/-- Without a reason to reject it a request commits its boundary. -/
theorem committed_ok {req : Request T} {reply : Reply T} (hb : req.boundary = some n)
    (h : ∀ err, reply ≠ .verdict (.error err)) : committed req (.ok reply) = some n := by
  cases reply with
  | verdict v =>
      cases v with
      | error err => exact absurd rfl (h err)
      | ok u => exact hb
  | _ => exact hb

/-- A reset has no reason to end with. -/
theorem outcome_reset (w : World tgt T) (t : ThreadId) (o : Owner) (panics : Dtor T)
    {reply : Reply T}
    (h : w.outcome t o (.reset panics) = .ok reply) : reply = .done := by
  cases o with
  | single m =>
      obtain ⟨_, -, hr⟩ := run_map_ok (eq_ok_of_ending h)
      exact hr
  | shared m =>
      obtain ⟨_, -, hr⟩ := run_map_ok (eq_ok_of_ending h)
      exact hr

/-- An attempt that finds a stamp commits its boundary. -/
theorem Stores.request_commits (hall : ∀ k, tgt.allocates k = true) (h : w.Stores stores)
    {t : ThreadId} {req : Request T} {panics : Dtor T} (hquiet : w.quiet o = true)
    (hd : req.dtor = some panics) (hb : req.boundary = some n)
    (hreq : req = .reset panics ∨ ∃ cp, req = .tryRollback cp panics ∧ w.Accepts t o cp) :
    w.outcome t o req = .error (.unwinds .stampSpaceExhausted) ∨
      committed req (w.outcome t o req) = some n ∧
        ((∃ reply, w.outcome t o req = .ok reply) ∨
          w.outcome t o req = .error (.unwinds .destructor)) := by
  obtain ⟨stores', hf⟩ := h.follows hall (.request t o req)
  have hserved := hf.served t o req rfl hquiet
  cases hr : w.outcome t o req with
  | ok reply =>
      refine .inr ⟨committed_ok hb ?_, .inl ⟨reply, rfl⟩⟩
      rcases hreq with rfl | ⟨cp, rfl, hcp⟩
      · rw [w.outcome_reset t o panics hr]
        exact fun _ he => by cases he
      · rintro err rfl
        exact h.outcome_accepted t o panics ((h.accepts_iff t o cp).mp hcp) err hr
  | error e =>
      rcases hserved.ended panics e hd hr with rfl | rfl
      · exact .inr ⟨hb, .inr rfl⟩
      · exact .inl rfl

theorem Stores.attempt_commits (hall : ∀ k, tgt.allocates k = true) (h : w.Stores stores)
    {e : Event T} (he : e.Retries w o n) {panics : Dtor T} {r : Except Exit (Reply T)}
    (ha : w.attempt o e = some (panics, r)) : r = .error (.unwinds .stampSpaceExhausted) ∨
      Change.boundaries (w.changes o e) = [n] ∧
        ((∃ reply, r = .ok reply) ∨ r = .error (.unwinds .destructor)) := by
  obtain ⟨hquiet, t, req, rfl, hd, hb, rfl, hreq⟩ := he.of_attempt ha
  refine (h.request_commits hall hquiet hd hb hreq).imp_right (And.imp_left fun hc => ?_)
  rw [changes_request, if_pos hquiet, hc]
  rfl

/-- An attempt drops values from the top until a destructor panics, unless there
is no stamp to be had. -/
theorem Stores.attempt_spec (hall : ∀ k, tgt.allocates k = true) (h : w.Stores stores) {e : Event T}
    (he : e.Retries w o n) {panics : Dtor T} {r : Except Exit (Reply T)}
    (ha : w.attempt o e = some (panics, r)) :
    (r = .error (.unwinds .stampSpaceExhausted) ∧ (w.step e).contents o = w.contents o ∧
        (w.step e).dropped o = w.dropped o) ∨
      ∃ k, DroppedDown panics n (w.contents o) (w.dropped o) r ((w.step e).contents o)
        ((w.step e).dropped o) k := by
  obtain ⟨hquiet, t, req, rfl, hd, hb, rfl, hreq⟩ := he.of_attempt ha
  obtain ⟨stores', hf⟩ := h.follows hall (.request t o req)
  have hserved := hf.served t o req rfl hquiet
  rw [h.contents_eq, hf.kept.contents_eq]
  rcases h.request_commits hall hquiet hd hb hreq with hr | ⟨hc, hend⟩
  · obtain ⟨src', -, hctx⟩ := hserved.starved hr
    have hst : stores' o = stores o := congrArg Ctx.arena hctx
    have hdr : (w.step (.request t o req)).dropped o = w.dropped o ++ req.moved :=
      congrArg Ctx.dropped hctx
    have hmoved : req.moved = [] := by
      rcases hreq with rfl | ⟨cp, rfl, -⟩ <;> rfl
    rw [hmoved, List.append_nil] at hdr
    exact .inl ⟨hr, congrArg Store.values hst, hdr⟩
  · have hn : n ≤ (stores o).values.length := by
      rcases hreq with rfl | ⟨cp, rfl, hcp⟩
      · cases hb
        exact Nat.zero_le _
      · cases hb
        exact Store.validateCheckpoint_ok ((h.accepts_iff t o cp).mp hcp)
    obtain ⟨hvalues, hdropped, hiff⟩ := hserved.cut panics n hd hc
    refine .inr ⟨_, .of_stop hn rfl hvalues hdropped ?_⟩
    rcases hend with ⟨reply, hr⟩ | hr
    · refine .inl ⟨⟨reply, hr⟩, Option.not_isSome_iff_eq_none.mp fun hsome => ?_⟩
      cases hr.symm.trans (hiff.mpr hsome)
    · exact .inr ⟨hr, hiff.mp hr⟩

theorem request_inj {t t' : ThreadId} {req req' : Request T}
    (h : Event.request t o req = .request t' o req') : req = req' := by
  cases o <;> cases h <;> rfl

/-- Nothing is handed out meanwhile. -/
theorem Stores.retry_yields (hall : ∀ k, tgt.allocates k = true) (h : w.Stores stores) {e : Event T}
    (he : e.Retries w o n) : w.yielded o e = [] := by
  rcases w.request_or_yields_nothing o e with ⟨t, req, rfl⟩ | hnone
  · rw [yielded_request]
    split
    · rename_i hquiet
      obtain ⟨stores', hf⟩ := h.follows hall (.request t o req)
      refine (hf.served t o req rfl hquiet).yielded ?_
      rintro rfl
      obtain ⟨-, hnone | ⟨t', panics, ⟨heq, -⟩ | ⟨cp, heq, -⟩⟩⟩ := he
      · cases (boundary_request t o _).symm.trans hnone
      · cases request_inj heq
      · cases request_inj heq
    · rfl
  · exact hnone

/-- The account of an attempt, and of what happens in between: an interrupted
attempt runs one panicking destructor and leaves fewer values above the boundary. -/
theorem Stores.retry_counts (hall : ∀ k, tgt.allocates k = true) (h : w.Stores stores)
    (hbare : ∀ n, (w.shareds n).Bare) {e : Event T} (he : e.Retries w o n) :
    let fails := ((w.attempt o e).map Prod.snd).toList.countP interrupted
    fails = w.panicsAt o e ∧
      fails + (((w.step e).holding o).length - n)
        ≤ ((w.holding o).length - n) + (w.moved o e).length := by
  intro fails
  have hconserved := congrArg Multiset.card (h.step_conserves hall hbare o he.1)
  simp only [Multiset.card_add, Multiset.coe_card] at hconserved
  have hdropped := (h.dropped_step hall o e).length_le
  cases ha : w.attempt o e with
  | none =>
      have hfails : fails = 0 := by
        simp only [fails, ha]
        rfl
      have hpanics : w.panicsAt o e = 0 := by rw [panicsAt, ha]
      rw [hfails, hpanics]
      exact ⟨rfl, by omega⟩
  | some p =>
      obtain ⟨panics, r⟩ := p
      obtain ⟨hquiet, t, req, rfl, -⟩ := he.of_attempt ha
      obtain ⟨stores', hf⟩ := h.follows hall (.request t o req)
      have hfails : fails = if interrupted r then 1 else 0 := by
        simp only [fails, ha, Option.map_some, Option.toList_some, List.countP_singleton]
      have hpanics : w.panicsAt o (.request t o req)
          = panicsFrom panics (w.contents o) ((w.step (.request t o req)).contents o).length := by
        rw [panicsAt, ha, hf.kept.len_eq, hf.kept.contents_eq]
      rw [hfails, hpanics, h.holding_eq hquiet,
        hf.stores.holding_eq (w.quiet_step_request t req hquiet)]
      rcases h.attempt_spec hall he ha with ⟨rfl, hcontents, -⟩ | ⟨k, hk⟩
      · rw [hcontents]
        refine ⟨(panicsFrom_eq_zero fun j v hj hv => ?_).symm, ?_⟩
        · rw [List.getElem?_eq_none hj] at hv
          cases hv
        · exact Nat.le_trans (Nat.le_of_eq (Nat.zero_add _)) (Nat.le_add_right _ _)
      · have hlen : ((w.step (.request t o req)).contents o).length = k := by
          rw [hk.values, List.length_take, Nat.min_eq_left hk.fits]
        refine ⟨?_, Nat.le_trans hk.length_le (Nat.le_add_right _ _)⟩
        rw [hlen, hk.panicsFrom_eq]

/-! ## Runs of attempts -/

variable {es : List (Event T)}

theorem boundaries_retries {w₀ : World tgt T} (hes : ∀ e ∈ es, e.Retries w₀ o n) (w : World tgt T) :
    ∀ b ∈ Change.boundaries (changesOver o w es), b = n := by
  induction es generalizing w with
  | nil => intros; contradiction
  | cons e es ih =>
      obtain ⟨he, hes⟩ := List.forall_mem_cons.mp hes
      rw [changesOver, Change.boundaries_append]
      exact List.forall_mem_append.mpr ⟨he.boundaries w, ih hes (w.step e)⟩

theorem rewritten_changesOver (hes : ∀ e ∈ es, ¬ e.Writes o) (w : World tgt T)
    (slot : Nat) (v : T) :
    Change.rewritten slot (changesOver o w es) v = v := by
  induction es generalizing w with
  | nil => rfl
  | cons e es ih =>
      obtain ⟨he, hes⟩ := List.forall_mem_cons.mp hes
      rw [changesOver, Change.rewritten_append, rewritten_changes he, ih hes]

theorem bare_run (h : ∀ m, (w.shareds m).Bare) (es : List (Event T)) (m : Nat) :
    ((w.run es).shareds m).Bare :=
  forall_calls_run (fun ask => ask.start_bare.1)
    (fun _ answer mishap a _ hb => Ask.move_bare answer mishap a hb) h es m

theorem attemptsOver_append (o : Owner) (w : World tgt T) (es es' : List (Event T)) :
    attemptsOver o w (es ++ es') = attemptsOver o w es ++ attemptsOver o (w.run es) es' := by
  induction es generalizing w with
  | nil => rfl
  | cons e es ih =>
      rw [List.cons_append, attemptsOver, attemptsOver, ih, run_cons, List.append_assoc]

theorem Event.Retries.run (hall : ∀ k, tgt.allocates k = true) (h : w.Stores stores)
    (hes : ∀ e ∈ es, e.Retries w o n) {e' : Event T} (he' : e'.Retries w o n) :
    e'.Retries (w.run es) o n := by
  induction es generalizing w stores with
  | nil => exact he'
  | cons e es ih =>
      obtain ⟨he, hes⟩ := List.forall_mem_cons.mp hes
      obtain ⟨stores', hf⟩ := h.follows hall e
      exact ih hf.stores (fun e'' he'' => he.after hall h (hes e'' he'')) (he.after hall h he')

/-- Attempts that find a stamp begin the boundary, and then only a destructor keeps
them from getting through. -/
theorem Stores.attempts_end (hall : ∀ k, tgt.allocates k = true) (h : w.Stores stores)
    (hes : ∀ e ∈ es, e.Retries w o n) {r : Except Exit (Reply T)} (hr : r ∈ attemptsOver o w es) :
    r = .error (.unwinds .stampSpaceExhausted) ∨
      n ∈ Change.boundaries (changesOver o w es) ∧
        ((∃ reply, r = .ok reply) ∨ r = .error (.unwinds .destructor)) := by
  induction es generalizing w stores with
  | nil => cases hr
  | cons e es ih =>
      obtain ⟨he, hes⟩ := List.forall_mem_cons.mp hes
      obtain ⟨stores', hf⟩ := h.follows hall e
      rw [changesOver, Change.boundaries_append, List.mem_append]
      rcases List.mem_append.mp hr with hr | hr
      · obtain ⟨⟨panics, r'⟩, ha, rfl⟩ := Option.map_eq_some_iff.mp (Option.mem_toList.mp hr)
        refine (h.attempt_commits hall he ha).imp_right (And.imp_left fun hb => .inl ?_)
        rw [hb]
        exact List.mem_singleton_self n
      · exact (ih hf.stores (fun e' he' => he.after hall h (hes e' he')) hr).imp_right
          (And.imp_left .inr)

theorem Stores.retries_yield (hall : ∀ k, tgt.allocates k = true) (h : w.Stores stores)
    (hes : ∀ e ∈ es, e.Retries w o n) : yieldedOver o w es = [] := by
  induction es generalizing w stores with
  | nil => rfl
  | cons e es ih =>
      obtain ⟨he, hes⟩ := List.forall_mem_cons.mp hes
      obtain ⟨stores', hf⟩ := h.follows hall e
      rw [yieldedOver, h.retry_yields hall he,
        ih hf.stores fun e' he' => he.after hall h (hes e' he'), List.append_nil]

/-- The account of a run of attempts. -/
theorem Stores.retries_count (hall : ∀ k, tgt.allocates k = true) (h : w.Stores stores)
    (hbare : ∀ m, (w.shareds m).Bare) (hes : ∀ e ∈ es, e.Retries w o n) :
    let fails := (attemptsOver o w es).countP interrupted
    fails = panicsOver o w es ∧
      fails + (((w.run es).holding o).length - n)
        ≤ ((w.holding o).length - n) + (movedOver o w es).length := by
  induction es generalizing w stores with
  | nil => exact ⟨rfl, Nat.le_of_eq (Nat.zero_add _)⟩
  | cons e es ih =>
      obtain ⟨he, hes⟩ := List.forall_mem_cons.mp hes
      obtain ⟨stores', hf⟩ := h.follows hall e
      obtain ⟨hpanics, hle⟩ := h.retry_counts hall hbare he
      obtain ⟨hpanics', hle'⟩ := ih hf.stores (bare_step hbare e) fun e' he' =>
        he.after hall h (hes e' he')
      rw [attemptsOver, panicsOver, movedOver, List.countP_append, List.length_append, run_cons]
      exact ⟨by rw [hpanics, hpanics'], by omega⟩

/-- The slots below the boundary keep their values. -/
theorem Stores.retries_take (hall : ∀ k, tgt.allocates k = true) (h : w.Stores stores)
    (hes : ∀ e ∈ es, e.Retries w o n) (hn : n ≤ (w.contents o).length) :
    ((w.run es).contents o).take n = (w.contents o).take n := by
  obtain ⟨stores', h', hext⟩ := h.run hall es
  rw [h'.contents_eq, h.contents_eq]
  rw [h.contents_eq] at hn
  refine List.ext_getElem? fun slot => ?_
  rcases Nat.lt_or_ge slot n with hlt | hge
  · have hget := List.getElem?_eq_getElem (Nat.lt_of_lt_of_le hlt hn)
    have hkept := (hext o).kept slot _ hget fun b hb => by
      rw [boundaries_retries hes w b hb]
      exact hlt
    rw [rewritten_changesOver (fun e he => (hes e he).1)] at hkept
    rw [List.getElem?_take_of_lt hlt, List.getElem?_take_of_lt hlt, hkept, hget]
  · rw [List.getElem?_take_eq_none hge, List.getElem?_take_eq_none hge]

/-- Checkpoints at or below the boundary and handles below it stay good, and
handles above it are refused once an attempt was made. -/
theorem Stores.retries_keep (hall : ∀ k, tgt.allocates k = true) (h : w.Stores stores)
    (hes : ∀ e ∈ es, e.Retries w o n)
    (hstamps : .error (.unwinds .stampSpaceExhausted) ∉ attemptsOver o w es) (t : ThreadId) :
    (∀ cp, cp.len ≤ n → w.Accepts t o cp → (w.run es).Accepts t o cp) ∧
      ∀ idx, (stores o).isValid idx = true →
        (idx.slot < n → (w.run es).outcome t o (.isValid idx) = .ok (.valid true) ∧
          (w.run es).outcome t o (.tryGet idx) = w.outcome t o (.tryGet idx)) ∧
        (n ≤ idx.slot → attemptsOver o w es ≠ [] →
          (w.run es).outcome t o (.isValid idx) = .ok (.valid false) ∧
            (w.run es).outcome t o (.tryGet idx) = .ok (.value none)) := by
  obtain ⟨stores', h', hext⟩ := h.run hall es
  have hbound := boundaries_retries hes w
  refine ⟨fun cp hlen hcp => ?_, fun idx hv => ?_⟩
  · rw [h'.accepts_iff, (hext o).validateCheckpoint_iff (h'.ok o) ((h.accepts_iff t o cp).mp hcp)]
    exact fun b hb => (hbound b hb).symm ▸ hlen
  · have hiff := (hext o).isValid_iff (h'.ok o) hv
    have hknown : (stores' o).Known idx := (Store.Known.of_isValid hv).later (hext o)
    have hsound := (Store.Known.of_isValid hv).sound (h.ok o)
    have hsound' := hknown.sound (h'.ok o)
    rw [h'.outcome_isValid t o hsound', h'.outcome_tryGet t o hsound', h.outcome_tryGet t o hsound]
    refine ⟨fun hlt => ?_, fun hge hne => ?_⟩
    · have hv' := hiff.mpr fun b hb => (hbound b hb).symm ▸ hlt
      have hget := (hext o).tryGet_eq (h'.ok o) hv hv'
      have hid : Change.rewritten idx.slot (changesOver o w es) = id := funext fun v =>
        rewritten_changesOver (fun e he => (hes e he).1) w idx.slot v
      rw [hid, Option.map_id] at hget
      exact ⟨by rw [hv'], congrArg (fun v => Except.ok (Reply.value v)) hget⟩
    · obtain ⟨r, hr⟩ := List.exists_mem_of_ne_nil _ hne
      have hn : n ∈ Change.boundaries (changesOver o w es) :=
        ((h.attempts_end hall hes hr).resolve_left fun he => hstamps (he ▸ hr)).1
      have hno : (stores' o).isValid idx = false := Bool.eq_false_iff.mpr fun hv' =>
        Nat.not_le_of_lt (hiff.mp hv' n hn) hge
      rw [Store.tryGet, hno]
      exact ⟨rfl, rfl⟩

/-- An attempt that gets through leaves the prefix of the beginning, and drops what
was above it then and what was put in since. -/
theorem Stores.retries_attempt (hall : ∀ k, tgt.allocates k = true) (h : w.Stores stores)
    (hbare : ∀ m, (w.shareds m).Bare) (hquiet : w.quiet o = true)
    (hn : n ≤ (w.contents o).length) (hes : ∀ e ∈ es, e.Retries w o n) {e : Event T}
    (he : e.Retries w o n) {panics : Dtor T} {r : Except Exit (Reply T)}
    (ha : (w.run es).attempt o e = some (panics, r))
    (hstamp : r ≠ .error (.unwinds .stampSpaceExhausted)) :
    let v := w.run es
    let v' := v.step e
    (∃ k, DroppedDown panics n (v.contents o) (v.dropped o) r (v'.contents o) (v'.dropped o) k) ∧
      ((∃ reply, r = .ok reply) → v'.len o = n ∧ v'.contents o = (w.contents o).take n ∧
        (v'.dropped o : Multiset T)
          = w.dropped o + (w.contents o).drop n + movedOver o w es) := by
  intro v v'
  obtain ⟨stores₁, h₁, -⟩ := h.run hall es
  have he₁ : e.Retries v o n := he.run hall h hes
  obtain ⟨stores₂, hf⟩ := h₁.follows hall e
  obtain ⟨hquiet₁, -⟩ := he₁.of_attempt ha
  obtain ⟨k, hk⟩ := (h₁.attempt_spec hall he₁ ha).resolve_left fun hex => hstamp hex.1
  refine ⟨⟨k, hk⟩, ?_⟩
  rintro ⟨reply, rfl⟩
  obtain ⟨-, rfl, -⟩ | ⟨hd, -⟩ := hk.ending
  · have htake := h.retries_take hall hes hn
    have hcontents : v'.contents o = (w.contents o).take k := hk.values.trans htake
    refine ⟨?_, hcontents, ?_⟩
    · rw [hf.kept.len_eq, ← hf.kept.contents_eq, hcontents, List.length_take, Nat.min_eq_left hn]
    · have hrun := h.run_conserves hall hbare o fun e he => (hes e he).1
      rw [h.retries_yield hall hes, h.holding_eq hquiet, h₁.holding_eq hquiet₁, Multiset.coe_nil,
        add_zero] at hrun
      -- both sides have the prefix, and the rest is what has been dropped
      rw [← List.take_append_drop k (w.contents o),
        ← List.take_append_drop k ((w.run es).contents o), htake, ← Multiset.coe_add, ← Multiset.coe_add, add_assoc, add_assoc, add_assoc] at hrun
      have hrest := add_left_cancel hrun
      rw [hk.dropped, ← Multiset.coe_add, Multiset.coe_reverse, add_comm, ← hrest]
      abel
  · cases hd

end Retry

/-- Once a reset, or a rollback to an accepted checkpoint, is tried on a free arena,
trying again converges, whatever is put in between the attempts.  At any time the
checkpoint is still good, and so are the handles below the boundary, with their
values, while no handle from the time before is good above it.  Every attempt
drops values from the top and ends at the first destructor that panics, and one that
gets through leaves just the prefix, and all that was ever above it dropped once.
No more attempts fail than panicking values were discarded. -/
theorem retries_converge (hall : ∀ k, tgt.allocates k = true) (es₀ es : List (Event T)) (o : Owner)
    (n : Nat) (hquiet : ((initial : World tgt T).run es₀).quiet o = true)
    (hn : n = 0 ∨ ∃ t cp, cp.len = n ∧ ((initial : World tgt T).run es₀).Accepts t o cp)
    (hes : ∀ e ∈ es, e.Retries ((initial : World tgt T).run es₀) o n)
    (hstamps : .error (.unwinds .stampSpaceExhausted)
      ∉ attemptsOver o ((initial : World tgt T).run es₀) es) :
    let w₀ : World tgt T := initial
    let w := w₀.run es₀
    (∀ es₁, es₁ <+: es → ∀ t,
      (∀ cp, cp.len ≤ n → w.Accepts t o cp → (w.run es₁).Accepts t o cp) ∧
      ∀ idx ∈ issuedOver o w₀ es₀, w.outcome t o (.isValid idx) = .ok (.valid true) →
        (idx.slot < n → (w.run es₁).outcome t o (.isValid idx) = .ok (.valid true) ∧
          (w.run es₁).outcome t o (.tryGet idx) = w.outcome t o (.tryGet idx)) ∧
        (n ≤ idx.slot → attemptsOver o w es₁ ≠ [] →
          (w.run es₁).outcome t o (.isValid idx) = .ok (.valid false) ∧
            (w.run es₁).outcome t o (.tryGet idx) = .ok (.value none))) ∧
    (∀ es₁ e es₂ panics r, es = es₁ ++ e :: es₂ → (w.run es₁).attempt o e = some (panics, r) →
      let v := w.run es₁
      let v' := v.step e
      (∃ k, DroppedDown panics n (v.contents o) (v.dropped o) r (v'.contents o) (v'.dropped o) k) ∧
      ((∃ reply, r = .ok reply) → v'.len o = n ∧ v'.contents o = (w.contents o).take n ∧
        (v'.dropped o : Multiset T) = w.dropped o + (w.contents o).drop n + movedOver o w es₁)) ∧
    ((attemptsOver o w es).countP interrupted = panicsOver o w es ∧
      panicsOver o w es ≤ (w.len o - n) + (movedOver o w es).length ∧
      (panicsOver o w es < (attemptsOver o w es).length →
        ∃ reply, .ok reply ∈ attemptsOver o w es)) := by
  intro w₀ w
  obtain ⟨stores, hshows, hknown⟩ := exists_known es₀
  have h : w.Stores stores := .of_shows hall hshows
  have hstart : ∀ m, (w₀.shareds m).Bare := fun m c hc => by cases hc
  have hbare : ∀ m, (w.shareds m).Bare := bare_run hstart es₀
  have hlen : n ≤ (w.contents o).length := by
    rw [h.contents_eq]
    rcases hn with rfl | ⟨t, cp, rfl, hcp⟩
    · exact Nat.zero_le _
    · exact Store.validateCheckpoint_ok ((h.accepts_iff t o cp).mp hcp)
  refine ⟨?_, ?_, ?_⟩
  · rintro es₁ ⟨es₂, rfl⟩ t
    have hkeep := h.retries_keep hall (fun e he => hes e (List.mem_append_left _ he))
      (fun hex => hstamps (attemptsOver_append o w es₁ es₂ ▸ List.mem_append_left _ hex)) t
    refine ⟨hkeep.1, fun idx hi hv => hkeep.2 idx ?_⟩
    rw [h.outcome_isValid t o ((hknown o idx hi).sound (h.ok o))] at hv
    exact Reply.valid.inj (Except.ok.inj hv)
  · rintro es₁ e es₂ panics r rfl ha
    obtain ⟨hes₁, hes₂⟩ := List.forall_mem_append.mp hes
    have hr : r ∈ attemptsOver o w (es₁ ++ e :: es₂) := by
      rw [attemptsOver_append, attemptsOver, ha]
      exact List.mem_append_right _ (List.mem_cons_self ..)
    exact h.retries_attempt hall hbare hquiet hlen hes₁ (List.forall_mem_cons.mp hes₂).1 ha
      fun he => hstamps (he ▸ hr)
  · obtain ⟨hpanics, hle⟩ := h.retries_count hall hbare hes
    rw [h.holding_eq hquiet, h.contents_eq, ← h.len_eq, hpanics] at hle
    refine ⟨hpanics, Nat.le_trans (Nat.le_add_right _ _) hle, fun hlt => ?_⟩
    -- an attempt that was not interrupted got through
    obtain ⟨r, hr, hno⟩ : ∃ r ∈ attemptsOver o w es, interrupted r = false := by
      by_contra hall
      refine Nat.ne_of_lt hlt (hpanics ▸ List.countP_eq_length.mpr fun r hr => ?_)
      exact Bool.of_not_eq_false fun hf => hall ⟨r, hr, hf⟩
    obtain ⟨-, ⟨reply, rfl⟩ | rfl⟩ :=
      (h.attempts_end hall hes hr).resolve_left fun he => hstamps (he ▸ hr)
    · exact ⟨reply, hr⟩
    · cases hno

/-- Four values are cut down to one.  The second value from the top panics, then one
put in meanwhile, and the third attempt gets through. -/
theorem retries_converge_refilled :
    let tgt : Target := ⟨8, fun _ => true⟩
    let panics : Dtor Nat := fun _ v => v == 7 || v == 9
    let cut : Event Nat := .alone 0 0 (.tryRollback ⟨.nth 0, 1, some (.nth 0)⟩ panics)
    let w : World tgt Nat := initial.run [.alone 0 0 (.allocBlock ⟨[5, 6, 7, 8], false⟩)]
    let es := [cut, .alone 0 0 (.alloc 9), cut, cut]
    (w.run es).len (.shared 0) = 1 ∧ (w.run es).contents (.shared 0) = [5] ∧
      ((w.run es).dropped (.shared 0) : Multiset Nat) = ([6, 7, 8] : List Nat) + ([9] : List Nat) ∧
      (attemptsOver (.shared 0) w es).countP interrupted = 2 := by
  intro tgt panics cut w es
  have hcp : w.Accepts 0 (.shared 0) ⟨.nth 0, 1, some (.nth 0)⟩ := by
    rw [Accepts]
    decide +kernel
  have hcut : cut.Retries w (.shared 0) 1 :=
    ⟨id, .inr ⟨0, _, .inr ⟨_, rfl, rfl, hcp⟩⟩⟩
  have hput : (Event.alone 0 0 (.alloc 9) : Event Nat).Retries w (.shared 0) 1 := ⟨id, .inl rfl⟩
  have hes : ∀ e ∈ es, e.Retries w (.shared 0) 1 := by
    intro e he
    simp only [es, List.mem_cons, List.not_mem_nil, or_false] at he
    rcases he with rfl | rfl | rfl | rfl
    · exact hcut
    · exact hput
    · exact hcut
    · exact hcut
  have h := retries_converge (fun _ => rfl) _ es (.shared 0) 1 rfl (.inr ⟨0, _, rfl, hcp⟩) hes
    (by decide +kernel)
  have hend : (w.run [cut, .alone 0 0 (.alloc 9), cut]).outcome 0 (.shared 0)
      (.tryRollback ⟨.nth 0, 1, some (.nth 0)⟩ panics) = .ok (.verdict (.ok ())) := by
    decide +kernel
  have hlast : (w.run [cut, .alone 0 0 (.alloc 9), cut]).attempt (.shared 0) cut
      = some (panics, .ok (.verdict (.ok ()))) :=
    (attempt_request 0 _).trans
      ((if_pos (by decide +kernel)).trans (congrArg (fun r => some (panics, r)) hend))
  obtain ⟨-, hdone⟩ := h.2.1 [cut, .alone 0 0 (.alloc 9), cut] cut [] _ _ rfl hlast
  obtain ⟨hlen, hcontents, hdropped⟩ := hdone ⟨_, rfl⟩
  have hstart : w.contents (.shared 0) = [5, 6, 7, 8] ∧ w.dropped (.shared 0) = [] := by
    decide +kernel
  have hmoved : movedOver (.shared 0) w [cut, .alone 0 0 (.alloc 9), cut] = [9] := by decide +kernel
  rw [hstart.1] at hcontents
  rw [hstart.1, hstart.2, hmoved, Multiset.coe_nil, zero_add] at hdropped
  exact ⟨hlen, hcontents, hdropped, h.2.2.1.trans (by decide +kernel)⟩

end World

end SafeBump
