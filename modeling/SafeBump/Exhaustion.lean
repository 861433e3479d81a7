import SafeBump.Allotment
import SafeBump.Checkpoints
import SafeBump.Validation

/-!
# Stamps that ran out

A commit archives the current segment before it draws the stamp of the next one.  If
there is none to be had, the table has changed and nothing else: no answer the
arena gives depends on whether the current segment is archived already
(`World.SameAnswers`).  Archiving it again changes nothing either, so a later
commit leaves the stamps it would have left without the failed ones.
-/

namespace SafeBump

open Library (stretch)
open Library.Unwind

variable {tgt : Target} {T : Type}

namespace Store

variable {σ : Type} {fresh : Source σ}

/-- Two steps that begin a boundary from the same store with the same stamps leave
the same history. -/
theorem Step.epochs_eq {st st₁ st₂ : Store T} {src src₁ src₂ : σ} {n : Nat}
    (h₁ : Step fresh (st, src) (some n) (st₁, src₁))
    (h₂ : Step fresh (st, src) (some n) (st₂, src₂)) :
    st₂.epochs = st₁.epochs := by
  cases h₁ with
  | idle =>
      cases h₂ with
      | idle => rfl
  | cut hf hn hk =>
      cases h₂ with
      | cut hf' hn' hk' =>
          cases hf.symm.trans hf'
          rfl

theorem ending_cutDown_dropped (panics : Dtor T) (n : Nat) (st : Store T) (src : σ)
    (d d' : List T) :
    ending ((cutDown fresh panics n).run ⟨st, src, d⟩)
      = ending ((cutDown fresh panics n).run ⟨st, src, d'⟩) := by
  cases st with
  | unused => rfl
  | live vs e =>
      rcases hf : fresh src with ⟨p | s, src'⟩
      · rw [run_cutDown_error hf, run_cutDown_error hf]
        rfl
      · cases hstop : lastPanic panics vs n vs.length with
        | none =>
            rw [run_cutDown_ok hf hstop, run_cutDown_ok hf hstop]
            rfl
        | some k =>
            rw [run_cutDown_panic hf hstop, run_cutDown_panic hf hstop]
            rfl

/-- How a request with a boundary ends does not depend on what was dropped before. -/
theorem ending_serve_dropped {req : Request T} {n : Nat} (hb : req.boundary = some n) {st : Store T}
    {src : σ} (d d' : List T) : ending ((serve tgt fresh req).run ⟨st, src, d⟩)
      = ending ((serve tgt fresh req).run ⟨st, src, d'⟩) := by
  cases req with
  | tryRollback cp panics =>
      cases hv : st.validateCheckpoint cp with
      | error err => rw [run_serve_tryRollback_error hv, run_serve_tryRollback_error hv]; rfl
      | ok u =>
          rw [run_serve_tryRollback_ok hv, run_serve_tryRollback_ok hv, ending_run_map,
            ending_run_map, ending_cutDown_dropped]
  | reset panics =>
      rw [serve, ending_run_map, ending_run_map, ending_cutDown_dropped]
  | drain =>
      rw [serve, ending_run_map, ending_run_map]
      cases st with
      | unused => rfl
      | live vs e =>
          rcases hf : fresh src with ⟨p | s, src'⟩
          · rw [run_drain_error hf, run_drain_error hf]
            rfl
          · rw [run_drain_ok hf, run_drain_ok hf]
            rfl
  | _ => cases hb

end Store

namespace SharedArena

variable {σ : Type} {fresh : Source σ} {a a' : SharedArena tgt T}

/-- A cut that leaves everything published empties no slot. -/
theorem Cuts.of_published (h : a.Cuts a') (hpub : a'.published = a.published) :
    a'.reserved = a.reserved ∧ ∀ slot, a'.storage.slots slot = a.storage.slots slot := by
  refine ⟨?_, fun slot => ?_⟩
  · rw [h.reserved, hpub, if_neg (Nat.lt_irrefl _)]
  · rw [h.slots, hpub, if_neg fun hin => Nat.not_lt.mpr hin.1 hin.2]

/-- A request that has values to store and finds no stamp leaves the arena as it was. -/
theorem serve_starved (fresh : Source σ) (hw : a.Whole) (hs : a.identity.Sane True)
    {req : Request T} (hreq : req.stored ≠ []) {src : σ} {d : List T}
    (hex : ending ((serve fresh req).run ⟨a, src, d⟩) = .error (.unwinds .stampSpaceExhausted)) :
    ∃ src', fresh src = (.error .stampSpaceExhausted, src') ∧
      (serve fresh req).run ⟨a, src, d⟩
        = .error (.unwinds .stampSpaceExhausted) ⟨a, src', d ++ req.moved⟩ := by
  rcases serve_stored fresh hw hs hreq src d with
    ⟨-, p, src', hf, hres⟩ | ⟨-, -, id, src', hres⟩ | ⟨-, -, lost, -, hall⟩
  · rw [hres] at hex
    cases hex
    exact ⟨src', hf, hres.trans (by rw [Request.moved_of_stored hreq])⟩
  · rw [hres] at hex
    cases hex
  · by_cases hk : stretch a.storage.free a.reserved req.stored.length = req.stored.length
    · have hstored := (hall.stored hk).2
      split at hstored
      · obtain ⟨stamp, -, hr⟩ := hstored
        cases hr.symm.trans hex
      · cases hstored.symm.trans hex
    · -- what a slot is refused for is not that there are no stamps
      have hpanic := (hall.refused hk).2.symm.trans hex
      have hrefusal := a.storage.refusal_isRefusal req.movedDtor
        (a.reserved + stretch a.storage.free a.reserved req.stored.length)
        req.stored[stretch a.storage.free a.reserved req.stored.length]?
      rw [Exit.unwinds.inj (Except.error.inj hpanic)] at hrefusal
      rcases hrefusal with h | h | ⟨slot, h⟩ <;> cases h

end SharedArena

namespace World

/-- An arena answers alike in two states, for the handles in `known`. -/
structure SameAnswers (known : Idx → Prop) (w w' : World tgt T) (o : Owner) : Prop where
  len : w'.len o = w.len o
  contents : w'.contents o = w.contents o
  stampOf : ∀ slot, w'.stampOf o slot = w.stampOf o slot
  isValid : ∀ t idx, known idx → w'.outcome t o (.isValid idx) = w.outcome t o (.isValid idx)
  tryGet : ∀ t idx, known idx → w'.outcome t o (.tryGet idx) = w.outcome t o (.tryGet idx)
  validateCheckpoint : ∀ t cp,
    w'.outcome t o (.validateCheckpoint cp) = w.outcome t o (.validateCheckpoint cp)

/-- The events are requests to an arena, none of which found a stamp. -/
def Starving (o : Owner) : World tgt T → List (Event T) → Prop
  | _, [] => True
  | w, e :: es => (∃ t req, e = .request t o req ∧
      w.outcome t o req = .error (.unwinds .stampSpaceExhausted)) ∧ Starving o (w.step e) es

section Starved

variable {w w' : World tgt T} {stores stores' : Owner → Store T} {o : Owner}

/-- Between calls every slot has the stamp the store says. -/
theorem Shows.stampOf_quiet (h : w.Shows stores) (hquiet : w.quiet o = true) (slot : Nat) :
    w.stampOf o slot = (stores o).epochs.map (·.markAt slot) := by
  cases o with
  | single n => exact (h.singles n).stampOf slot
  | shared n =>
      rw [stampOf]
      rcases (h.shareds n).shown.settled ((h.intact.shareds n).sane hquiet) with
        ⟨hst, hid, -⟩ | ⟨vs, e, id, hst, hid, hm⟩
      · rw [hst, hid]
        rfl
      · rw [hst, hid.run_stampOf slot, hm.stampOf_eq]
        rfl

/-- Arenas with the same store answer alike. -/
theorem Shows.sameAnswers (h : w.Shows stores) (h' : w'.Shows stores')
    (hst : stores' o = stores o) (hquiet : w.quiet o = true) (hquiet' : w'.quiet o = true)
    {known : Idx → Prop} (hknown : ∀ idx, known idx → (stores o).Sound idx) :
    SameAnswers known w w' o where
  len := by rw [h'.len_eq, h.len_eq, hst]
  contents := by rw [h'.contents_eq, h.contents_eq, hst]
  stampOf slot := by rw [h'.stampOf_quiet hquiet', h.stampOf_quiet hquiet, hst]
  isValid t idx hk := by
    rw [h'.outcome_isValid t o (hst ▸ hknown idx hk), h.outcome_isValid t o (hknown idx hk), hst]
  tryGet t idx hk := by
    rw [h'.outcome_tryGet t o (hst ▸ hknown idx hk), h.outcome_tryGet t o (hknown idx hk), hst]
  validateCheckpoint t cp := by
    rw [h'.outcome_validateCheckpoint, h.outcome_validateCheckpoint, hst]

/-- A storing request that finds no stamp leaves the concurrent arena as it was. -/
theorem Shows.starved_stored {n : Nat} (h : w.Shows stores) (hquiet : w.quiet (.shared n) = true)
    {t : ThreadId} {req : Request T} (hreq : req.stored ≠ [])
    (hex : w.outcome t (.shared n) req = .error (.unwinds .stampSpaceExhausted)) :
    (w.step (.request t (.shared n) req)).Shows stores ∧
      Store.Starved (StampSpace.fresh t) req.moved
        ⟨stores (.shared n), w.process.stamps, (w.shareds n).dropped⟩
        ⟨stores (.shared n), (w.step (.request t (.shared n) req)).process.stamps,
          (w.step (.request t (.shared n) req)).dropped (.shared n)⟩ := by
  -- the arena is left as it was, so it shows the store it showed
  have hshown := (h.shareds n).shown
  obtain ⟨src', hf, hres⟩ := SharedArena.serve_starved (StampSpace.fresh t) hshown.whole
    ((h.intact.shareds n).sane hquiet) hreq hex
  have hres : w.served t n req = .error (.unwinds .stampSpaceExhausted)
    ⟨(w.shareds n).arena, src', (w.shareds n).dropped ++ req.moved⟩ := hres
  have hstep : w.step (.request t (.shared n) req)
      = w.put n src' ⟨(w.shareds n).arena, [], (w.shareds n).dropped ++ req.moved⟩ := by
    show w.step (.alone t n req) = _
    rw [World.step, show (w.shareds n).quiet = true from hquiet, hres]
    rfl
  have hmove : Store.Step (StampSpace.fresh t) (stores (.shared n), w.process.stamps)
      (committed req (w.outcome t (.shared n) req))
      (stores (.shared n), (left (w.served t n req)).source) := by
    rw [hex, hres]
    exact .failed _ hf
  have hst : (left (w.served t n req)).arena.Shows (stores (.shared n)) := by
    rw [hres]
    exact hshown
  have hm := h.moves_of_alone hquiet hmove hst (fun reply hr => by cases hr.symm.trans hex)
    fun hnil => absurd hnil hreq
  rw [Function.update_eq_self] at hm
  refine ⟨hm.kept, src', hf, ?_⟩
  rw [hstep, dropped_put_self, stamps_put]

/-- A request that finds no stamp changes neither the store nor the stamps, and the
values it brought are dropped. -/
theorem Shows.starved_step (h : w.Shows stores) (hquiet : w.quiet o = true) {t : ThreadId}
    {req : Request T} (hex : w.outcome t o req = .error (.unwinds .stampSpaceExhausted)) :
    ∃ stores', (w.step (.request t o req)).Shows stores' ∧ stores' o = stores o ∧
      (w.step (.request t o req)).process.stamps = w.process.stamps ∧
      (w.step (.request t o req)).dropped o = w.dropped o ++ req.moved := by
  obtain ⟨stores', h', src', hfresh, hctx⟩ : ∃ stores', (w.step (.request t o req)).Shows stores' ∧
      Store.Starved (StampSpace.fresh t) req.moved ⟨stores o, w.process.stamps, w.dropped o⟩
        ⟨stores' o, (w.step (.request t o req)).process.stamps,
          (w.step (.request t o req)).dropped o⟩ := by
    by_cases hreq : req.stored = []
    · obtain ⟨stores', hm⟩ := h.moves (.request t o req)
      exact ⟨stores', hm.kept, (hm.plain t o req rfl hquiet hreq).starved hex⟩
    · cases o with
      | single n =>
          obtain ⟨stores', hm, hserved⟩ := h.moves_single (.request t n req)
          exact ⟨stores', hm.kept, (hserved t n req rfl).starved hex⟩
      | shared n => exact ⟨stores, h.starved_stored hquiet hreq hex⟩
  have hsource : (w.step (.request t o req)).process.stamps = src' := congrArg Ctx.source hctx
  exact ⟨stores', h', congrArg Ctx.arena hctx,
    hsource.trans (StampSpace.fresh_error h.shares.ok hfresh).2, congrArg Ctx.dropped hctx⟩

/-- A request that finds no stamp leaves the slots of a concurrent arena alone. -/
theorem Shows.starved_slots {n : Nat} (h : w.Shows stores) (hquiet : w.quiet (.shared n) = true)
    {t : ThreadId} {req : Request T}
    (hex : w.outcome t (.shared n) req = .error (.unwinds .stampSpaceExhausted)) :
    let a' := ((w.step (.request t (.shared n) req)).shareds n).arena
    a'.reserved = (w.shareds n).arena.reserved ∧ a'.published = (w.shareds n).arena.published ∧
      ∀ slot, a'.storage.slots slot = (w.shareds n).arena.storage.slots slot := by
  intro a'
  have hw := (h.shareds n).shown.whole
  have hs := (h.intact.shareds n).sane hquiet
  have ha : a' = (left (w.served t n req)).arena := by
    show ((w.step (.alone t n req)).shareds n).arena = _
    rw [World.step, if_pos (show (w.shareds n).quiet = true from hquiet), shareds_put_self]
  by_cases hreq : req.stored = []
  · have hcuts := (SharedArena.safe_serve (.any (StampSpace.fresh t)) hw hreq
      ⟨(w.shareds n).arena, w.process.stamps, (w.shareds n).dropped⟩ ⟨.refl hs, trivial⟩).1.1
    obtain ⟨stores', h', hst, -, -⟩ := h.starved_step hquiet hex
    have hpub : a'.published = (w.shareds n).arena.published := by
      rw [← (h'.shareds n).shown.length_values, hst, (h.shareds n).shown.length_values]
    obtain ⟨hreserved, hslots⟩ := hcuts.of_published (ha ▸ hpub)
    rw [ha] at hpub ⊢
    exact ⟨hreserved, hpub, hslots⟩
  · obtain ⟨src', -, hres⟩ := SharedArena.serve_starved (StampSpace.fresh t) hw hs hreq hex
    have hsame : a' = (w.shareds n).arena := by
      rw [ha, served, hres]
      rfl
    rw [hsame]
    exact ⟨rfl, rfl, fun _ => rfl⟩

theorem Shows.starved_run (h : w.Shows stores) (hquiet : w.quiet o = true) {es : List (Event T)}
    (hes : Starving o w es) :
    ∃ stores', (w.run es).Shows stores' ∧ stores' o = stores o ∧
      (w.run es).process.stamps = w.process.stamps ∧ (w.run es).quiet o = true := by
  induction es generalizing w stores with
  | nil => exact ⟨stores, h, rfl, rfl, hquiet⟩
  | cons e es ih =>
      obtain ⟨⟨t, req, rfl, hex⟩, hes⟩ := hes
      obtain ⟨stores₁, h₁, hst₁, hstamps₁, -⟩ := h.starved_step hquiet hex
      obtain ⟨stores₂, h₂, hst₂, hstamps₂, hquiet₂⟩ :=
        ih h₁ (w.quiet_step_request t req hquiet) hes
      exact ⟨stores₂, h₂, hst₂.trans hst₁, hstamps₂.trans hstamps₁, hquiet₂⟩

/-- What a request that commits leaves is decided by the store and the stamps it
finds. -/
theorem Shows.commits_alike (h : w.Shows stores) (h' : w'.Shows stores')
    (hst : stores' o = stores o) (hstamps : w'.process.stamps = w.process.stamps)
    (hquiet : w.quiet o = true) (hquiet' : w'.quiet o = true) {t : ThreadId} {req : Request T}
    {n : Nat} (hc : committed req (w.outcome t o req) = some n) :
    committed req (w'.outcome t o req) = some n ∧ ∀ slot,
      (w'.step (.request t o req)).stampOf o slot = (w.step (.request t o req)).stampOf o slot := by
  have hb := boundary_of_committed hc
  have hreq := Request.stored_of_boundary hb
  have hasked : req.asked = none := by
    cases req with
    | isValid idx => cases hb
    | tryGet idx => cases hb
    | _ => rfl
  have hsound : ∀ {st : Store T} idx, req.asked = some idx → st.Sound idx := fun idx hi => by
    cases hasked.symm.trans hi
  obtain ⟨hout, -⟩ := h.outcome_plain hquiet t hreq hsound
  obtain ⟨hout', -⟩ := h'.outcome_plain hquiet' t hreq hsound
  rw [hst, hstamps, Store.ending_serve_dropped hb (w'.dropped o) (w.dropped o), ← hout] at hout'
  refine ⟨hout' ▸ hc, fun slot => ?_⟩
  obtain ⟨stores₁, hm⟩ := h.moves (.request t o req)
  obtain ⟨stores₂, hm'⟩ := h'.moves (.request t o req)
  have hstep := (hm.plain t o req rfl hquiet hreq).step
  have hstep' := (hm'.plain t o req rfl hquiet' hreq).step
  rw [hc] at hstep
  rw [hout', hc, hst, hstamps] at hstep'
  rw [hm'.kept.stampOf_quiet (w'.quiet_step_request t req hquiet'),
    hm.kept.stampOf_quiet (w.quiet_step_request t req hquiet), hstep.epochs_eq hstep']

/-- A concurrent arena answers alike as long as it is the same. -/
theorem Shows.sameAnswers_of_arena {n : Nat} (h : w.Shows stores)
    (harena : (w'.shareds n).arena = (w.shareds n).arena) {known : Idx → Prop}
    (hknown : ∀ idx, known idx → (stores (.shared n)).Sound idx) :
    SameAnswers known w w' (.shared n) where
  len := congrArg SharedArena.len harena
  contents := congrArg SharedArena.contents harena
  stampOf slot := by rw [stampOf, stampOf, harena]
  isValid t idx hk := by
    obtain ⟨b, hrun, -, hb⟩ := (h.shareds n).shown.run_isValid (StampSpace.fresh t) idx
      w'.process.stamps (w'.shareds n).dropped
    rw [h.outcome_isValid t _ (hknown idx hk), outcome, served, harena, SharedArena.serve,
      ending_run_map, hrun, hb (hknown idx hk)]
    rfl
  tryGet t idx hk := by
    obtain ⟨v, hrun, hv⟩ := (h.shareds n).shown.run_tryGet (StampSpace.fresh t) idx
      w'.process.stamps (w'.shareds n).dropped
    rw [h.outcome_tryGet t _ (hknown idx hk), outcome, served, harena, SharedArena.serve,
      ending_run_map, hrun, hv (hknown idx hk)]
    rfl
  validateCheckpoint t cp := by
    have hrun := (h.shareds n).shown.run_validateCheckpoint (StampSpace.fresh t) cp
    simp only [outcome, served, harena, SharedArena.serve, ending_run_map, hrun, ending_ok]

/-- A call that finds no stamp has done nothing to the arena. -/
theorem step_of_no_stamp {n i : Nat} {c : Call T} {use : Use}
    (hc : (w.shareds n).calls[i]? = some c) (hpc : c.pc = .draw use) (hok : w.process.stamps.Ok)
    {p : Panic} (hp : (w.answer c).1 = .error p) (mishap : Bool) :
    ((w.step (.step n i mishap)).shareds n).arena = (w.shareds n).arena ∧
      (w.step (.step n i mishap)).process.stamps = w.process.stamps := by
  have hans : w.answer c = w.process.stamps.fresh c.thread := by rw [answer, hpc]
  have hstamps : (w.answer c).2 = w.process.stamps := by
    rcases hf : w.process.stamps.fresh c.thread with ⟨r, sp⟩
    rw [hans, hf] at hp
    obtain rfl : r = .error p := hp
    rw [hans, hf]
    exact (StampSpace.fresh_error hok hf).2
  rw [World.step, hc]
  simp only [shareds_put_self, stamps_put, hstamps, and_true]
  rw [Shared.arena_step hc, hp, hpc]
  rfl

end Starved

/-- A call that finds no stamp leaves its arena as it was, for all the questions and
handles there are.  The values it brought are dropped, and on a concurrent arena it
has reserved no slot.  However often a commit failed so, once it goes through it
leaves the stamps it would have left without the failed ones. -/
theorem exhaustion_is_atomic (es : List (Event T)) :
    let w₀ : World tgt T := initial
    let w := w₀.run es
    let known : Idx → Prop := fun idx => ∃ b, idx ∈ issuedOver b w₀ es
    (∀ t o req, w.quiet o = true → w.outcome t o req = .error (.unwinds .stampSpaceExhausted) →
      let w' := w.step (.request t o req)
      SameAnswers known w w' o ∧ w'.process.stamps = w.process.stamps ∧
        w'.dropped o = w.dropped o ++ req.moved ∧
        ∀ n, o = .shared n → (w'.shareds n).arena.reserved = (w.shareds n).arena.reserved ∧
          (w'.shareds n).arena.published = (w.shareds n).arena.published ∧
          ∀ slot, (w'.shareds n).arena.storage.slots slot
            = (w.shareds n).arena.storage.slots slot) ∧
    (∀ n i mishap c use, (w.shareds n).calls[i]? = some c → c.pc = .draw use →
      (w.answer c).1 = .error .stampSpaceExhausted →
      let w' := w.step (.step n i mishap)
      SameAnswers known w w' (.shared n) ∧ w'.process.stamps = w.process.stamps ∧
        (w'.shareds n).arena = (w.shareds n).arena) ∧
    ∀ o es₁, w.quiet o = true → Starving o w es₁ →
      ∀ t req n, committed req (w.outcome t o req) = some n →
      let v := w.run es₁
      committed req (v.outcome t o req) = some n ∧ ∀ slot,
        (v.step (.request t o req)).stampOf o slot
          = (w.step (.request t o req)).stampOf o slot := by
  intro w₀ w known
  obtain ⟨stores, h, hissued⟩ := exists_known es
  have hknown : ∀ o idx, known idx → (stores o).Sound idx := by
    rintro o idx ⟨b, hb⟩
    exact h.sound_of_known (hissued b idx hb) o
  refine ⟨fun t o req hquiet hex => ?_, fun n i mishap c use hc hpc hp => ?_,
    fun o es₁ hquiet hes t req n hc => ?_⟩
  · obtain ⟨stores', h', hst, hstamps, hdropped⟩ := h.starved_step hquiet hex
    have hquiet' := w.quiet_step_request t req hquiet
    refine ⟨h.sameAnswers h' hst hquiet hquiet' (hknown o), hstamps, hdropped, ?_⟩
    rintro n rfl
    exact h.starved_slots hquiet hex
  · obtain ⟨harena, hstamps⟩ := step_of_no_stamp hc hpc h.shares.ok hp mishap
    exact ⟨h.sameAnswers_of_arena harena (hknown (.shared n)), hstamps, harena⟩
  · obtain ⟨stores', h', hst, hstamps, hquiet'⟩ := h.starved_run hquiet hes
    exact h.commits_alike h' hst hstamps hquiet hquiet' hc

/-! ## The stamps can run out -/

/-- Threads that draw one stamp each and end. -/
def spending : Nat → List (Event T)
  | 0 => []
  | k + 1 => .single (.draw 0) :: .single (.exit 0) :: spending k

theorem run_spending (w : World tgt T) (hpool : w.process.stamps.pools 0 = .new) (k : Nat)
    (hfit : w.process.stamps.nextStamp + localReservationLen * k < 2 ^ 64) :
    w.run (spending k) = { w with process := { w.process with
      stamps := ⟨w.process.stamps.nextStamp + localReservationLen * k,
        w.process.stamps.pools⟩ } } := by
  induction k generalizing w with
  | zero => rfl
  | succ k ih =>
      rw [Nat.mul_succ] at hfit ⊢
      have hround := StampSpace.fresh_exit hpool (by omega : _ < 2 ^ 64)
      have hstep : (w.step (.single (.draw 0))).step (.single (.exit 0)) = { w with
          process := { w.process with
            stamps := ⟨w.process.stamps.nextStamp + localReservationLen,
              w.process.stamps.pools⟩ } } := by
        rw [← hround]
        rfl
      rw [spending, run_cons, run_cons, hstep, ih]
      · simp only [Nat.add_assoc, Nat.add_comm localReservationLen]
      · exact hpool
      · simp only
        omega

/-- Thread 1 has some stamps left, thread 0 can get none.  Its reset of an arena
with three values fails, and so does its call on a concurrent arena.  Then
thread 1 resets the first one. -/
theorem exhaustion_is_atomic_retried :
    let tgt : Target := ⟨8, fun _ => true⟩
    let start : List (Event Nat) := [.single (.request 1 0 (.allocBlock ⟨[5, 6, 7], false⟩)),
      .start 0 0 (.alloc 9), .step 0 0 false]
    let w₀ : World tgt Nat := initial
    let w := w₀.run (start ++ spending (2 ^ 56 - 2))
    let failed : Event Nat := .single (.request 0 0 (.reset fun _ _ => false))
    (w.step failed).contents (.single 0) = [5, 6, 7] ∧
      (w.step failed).outcome 0 (.single 0) (.isValid ⟨.nth 0, 2⟩)
        = w.outcome 0 (.single 0) (.isValid ⟨.nth 0, 2⟩) ∧
      ((w.step (.step 0 0 false)).shareds 0).arena = (w.shareds 0).arena ∧
      ((w.run [failed, failed]).step (.single (.request 1 0 (.reset fun _ _ => false)))).stampOf
        (.single 0) 0 = some (.nth 1) := by
  generalize hk : 2 ^ 56 - 2 = k
  intro tgt start w₀ w failed
  -- the run up to here, without the threads that came and went
  have hw : w = { w₀.run start with process := { (w₀.run start).process with
      stamps := ⟨257 + localReservationLen * k, (w₀.run start).process.stamps.pools⟩ } } :=
    (run_append ..).trans (run_spending _ rfl _ (by rw [← hk]; decide +kernel))
  obtain ⟨hrequest, hcall, hretry⟩ := @exhaustion_is_atomic tgt Nat (start ++ spending k)
  have hex : w.outcome 0 (.single 0) (.reset fun _ _ => false)
      = .error (.unwinds .stampSpaceExhausted) := by
    rw [hw, ← hk]
    decide +kernel
  have hex' : (w.step failed).outcome 0 (.single 0) (.reset fun _ _ => false)
      = .error (.unwinds .stampSpaceExhausted) := by
    rw [hw, ← hk]
    decide +kernel
  have hcontents : w.contents (.single 0) = [5, 6, 7] := by
    rw [hw, ← hk]
    decide +kernel
  have hissued : (⟨.nth 0, 2⟩ : Idx) ∈ issuedOver (.single 0) w₀ (start ++ spending k) := by
    rw [issuedOver_append]
    exact List.mem_append_left _ (by decide +kernel)
  have hdrawing : (w.shareds 0).calls[0]? = some ⟨0, .alloc 9, .draw .range⟩ := by
    rw [hw]
    rfl
  have hnone : (w.answer ⟨0, .alloc 9, .draw .range⟩).1 = .error .stampSpaceExhausted := by
    rw [hw, ← hk]
    decide +kernel
  have hstarving : Starving (.single 0) w [failed, failed] :=
    ⟨⟨0, _, rfl, hex⟩, ⟨0, _, rfl, hex'⟩, trivial⟩
  have hcommitted : committed (.reset fun _ _ => false)
      (w.outcome 1 (.single 0) (.reset fun _ _ => false)) = some 0 := by
    rw [hw, ← hk]
    decide +kernel
  obtain ⟨hsame, -⟩ := hrequest 0 (.single 0) _ rfl hex
  obtain ⟨-, -, harena⟩ := hcall 0 0 false ⟨0, .alloc 9, .draw .range⟩ .range hdrawing rfl hnone
  refine ⟨hsame.contents.trans hcontents, hsame.isValid 0 _ ⟨_, hissued⟩, harena, ?_⟩
  refine ((hretry (.single 0) _ rfl hstarving 1 _ 0 hcommitted).2 0).trans ?_
  have hstamp : (w.step (.request 1 (.single 0) (.reset fun _ _ => false))).stampOf (.single 0) 0
      = some (.nth 1) := by
    rw [hw, ← hk]
    decide +kernel
  exact hstamp

end World

end SafeBump
