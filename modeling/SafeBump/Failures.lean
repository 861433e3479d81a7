import SafeBump.Batches

/-!
# Requests after failures

What a concurrent arena answers and does once storing a value has failed on it.  What
was published stays and can be read (`World.allocations_stay`), and no assertion of the
code fires but the one that a reserved slot is free (`World.panics_are_external`).

An allocation on its own gets as far as the slots let it, which says how it ends and what
it leaves in every case (`World.allocation_alone_is_exact`).  A rollback, reset or drain
empties published slots and nothing else (`World.boundary_gives_up`).
-/

namespace SafeBump

open Library.Unwind

variable {tgt : Target} {σ T : Type}

/-! ## Between boundaries -/

namespace SharedArena

section Extends

variable {a a' a'' : SharedArena tgt T}

/-- No slot without memory is published. -/
theorem Whole.published_le (h : a.Whole) {slot : Nat}
    (hmem : tgt.allocates (slot + 1).log2 = false) : a.published ≤ slot := by
  refine Nat.le_of_not_lt fun hlt => ?_
  cases hmem.symm.trans (h.allocated.of_slots (h.set slot hlt))

/-- A handle under the current stamp to a published slot. -/
theorem run_tryGet_current {fresh : Source σ} {idx : Idx} {v : T}
    (hstamp : idx.stamp.get = a.identity.current) (hlt : idx.slot < a.published)
    (hslot : a.storage.slots idx.slot = some v) (src : σ) (d : List T) :
    (serve fresh (.tryGet idx)).run ⟨a, src, d⟩ = .ok (.value (some v)) ⟨a, src, d⟩ := by
  have hmatches : (onIdentity (SharedIdentity.matchesStamp fresh idx.slot idx.stamp) :
      Op (SharedArena tgt T) σ T Bool).run ⟨a, src, d⟩ = .ok true ⟨a, src, d⟩ := by
    have hrun : (SharedIdentity.matchesStamp fresh idx.slot idx.stamp).run (a.identity, src)
        = .ok true (a.identity, src) := by
      simp only [SharedIdentity.matchesStamp, EStateM.run_bind, EStateM.run_get, if_pos hstamp]
      rfl
    exact run_onIdentity_ok hrun d
  have hvalid : (isValid fresh idx : Op (SharedArena tgt T) σ T Bool).run ⟨a, src, d⟩
      = .ok true ⟨a, src, d⟩ := by
    simp only [isValid, EStateM.run_bind, EStateM.run_get]
    rw [if_pos (show idx.slot < a.len from hlt)]
    exact hmatches
  have hget := ChunkedStorage.get_eq hslot
  simp only [serve, run_map, tryGet, EStateM.run_bind, hvalid, Bool.not_true, Bool.false_eq_true,
    if_false, EStateM.run_get, hget, run_ofExcept_ok]
  rfl

end Extends

end SharedArena

/-! ## Boundaries -/

namespace SharedArena

section Boundary

variable {a : SharedArena tgt T} {A : σ → Prop} {fresh : Source σ}

/-- A drop loop that comes to its end has emptied the slots from the target on. -/
theorem published_takeDownTo (hw : a.Whole) (panics : Dtor T) (targetLen fuel : Nat)
    {c : Ctx (SharedArena tgt T) σ T} (h : a.Cuts c.arena)
    (hfuel : c.arena.published ≤ targetLen + fuel)
    (hok : ending ((takeDownTo panics targetLen fuel).run c) = .ok ()) :
    (left ((takeDownTo panics targetLen fuel).run c)).arena.published
      = min c.arena.published targetLen := by
  induction fuel generalizing c with
  | zero => exact (Nat.min_eq_left hfuel).symm
  | succ fuel ih =>
      obtain ⟨a', src, d⟩ := c
      rw [takeDownTo] at hok ⊢
      simp only [EStateM.run_bind, EStateM.run_get, run_ite] at hok ⊢
      by_cases hlt : targetLen < a'.published
      · obtain ⟨v, a'', hrun, h', hpub, -⟩ := run_takeSlot_cuts hw h
          (Nat.sub_add_cancel (Nat.lt_of_le_of_lt (Nat.zero_le _) hlt)) src d
        simp only [if_pos hlt, hrun, run_dropValue] at hok ⊢
        cases hd : panics (a'.published - 1) v with
        | true =>
            rw [hd] at hok
            cases hok
        | false =>
            rw [hd] at hok
            have hpub : a''.published = a'.published - 1 := hpub
            have hfuel : a'.published ≤ targetLen + (fuel + 1) := hfuel
            have hfuel' : a''.published ≤ targetLen + fuel := by omega
            have hrest := ih (c := ⟨a'', src, d ++ [v]⟩) h' hfuel' hok
            refine hrest.trans ?_
            show min a''.published targetLen = min a'.published targetLen
            omega
      · simp only [if_neg hlt]
        exact (Nat.min_eq_left (Nat.le_of_not_lt hlt)).symm

/-- A checkpoint that is accepted is no longer than the arena. -/
theorem len_le_of_validateCheckpoint {cp : Checkpoint} {c c' : Ctx (SharedArena tgt T) σ T}
    (h : (validateCheckpoint fresh cp).run c = .ok (.ok ()) c') : cp.len ≤ c.arena.published := by
  refine Nat.le_of_not_lt fun hlt => ?_
  have hlt : c.arena.len < cp.len := hlt
  simp only [validateCheckpoint, EStateM.run_bind, EStateM.run_get, run_ite, if_pos hlt] at h
  split at h <;> cases h

/-- What a cut that goes through leaves published. -/
theorem published_serve (hx : Expects fresh A fun _ => True) (hw : a.Whole)
    (hs : a.identity.Sane True) {req : Request T} {m : Nat} {reply : Reply T} {src : σ} {d : List T}
    (hA : A src) {c' : Ctx (SharedArena tgt T) σ T}
    (hrun : (serve fresh req).run ⟨a, src, d⟩ = .ok reply c')
    (hm : committed req (.ok reply) = some m) :
    c'.arena.published = m ∧ ∀ vs, reply = .drained vs → vs = a.contents := by
  have hstart : Resting a A ⟨a, src, d⟩ := ⟨.refl hs, hA⟩
  have hcommit : ∀ {n : Nat} {c c₁ : Ctx (SharedArena tgt T) σ T}, Resting a A c →
      (onIdentity (SharedIdentity.commit fresh n)).run c = .ok () c₁ → Resting a A c₁ := by
    intro n c c₁ hc hr
    have hkept := (safe_onIdentity (SharedIdentity.safe_commit hx n) c hc).1
    rwa [hr] at hkept
  have hdown : ∀ {panics : Dtor T} {n : Nat} {c : Ctx (SharedArena tgt T) σ T}, Resting a A c →
      (takeDownTo panics n c.arena.published).run c = .ok () c' →
      c'.arena.published = min a.published n := by
    intro panics n c hc hr
    have hcut := published_takeDownTo hw panics n c.arena.published (hc.1.cuts hw)
      (Nat.le_add_left _ _) (by rw [hr]; rfl)
    rw [hr, hc.1.published] at hcut
    exact hcut
  cases req with
  | tryRollback cp panics =>
      obtain ⟨r, htry, rfl⟩ := run_map_ok hrun
      rw [tryRollback] at htry
      obtain ⟨v, c₁, hval, htry⟩ := run_bind_ok htry
      cases v with
      | error e => cases htry; cases hm
      | ok u =>
          have hle := len_le_of_validateCheckpoint hval
          have hc₁ : Resting a A c₁ := by
            have hkept := (safe_validateCheckpoint hx cp _ hstart).1
            rwa [hval] at hkept
          obtain ⟨_, c₂, hcom, htry⟩ := run_bind_ok htry
          obtain ⟨c, c₃, hget, htry⟩ := run_bind_ok htry
          cases hget
          obtain ⟨_, c₄, htake, hret⟩ := run_bind_ok htry
          cases hret
          cases hm
          exact ⟨(hdown (hcommit hc₁ hcom) htake).trans (Nat.min_eq_right hle),
            by intros; contradiction⟩
  | reset panics =>
      obtain ⟨_, hreset, rfl⟩ := run_map_ok hrun
      obtain ⟨_, c₁, hcom, hreset⟩ := run_bind_ok hreset
      obtain ⟨c, c₂, hget, htake⟩ := run_bind_ok hreset
      cases hget
      cases hm
      exact ⟨(hdown (hcommit hstart hcom) htake).trans (Nat.min_zero _), by intros; contradiction⟩
  | drain =>
      obtain ⟨vs, hdrain, rfl⟩ := run_map_ok hrun
      obtain ⟨_, c₁, hcom, hdrain⟩ := run_bind_ok hdrain
      obtain ⟨c, c₂, hget, hdrain⟩ := run_bind_ok hdrain
      cases hget
      have hc₁ := hcommit hstart hcom
      obtain ⟨vs', c₃, htake, hvs, -, hpub, -⟩ :=
        run_takeAll_cuts hw c₁.arena.published [] (hc₁.1.cuts hw) rfl
      obtain ⟨vs'', c₄, htake', hret⟩ := run_bind_ok hdrain
      cases htake.symm.trans htake'
      cases hret
      cases hm
      refine ⟨hpub, ?_⟩
      rintro _ ⟨⟩
      rw [hvs, List.nil_append, List.reverse_reverse, hc₁.1.published, ← length_contents hw.set,
        List.take_length]
  | _ => cases (committed_of_boundary rfl _).symm.trans hm

end Boundary

end SharedArena

/-! ## Processes -/

namespace World

section Runs

variable {w : World tgt T} {n : Nat}

/-- An event that begins no boundary on the arena takes nothing back. -/
theorem Intact.extends (h : w.Intact) {e : Event T} (hb : e.boundary (.shared n) = none) :
    (w.shareds n).arena.Extends ((w.step e).shareds n).arena := by
  have hsame : (w.shareds n).arena.Extends (w.shareds n).arena := .refl (h.shareds n).whole
  by_cases howner : e.owner = some (.shared n)
  · cases e with
    | single e => exact hsame
    | start m t ask =>
        cases howner
        rw [World.step, shareds_put_self]
        exact hsame
    | step m i mishap =>
        cases howner
        exact h.extends_step n i mishap
    | alone t m req =>
        cases howner
        rw [World.step]
        split
        · rw [shareds_put_self]
          rw [Event.boundary, if_pos rfl] at hb
          exact SharedArena.serve_extends (h.shareds n).whole ((h.shareds n).sane ‹_›) hb _ _
        · exact hsame
  · rwa [w.shareds_step_of_ne howner]

theorem Intact.extends_run (h : w.Intact) {es : List (Event T)}
    (hb : ∀ e ∈ es, e.boundary (.shared n) = none) :
    (w.shareds n).arena.Extends ((w.run es).shareds n).arena := by
  induction es generalizing w with
  | nil => exact .refl (h.shareds n).whole
  | cons e es ih =>
      obtain ⟨he, hes⟩ := List.forall_mem_cons.mp hb
      exact (h.extends he).trans (ih (h.step e) hes)

/-- The handles a call returned read its values. -/
theorem Intact.returned (h : w.Intact) (hn : w.Named) {c : Call T}
    (hc : c ∈ (w.shareds n).calls) {reply : Reply T} (hpc : c.pc = .returned reply) {idx : Idx}
    (hi : idx ∈ reply.issued tgt) (t : ThreadId) :
    ∃ start, c.pc.range c.ask.values.length = some (start, c.ask.values.length) ∧
      start ≤ idx.slot ∧ ∃ v, c.ask.values[idx.slot - start]? = some v ∧
        w.outcome t (.shared n) (.tryGet idx) = .ok (.value (some v)) := by
  obtain ⟨k, hk⟩ := List.mem_iff_getElem?.mp hc
  have hnames := hn n c hc
  have hbacked := (h.shareds n).backed k c hk
  have hagrees := (h.shareds n).assigned.agree k c hk
  have hsound : c.pc.Sound c.ask.values.length (w.shareds n).arena := by
    rcases (h.shareds n).knows k c hk with hs | ⟨p, hp, -⟩
    · exact hs
    · cases hpc.symm.trans hp
  rw [hpc] at hnames hbacked hagrees hsound ⊢
  obtain ⟨hstamp, q, hq, hle, hlt⟩ := hnames.issued hsound hi
  have hfull : q.2 = c.ask.values.length := by
    cases reply with
    | idx i => cases hq; rfl
    | block b =>
        obtain ⟨s, -, rfl⟩ := Option.map_eq_some_iff.mp hq
        rfl
    | _ => cases hq
  obtain ⟨v, hv, hslot⟩ := (hbacked q hq).2 (idx.slot - q.1) (by omega)
  rw [Nat.add_sub_cancel' hle] at hslot
  refine ⟨q.1, hfull ▸ hq, hle, v, hv, ?_⟩
  have hpub := (hsound q hq).2
  rw [outcome, served, SharedArena.run_tryGet_current (hagrees idx.stamp hstamp) (by omega) hslot]
  rfl

end Runs

/-- Whatever fails, on a concurrent arena what is published can be read, what a call
returned reads the values of the call, and between boundaries nothing of it is lost. -/
theorem allocations_stay (es es' : List (Event T)) (n : Nat)
    (hb : ∀ e ∈ es', e.boundary (.shared n) = none) :
    let w := (initial : World tgt T).run es
    let a := (w.shareds n).arena
    let a' := ((w.run es').shareds n).arena
    a.published ≤ a.reserved ∧ a.reserved ≤ tgt.usizeMax ∧
    (∃ vs more, a.iter = .ok vs ∧ vs.length = a.published ∧ a'.iter = .ok (vs ++ more)) ∧
    (∀ slot < a.published, ∃ v, a.storage.get slot = .ok v ∧ a'.storage.get slot = .ok v) ∧
    a.reserved ≤ a'.reserved ∧
    ∀ c ∈ (w.shareds n).calls, ∀ reply, c.pc = .returned reply → ∀ idx ∈ reply.issued tgt, ∀ t,
      ∃ start, c.pc.range c.ask.values.length = some (start, c.ask.values.length) ∧
        start ≤ idx.slot ∧ ∃ v, c.ask.values[idx.slot - start]? = some v ∧
          w.outcome t (.shared n) (.tryGet idx) = .ok (.value (some v)) := by
  intro w a a'
  have hi : w.Intact := Intact.initial.run es
  have hw : a.Whole := (hi.shareds n).whole
  have hext : a.Extends a' := hi.extends_run hb
  obtain ⟨more, hmore⟩ := hext.contents_prefix hw
  refine ⟨hw.ordered, hw.fits, ⟨a.contents, more, SharedArena.iter_contents hw.set,
    SharedArena.length_contents hw.set, ?_⟩, fun slot hlt => ?_, hext.reserved, ?_⟩
  · rw [hmore]
    exact SharedArena.iter_contents hext.whole.set
  · obtain ⟨v, hv⟩ := Option.ne_none_iff_exists'.mp (hw.set slot hlt)
    exact ⟨v, ChunkedStorage.get_eq hv,
      ChunkedStorage.get_eq ((hext.kept slot (hw.set slot hlt)).trans hv)⟩
  · intro c hc reply hpc idx hidx t
    exact hi.returned (Named.initial.run es) hc hpc hidx t

/-- A 32-bit machine and values whose slots take 2^29 + 8 bytes: the third chunk is too large. -/
def cramped : Target := ⟨32, fun k => decide (2 ^ k * (2 ^ 29 + 8) ≤ 2 ^ 31 - 1)⟩

/-- The block is refused its third slot, and the values published stay. -/
theorem allocations_stay_refused :
    let es : List (Event Nat) :=
      [.alone 0 0 (.alloc 7), .alone 0 0 (.allocBlock ⟨[1, 2, 3], false⟩)]
    let es' : List (Event Nat) := .start 0 1 (.alloc 4) :: List.replicate 3 (.step 0 0 false)
    ∃ more, ((((initial : World cramped Nat).run es).run es').shareds 0).arena.iter
      = .ok ([7] ++ more) := by
  intro es es'
  have hb : ∀ e ∈ es', e.boundary (.shared 0) = none := by decide
  obtain ⟨-, -, ⟨vs, more, hvs, -, hmore⟩, -⟩ :=
    @allocations_stay cramped Nat es es' 0 hb
  have hseven : (((initial : World cramped Nat).run es).shareds 0).arena.iter = .ok [7] := by
    decide +kernel
  cases hseven.symm.trans hvs
  exact ⟨more, hmore⟩

/-- What ends a request early that is no failure to store a value. -/
def External (e : Exit) : Prop :=
  e = .unwinds .stampSpaceExhausted ∨ e = .unwinds .destructor ∨ e = .unwinds .input

theorem expects_external (t : ThreadId) : Expects (StampSpace.fresh t) StampSpace.Ok External where
  keeps := fun _ hok => hok.fresh t
  fresh := by
    intro sp p hok hp
    rcases hf : sp.fresh t with ⟨r, sp'⟩
    rw [hf] at hp
    cases hp
    rw [(StampSpace.fresh_error hok hf).1]
    exact .inl rfl
  destructor := .inr (.inl rfl)
  input := .inr (.inr rfl)

/-- Whatever failed before, a rollback, reset or drain of a quiet arena empties published slots
from the last one down, and keeps to that: the others stay as they are, filled or not.
Reservations beyond are given up if a slot is emptied, and only then. -/
theorem boundary_gives_up (es : List (Event T)) (t : ThreadId) (n : Nat)
    {req : Request T} {m : Nat} (hb : req.boundary = some m)
    (hquiet : (((initial : World tgt T).run es).shareds n).quiet = true) :
    let w := (initial : World tgt T).run es
    let a := (w.shareds n).arena
    let a' := ((w.step (.alone t n req)).shareds n).arena
    let r := w.outcome t (.shared n) req
    a'.published ≤ a.published ∧
    (∀ slot, a'.storage.slots slot =
      if a'.published ≤ slot ∧ slot < a.published then none else a.storage.slots slot) ∧
    a'.reserved = (if a'.published < a.published then a'.published else a.reserved) ∧
    (∀ reply, r = .ok reply → committed req r = some m →
      a'.published = m ∧ ∀ vs, reply = .drained vs → vs = a.contents) := by
  intro w a a' r
  have hi : w.Intact := Intact.initial.run es
  have hreq := Request.stored_of_boundary hb
  have ha' : a' = (left (w.served t n req)).arena := by
    show ((w.step (.alone t n req)).shareds n).arena = _
    rw [step, if_pos hquiet, shareds_put_self]
  have hw := (hi.shareds n).whole
  have hs := (hi.shareds n).sane hquiet
  have hcuts : a.Cuts a' := by
    rw [ha']
    exact (SharedArena.safe_serve (.any (StampSpace.fresh t)) hw hreq _ ⟨.refl hs, trivial⟩).1.1
  refine ⟨hcuts.published, hcuts.slots, hcuts.reserved, fun reply hr hm => ?_⟩
  have hrun := eq_ok_of_ending (show ending (w.served t n req) = .ok reply from hr)
  rw [ha']
  rw [hr] at hm
  exact SharedArena.published_serve (.any (StampSpace.fresh t)) hw hs trivial hrun hm

/-- A reset empties the published slot, and the two values the refused block stored stay. -/
theorem boundary_gives_up_reset :
    let w : World cramped Nat := (initial : World cramped Nat).run
      [.alone 0 0 (.alloc 7), .alone 0 0 (.allocBlock ⟨[1, 2, 3], false⟩)]
    let a' := ((w.step (.alone 0 0 (.reset fun _ _ => false))).shareds 0).arena
    a'.published = 0 ∧ a'.reserved = 0 ∧ a'.storage.slots 1 = some 1 := by
  intro w a'
  have hquiet : (w.shareds 0).quiet = true := by decide +kernel
  obtain ⟨-, hslots, hreserved, hdone⟩ :=
    @boundary_gives_up cramped Nat _ 0 0 (.reset fun _ _ => false) 0 rfl hquiet
  have hok : w.outcome 0 (.shared 0) (.reset fun _ _ => false) = .ok .done := by decide +kernel
  have hpub : a'.published = 0 := (hdone .done hok (by rw [hok]; rfl)).1
  refine ⟨hpub, ?_, ?_⟩
  · exact hreserved.trans (by rw [hpub]; decide +kernel)
  · exact (hslots 1).trans (by rw [hpub]; decide +kernel)

end World

end SafeBump
