import SafeBump.Provenance
import SafeBump.Publication

/-!
# Who wins the race for the identity

Until the first exclusive operation an arena has one stamp.  `birth` goes from 0 to
the stamp of the winner and `current` follows it, and every stamp a call has got is
that one (`Shared.Racing`).  A load may find `birth` set and `current` not.  Whoever
needs `current` then waits for it in `assign`; a lookup never gets there, because it
asks for a stamp only where something is published (`SharedArena.Young.read`).

The stamps the losers drew are in no hands but theirs, and they drop them
(`World.Traced.buried`).
-/

namespace SafeBump

open Library.Unwind

variable {tgt : Target} {σ T : Type}

/-! ## Lookups -/

/-- Nothing was committed on the arena yet. -/
structure SharedArena.Young (a : SharedArena tgt T) : Prop where
  current : a.identity.current ≠ 0 → a.identity.current = a.identity.birth
  shown : a.published ≠ 0 → a.identity.current ≠ 0
  start : a.identity.currentStart = 0
  table : a.identity.table = none

/-- The call looks at the state and leaves it as it is.  It does not wait for anything,
and `P` holds of its result. -/
def Looks {α : Type} (P : α → Prop) (c : Ctx (SharedArena tgt T) σ T)
    (m : Op (SharedArena tgt T) σ T α) : Prop :=
  (∃ a, m.run c = .ok a c ∧ P a) ∨ ∃ p, m.run c = .error (.unwinds p) c

namespace Looks

variable {α β : Type} {P : α → Prop} {Q : β → Prop} {c : Ctx (SharedArena tgt T) σ T}

theorem pure {a : α} (h : P a) : Looks P c (pure a : Op (SharedArena tgt T) σ T α) :=
  .inl ⟨a, rfl, h⟩

theorem bind {m : Op (SharedArena tgt T) σ T α} {k : α → Op (SharedArena tgt T) σ T β}
    (hm : Looks P c m) (hk : ∀ a, P a → Looks Q c (k a)) : Looks Q c (m >>= k) := by
  rcases hm with ⟨a, hrun, ha⟩ | ⟨p, hrun⟩
  · rw [Looks, EStateM.run_bind, hrun]
    exact hk a ha
  · rw [Looks, EStateM.run_bind, hrun]
    exact .inr ⟨p, rfl⟩

theorem map {m : Op (SharedArena tgt T) σ T α} {k : α → β} (hm : Looks P c m)
    (hk : ∀ a, P a → Q (k a)) : Looks Q c (k <$> m) := by
  have h := hm.bind fun a ha => Looks.pure (hk a ha)
  rwa [bind_pure_comp] at h

theorem get_bind {k : Ctx (SharedArena tgt T) σ T → Op (SharedArena tgt T) σ T β}
    (hk : Looks Q c (k c)) : Looks Q c (get >>= k) := hk

theorem ofExcept (r : Except Panic α) (h : ∀ a, r = .ok a → P a) :
    Looks P c (ofExcept r : Op (SharedArena tgt T) σ T α) := by
  cases r with
  | ok a => exact .inl ⟨a, rfl, h a rfl⟩
  | error p => exact .inr ⟨p, rfl⟩

theorem onIdentity {m : EStateM Exit (SharedIdentity × σ) α} {a : α}
    (h : m.run (c.arena.identity, c.source) = .ok a (c.arena.identity, c.source)) (ha : P a) :
    Looks P c (SharedArena.onIdentity m) :=
  .inl ⟨a, SharedArena.run_onIdentity_pure h c.dropped, ha⟩

end Looks

namespace SharedArena.Young

variable {a : SharedArena tgt T} {fresh : Source σ}

theorem new : (new : SharedArena tgt T).Young :=
  ⟨fun h => absurd rfl h, fun h => absurd rfl h, rfl, rfl⟩

/-- Everything stored is the one stamp. -/
theorem get_eq (h : a.Young) {x : Stamp} (hx : x ∈ a.identity.stamps) :
    x.get = a.identity.birth := by
  rcases SharedIdentity.mem_stamps.mp hx with hx | hx | ⟨hpos, -⟩ | hx
  · exact hx
  · rw [hx]
    exact h.current (hx ▸ x.ne_zero)
  · rw [h.start] at hpos
    exact absurd hpos (Nat.lt_irrefl 0)
  · rw [h.table] at hx
    cases hx

/-- The current stamp is the stamp of every slot, and nobody waits for it where something
is published. -/
theorem run_stampOf (h : a.Young) (fresh : Source σ) (hpub : a.published ≠ 0)
    (slot : Nat) (src : σ) :
    ∃ x : Stamp, x.get = a.identity.birth ∧
      (SharedIdentity.stampOf fresh slot).run (a.identity, src) = .ok x (a.identity, src) := by
  have hcur := h.shown hpub
  refine ⟨⟨a.identity.current, hcur⟩, h.current hcur, ?_⟩
  simp [SharedIdentity.stampOf, SharedIdentity.currentStamp, h.start, hcur]

/-- `matches` compares with `current` and has nothing else to look at. -/
theorem run_matchesStamp (h : a.Young) (slot : Nat) (stamp : Stamp) (src : σ) :
    (SharedIdentity.matchesStamp fresh slot stamp).run (a.identity, src)
      = .ok (decide (stamp.get = a.identity.current)) (a.identity, src) := by
  by_cases heq : stamp.get = a.identity.current
  · simp [SharedIdentity.matchesStamp, heq]
  · simp [SharedIdentity.matchesStamp, SharedIdentity.matchesArchived, h.start, heq]

section Read

variable {c : Ctx (SharedArena tgt T) σ T}

theorem looks_tailOf (h : c.arena.Young) {len : Nat} (hlen : len ≤ c.arena.published) :
    Looks (fun _ => True) c (tailOf fresh len) := by
  rw [tailOf]
  split
  · exact .pure trivial
  · obtain ⟨x, -, hrun⟩ := h.run_stampOf fresh (by omega) (len - 1) c.source
    exact (Looks.onIdentity (P := fun _ => True) hrun trivial).map fun _ _ => trivial

theorem looks_validateCheckpoint (h : c.arena.Young) (cp : Checkpoint) :
    Looks (fun _ => True) c (validateCheckpoint fresh cp) := by
  refine .get_bind ?_
  dsimp only
  split
  · exact .pure trivial
  · split
    · exact .pure trivial
    · refine (h.looks_tailOf (Nat.le_of_not_lt ‹_›)).bind fun tail _ => ?_
      split <;> exact .pure trivial

theorem looks_isValid (h : c.arena.Young) (idx : Idx) :
    Looks (fun _ => True) c (isValid fresh idx) := by
  refine .get_bind ?_
  dsimp only
  split
  · exact .onIdentity (h.run_matchesStamp idx.slot idx.stamp c.source) trivial
  · exact .pure trivial

theorem looks_iterIndexedFrom (h : c.arena.Young) (hpub : c.arena.published ≠ 0) (n : Nat) :
    ∀ pos, Looks (fun pairs => ∀ pair ∈ pairs, pair.1.stamp.get = c.arena.identity.birth) c
      (iterIndexedFrom fresh pos n) := by
  induction n with
  | zero => exact fun pos => .pure fun _ hp => by cases hp
  | succ n ih =>
      refine fun pos => .get_bind ((Looks.ofExcept (P := fun _ => True) _ fun _ _ => trivial).bind
        fun value _ => ?_)
      obtain ⟨x, hx, hrun⟩ := h.run_stampOf fresh hpub pos c.source
      refine (Looks.onIdentity (P := fun stamp => stamp.get = c.arena.identity.birth) hrun hx).bind
        fun stamp hstamp => (ih (pos + 1)).bind fun pairs hpairs => .pure fun pair hp => ?_
      rcases List.mem_cons.mp hp with rfl | hp
      · exact hstamp
      · exact hpairs pair hp

/-- A lookup on an arena nothing was committed on never enters `assign`. -/
theorem read (h : c.arena.Young) (fresh : Source σ) {req : Request T} (hreads : req.reads = true) :
    Looks (fun r => ∀ x ∈ r.carried, x.get = c.arena.identity.birth) c (serve fresh req) := by
  have hnone : ∀ {r : Reply T}, r.carried = [] → ∀ x ∈ r.carried, x.get = c.arena.identity.birth :=
    fun hr x hx => by rw [hr] at hx; cases hx
  cases req with
  | validateCheckpoint cp => exact (h.looks_validateCheckpoint cp).map fun _ _ => hnone rfl
  | len => exact .pure (hnone rfl)
  | isValid idx => exact (h.looks_isValid idx).map fun _ _ => hnone rfl
  | tryGet idx =>
      refine Looks.map (P := fun _ => True) ?_ fun _ _ => hnone rfl
      refine (h.looks_isValid idx).bind fun valid _ => ?_
      split
      · exact .pure trivial
      · exact .get_bind ((Looks.ofExcept (P := fun _ => True) _ fun _ _ => trivial).bind
          fun _ _ => .pure trivial)
  | iter =>
      exact .get_bind ((Looks.ofExcept (P := fun _ => True) _ fun _ _ => trivial).bind
        fun _ _ => .pure (hnone rfl))
  | iterIndexed =>
      refine Looks.map (P := fun pairs => ∀ pair ∈ pairs, pair.1.stamp.get = c.arena.identity.birth)
        ?_ fun pairs hpairs x hx => ?_
      · refine .get_bind ?_
        rcases eq_or_ne c.arena.published 0 with hzero | hpub
        · rw [SharedArena.len, hzero]
          exact .pure fun _ hp => by cases hp
        · exact h.looks_iterIndexedFrom hpub _ 0
      · obtain ⟨pair, hp, rfl⟩ := List.mem_map.mp hx
        exact hpairs pair hp
  | _ => cases hreads

end Read

end SharedArena.Young

/-! ## Calls -/

theorem Pc.held_eq_some {pc : Pc T} {x : Stamp} (h : pc.held = some x) :
    ∃ use, pc = .exchangeBirth use x := by
  cases pc with
  | exchangeBirth use fresh =>
      cases h
      exact ⟨use, rfl⟩
  | _ => cases h

namespace Shared

/-- An arena whose identity is being assigned, or was. -/
structure Racing (s : Shared tgt T) : Prop where
  assigned : s.Assigned
  young : s.arena.Young
  carried : ∀ c ∈ s.calls, ∀ x ∈ c.pc.carried, x.get = s.arena.identity.birth

theorem Racing.new (h : s.arena = .new) (hcalls : s.calls = []) : Racing (s : Shared tgt T) := by
  obtain ⟨a, calls, dropped⟩ := s
  cases h
  cases hcalls
  refine ⟨?_, .new, fun _ hc => by cases hc⟩
  have hidle : (idle (.new : SharedArena tgt T)).Assigned := .idle .new
  exact ⟨hidle.unborn, hidle.winner, hidle.single, hidle.issued, hidle.agree⟩

theorem Racing.start {s : Shared tgt T} (h : s.Racing) (t : ThreadId) (ask : Ask T) :
    (s.start t ask).Racing where
  assigned := h.assigned.start t ask
  young := h.young
  carried := by
    refine forall_calls_start (P := fun _ pc => ∀ x ∈ pc.carried, x.get = s.arena.identity.birth)
      h.carried t ?_
    rw [ask.start_carried.1]
    exact fun _ hx => by cases hx

/-- Calls that are over can be forgotten. -/
theorem Racing.forget {s s' : Shared tgt T} (h : s.Racing) (hquiet : s.quiet = true)
    (harena : s'.arena = s.arena) (hcalls : s'.calls = []) : s'.Racing := by
  obtain ⟨a, calls, dropped⟩ := s'
  cases harena
  cases hcalls
  refine ⟨?_, h.young, fun _ hc => by cases hc⟩
  have hborn : s.arena.identity.birth = 0 ↔ s.arena.identity.current = 0 := by
    refine ⟨h.assigned.unborn, fun hcur => ?_⟩
    by_contra hb
    obtain ⟨k, c, hc, hs⟩ := h.assigned.winner hb hcur
    obtain ⟨use, fresh, hpc⟩ := Pc.storing_iff.mp hs
    have hdone := List.all_eq_true.mp hquiet c (List.mem_of_getElem? hc)
    rw [hpc] at hdone
    cases hdone
  have hidle : (idle s.arena).Assigned := .idle ⟨hborn, h.assigned.issued⟩
  exact ⟨hidle.unborn, hidle.winner, hidle.single, hidle.issued, hidle.agree⟩

/-- What a step does to the words: nothing, or its call wins with the stamp it has drawn,
or the winner stores its stamp once more. -/
theorem Racing.step_words {s : Shared tgt T} (h : s.Racing) {i : Nat} {c : Call T}
    (hc : s.calls[i]? = some c) (answer : Except Panic Stamp) (mishap : Bool) :
    (s.step i answer mishap).arena.identity = s.arena.identity ∨
      (∃ use fresh, c.pc = .exchangeBirth use fresh ∧ s.arena.identity.birth = 0 ∧
        (s.step i answer mishap).arena.identity
          = { s.arena.identity with birth := fresh.get }) ∨
      s.arena.identity.current = 0 ∧ s.arena.identity.birth ≠ 0 ∧
        (s.step i answer mishap).arena.identity
          = { s.arena.identity with current := s.arena.identity.birth } := by
  rw [arena_step hc]
  rcases c.ask.move_identity answer mishap s.arena c.pc with
    ⟨hid, -, -⟩ | ⟨use, fresh, hpc, hzero, hmove⟩ | ⟨use, fresh, hpc, hmove⟩
  · exact .inl hid
  · rw [hmove]
    exact .inr (.inl ⟨use, fresh, hpc, hzero, rfl⟩)
  · have hag := h.assigned.agree i c hc
    rw [hpc] at hag
    rw [hmove]
    exact .inr (.inr ⟨hag.1, hag.2 ▸ fresh.ne_zero, by rw [hag.2]⟩)

theorem Racing.step {s : Shared tgt T} (h : s.Racing) (i : Nat) (answer : Except Panic Stamp)
    (mishap : Bool) : (s.step i answer mishap).Racing := by
  cases hc : s.calls[i]? with
  | none => rwa [step_of_none hc]
  | some c =>
      have hgrows := h.assigned.grows_next (.step i answer mishap)
      rw [Shared.next] at hgrows
      have hbirth : ∀ {x : Stamp}, x.get = s.arena.identity.birth →
          x.get = (s.step i answer mishap).arena.identity.birth :=
        fun {x} hx => hx.trans (hgrows.birth (hx ▸ x.ne_zero)).symm
      have hset : s.arena.identity.current ≠ 0 →
          (s.step i answer mishap).arena.identity.current ≠ 0 :=
        fun hcur hzero => hcur ((hgrows.current hcur).symm.trans hzero)
      refine ⟨h.assigned.step i answer mishap, ⟨?_, ?_, ?_, ?_⟩, fun d hd x hx => ?_⟩
      · rcases h.step_words hc answer mishap with hid | ⟨use, fresh, -, hzero, hid⟩ | ⟨-, -, hid⟩
        · rw [hid]
          exact h.young.current
        · rw [hid]
          exact fun hcur => absurd ((h.young.current hcur).trans hzero) hcur
        · rw [hid]
          exact fun _ => rfl
      · intro hpub
        rcases c.ask.move_slots answer mishap (h.assigned.agree i c hc) with ⟨id, he⟩ | hcur
        · rw [arena_step hc, he] at hpub
          exact hset (h.young.shown hpub)
        · exact hset hcur
      · exact hgrows.start.trans h.young.start
      · exact hgrows.table.trans h.young.table
      · obtain ⟨k, hk⟩ := List.mem_iff_getElem?.mp hd
        rw [getElem?_step hc] at hk
        split at hk
        · cases hk
          rcases Ask.move_carried hx with hx | hx | ⟨hheld, hzero⟩
          · exact hbirth (h.young.get_eq hx)
          · exact hbirth (h.carried c (List.mem_of_getElem? hc) x hx)
          · obtain ⟨use, hpc⟩ := Pc.held_eq_some hheld
            rw [arena_step hc, hpc, Ask.move, if_pos hzero]
        · exact hbirth (h.carried d (List.mem_of_getElem? hk) x hx)

end Shared

/-! ## The race -/

namespace World

/-- The event is more than a look at concurrent arena `n`, and needs the arena to itself. -/
def Event.exclusive (n : Nat) : Event T → Bool
  | .alone _ m req => decide (m = n) && !req.reads
  | _ => false

section Race

variable {w : World tgt T} {n : Nat}

/-- A look at an arena nothing was committed on. -/
theorem left_served (h : (w.shareds n).Racing) (t : ThreadId) {req : Request T}
    (hreads : req.reads = true) :
    left (w.served t n req) = ⟨(w.shareds n).arena, w.process.stamps, (w.shareds n).dropped⟩ ∧
      w.outcome t (.shared n) req ≠ .error .spins ∧
      ∀ r, w.outcome t (.shared n) req = .ok r →
        ∀ x ∈ r.carried, x.get = (w.shareds n).arena.identity.birth := by
  have hyoung : (Ctx.arena ⟨(w.shareds n).arena, w.process.stamps, (w.shareds n).dropped⟩).Young :=
    h.young
  rw [outcome, served]
  rcases hyoung.read (StampSpace.fresh t) hreads with ⟨r, hrun, hr⟩ | ⟨p, hrun⟩
  · rw [hrun]
    refine ⟨rfl, (fun he => by cases he), ?_⟩
    rintro _ ⟨⟩
    exact hr
  · rw [hrun]
    exact ⟨rfl, (fun he => by cases he), fun _ he => by cases he⟩

/-- What an event makes of such an arena. -/
theorem shareds_step_cases (h : (w.shareds n).Racing) {e : Event T} (he : e.exclusive n = false) :
    (w.step e).shareds n = w.shareds n ∨
      (∃ t ask, (w.step e).shareds n = (w.shareds n).start t ask) ∨
      (∃ i mishap c, e = .step n i mishap ∧ (w.shareds n).calls[i]? = some c ∧
        (w.step e).shareds n = (w.shareds n).step i (w.answer c).1 mishap) ∨
      (w.shareds n).quiet = true ∧ ((w.step e).shareds n).arena = (w.shareds n).arena ∧
        ((w.step e).shareds n).calls = [] := by
  by_cases howner : e.owner = some (.shared n)
  · cases e with
    | single e => exact .inl rfl
    | start m t ask =>
        cases howner
        exact .inr (.inl ⟨t, ask, w.shareds_put_self _ _ _⟩)
    | step m i mishap =>
        cases howner
        rw [step]
        cases hc : (w.shareds n).calls[i]? with
        | none => exact .inl rfl
        | some c => exact .inr (.inr (.inl ⟨i, mishap, c, rfl, hc, w.shareds_put_self _ _ _⟩))
    | alone t m req =>
        cases howner
        have hreads : req.reads = true := by
          simpa [Event.exclusive] using he
        rw [step]
        split
        · rename_i hquiet
          rw [shareds_put_self, (left_served h t hreads).1]
          exact .inr (.inr (.inr ⟨hquiet, rfl, rfl⟩))
        · exact .inl rfl
  · exact .inl (w.shareds_step_of_ne howner)

theorem racing_step (h : (w.shareds n).Racing) {e : Event T} (he : e.exclusive n = false) :
    ((w.step e).shareds n).Racing := by
  rcases shareds_step_cases h he with hs | ⟨t, ask, hs⟩ | ⟨i, mishap, c, -, -, hs⟩ | hs
  · rwa [hs]
  · rw [hs]
    exact h.start t ask
  · rw [hs]
    exact h.step i _ mishap
  · exact h.forget hs.1 hs.2.1 hs.2.2

/-- What an event does to the words: nothing, or a call wins with the stamp it has drawn, or
the winner stores its stamp once more. -/
theorem words_step (h : (w.shareds n).Racing) {e : Event T} (he : e.exclusive n = false) :
    ((w.step e).shareds n).arena.identity = (w.shareds n).arena.identity ∨
      (∃ i mishap c use fresh, e = .step n i mishap ∧ (w.shareds n).calls[i]? = some c ∧
        c.pc = .exchangeBirth use fresh ∧ (w.shareds n).arena.identity.birth = 0 ∧
        ((w.step e).shareds n).arena.identity
          = { (w.shareds n).arena.identity with birth := fresh.get }) ∨
      (w.shareds n).arena.identity.current = 0 ∧ (w.shareds n).arena.identity.birth ≠ 0 ∧
        ((w.step e).shareds n).arena.identity
          = { (w.shareds n).arena.identity with
              current := (w.shareds n).arena.identity.birth } := by
  rcases shareds_step_cases h he with hs | ⟨t, ask, hs⟩ | ⟨i, mishap, c, rfl, hc, hs⟩ | ⟨-, hs, -⟩
  · exact .inl (by rw [hs])
  · exact .inl (by rw [hs]; rfl)
  · rw [hs]
    rcases h.step_words hc (w.answer c).1 mishap with hid | ⟨use, fresh, hpc, hzero, hid⟩ | hid
    · exact .inl hid
    · exact .inr (.inl ⟨i, mishap, c, use, fresh, rfl, hc, hpc, hzero, hid⟩)
    · exact .inr (.inr hid)
  · exact .inl (by rw [hs])

/-- A word that is set stays. -/
structure Settles (w w' : World tgt T) (n : Nat) : Prop where
  birth : (w.shareds n).arena.identity.birth ≠ 0 →
    (w'.shareds n).arena.identity.birth = (w.shareds n).arena.identity.birth
  current : (w.shareds n).arena.identity.current ≠ 0 →
    (w'.shareds n).arena.identity.current = (w.shareds n).arena.identity.current

theorem settles_step (h : (w.shareds n).Racing) {e : Event T} (he : e.exclusive n = false) :
    Settles w (w.step e) n := by
  rcases words_step h he with hid | ⟨_, _, _, _, _, -, -, -, hzero, hid⟩ | ⟨hzero, -, hid⟩
  · exact ⟨fun _ => by rw [hid], fun _ => by rw [hid]⟩
  · exact ⟨fun hb => absurd hzero hb, fun _ => by rw [hid]⟩
  · exact ⟨fun _ => by rw [hid], fun hc => absurd hzero hc⟩

/-- What the arena hands out in an event carries the one stamp. -/
theorem get_of_carried (h : (w.shareds n).Racing) {e : Event T} (he : e.exclusive n = false)
    {x : Stamp} (hx : x ∈ w.carried (.shared n) e) :
    x.get = ((w.step e).shareds n).arena.identity.birth := by
  obtain ⟨r, hr, hmem⟩ := mem_carried.mp hx
  cases e with
  | single e =>
      obtain ⟨_, -, hcontra⟩ := Option.map_eq_some_iff.mp hr
      cases hcontra
  | start m t ask => cases hr
  | step m i mishap =>
      rw [reply] at hr
      split at hr
      · rename_i hc
        cases hr
        exact (racing_step h he).carried _ (List.mem_of_getElem? hc) x hmem
      · cases hr
  | alone t m req =>
      obtain ⟨-, hm, hend⟩ := reply_alone hr
      cases hm
      have hreads : req.reads = true := by simpa [Event.exclusive] using he
      have hget := (left_served h t hreads).2.2 r hend x hmem
      exact hget.trans ((settles_step h he).birth (hget ▸ x.ne_zero)).symm

theorem settles_run (h : (w.shareds n).Racing) {es : List (Event T)}
    (hes : ∀ e ∈ es, e.exclusive n = false) :
    ((w.run es).shareds n).Racing ∧ Settles w (w.run es) n ∧
      ∀ x ∈ carriedOver (.shared n) w es, x.get = ((w.run es).shareds n).arena.identity.birth := by
  induction es generalizing w with
  | nil => exact ⟨h, ⟨fun _ => rfl, fun _ => rfl⟩, fun _ hx => by cases hx⟩
  | cons e es ih =>
      obtain ⟨he, hes⟩ := List.forall_mem_cons.mp hes
      have hstep := settles_step h he
      obtain ⟨hracing, hrun, hcarried⟩ := ih (racing_step h he) hes
      refine ⟨hracing, ⟨fun hb => ?_, fun hc => ?_⟩, fun x hx => ?_⟩
      · exact (hrun.birth (hstep.birth hb ▸ hb)).trans (hstep.birth hb)
      · exact (hrun.current (hstep.current hc ▸ hc)).trans (hstep.current hc)
      · rcases List.mem_append.mp hx with hx | hx
        · have hget := get_of_carried h he hx
          exact hget.trans (hrun.birth (hget ▸ x.ne_zero)).symm
        · exact hcarried x hx

end Race

/-- The calls that race for the identity of an arena agree on it.  Of the two words `birth`
is set first, by the call that wins, to the stamp it has drawn.  `current` follows, and
neither changes again.  A call that gets a stamp gets that one, whichever word it asked for
and whatever it found there, and so does everything the arena hands out.  Lookups never join
the race: they draw nothing, wait for nothing, and accept no handle while `current` is 0.
The stamp of a call that lost is handed out by no arena, whatever happens later. -/
theorem racing_assignment_agrees (n : Nat) (es₀ es : List (Event T))
    (hnew : (((initial : World tgt T).run es₀).shareds n).arena = .new)
    (hcalls : (((initial : World tgt T).run es₀).shareds n).calls = [])
    (hes : ∀ e ∈ es, e.exclusive n = false) :
    let w₀ := (initial : World tgt T).run es₀
    let w := w₀.run es
    let s := w.shareds n
    let id := s.arena.identity
    (id.current = 0 ∨ id.current = id.birth) ∧
      (∀ e : Event T, e.exclusive n = false →
        let id' := ((w.step e).shareds n).arena.identity
        (id'.birth ≠ id.birth → id.birth = 0 ∧
          ∃ (i : Nat) (mishap : Bool) (c : Call T) (use : Use) (fresh : Stamp),
            e = .step n i mishap ∧ s.calls[i]? = some c ∧ c.pc = .exchangeBirth use fresh ∧
              id'.birth = fresh.get) ∧
        (id'.current ≠ id.current →
          id.current = 0 ∧ id.birth ≠ 0 ∧ id'.current = id.birth ∧ id'.birth = id.birth)) ∧
      (∀ es', (∀ e ∈ es', e.exclusive n = false) →
        let id' := ((w.run es').shareds n).arena.identity
        (id.birth ≠ 0 → id'.birth = id.birth) ∧ (id.current ≠ 0 → id'.current = id.current) ∧
          (s.arena.published ≠ 0 → id'.current = id.birth)) ∧
      (∀ (i : Nat) mishap (c : Call T) use stamp, s.calls[i]? = some c → c.pc.use = some use →
        (c.ask.move (w.answer c).1 mishap s.arena c.pc).2 = use.resume stamp →
          stamp.get = ((w.step (.step n i mishap)).shareds n).arena.identity.birth) ∧
      (∀ x ∈ carriedOver (.shared n) w₀ es, x.get = id.birth) ∧
      (∀ t req, req.reads = true →
        left (w.served t n req) = ⟨s.arena, w.process.stamps, s.dropped⟩ ∧
          w.outcome t (.shared n) req ≠ .error .spins) ∧
      (id.current = 0 → ∀ t slot stamp,
        (SharedIdentity.matchesStamp (StampSpace.fresh t) slot stamp).run (id, w.process.stamps)
          = .ok false (id, w.process.stamps)) ∧
      (∀ (i : Nat) (c : Call T) use fresh, s.calls[i]? = some c →
        c.pc = .exchangeBirth use fresh → id.birth ≠ 0 →
        fresh.get ≠ id.birth ∧ ∀ o es', fresh ∉ carriedOver o w es') := by
  intro w₀ w s id
  obtain ⟨h, -, hcarried⟩ := settles_run (Shared.Racing.new hnew hcalls) hes
  have hcur : id.current ≠ 0 → id.current = id.birth := h.young.current
  refine ⟨?_, fun e he => ?_, fun es' hes' => ?_, ?_, hcarried, fun t req hreads => ?_, ?_, ?_⟩
  · exact (eq_or_ne id.current 0).imp_right hcur
  · intro id'
    rcases words_step h he with
      hid | ⟨i, mishap, c, use, fresh, hstep, hc, hpc, hzero, hid⟩ | ⟨hzero, hb, hid⟩
    · exact ⟨fun hne => absurd (congrArg SharedIdentity.birth hid) hne,
        fun hne => absurd (congrArg SharedIdentity.current hid) hne⟩
    · have hbirth : id'.birth = fresh.get := congrArg SharedIdentity.birth hid
      exact ⟨fun _ => ⟨hzero, i, mishap, c, use, fresh, hstep, hc, hpc, hbirth⟩,
        fun hne => absurd (congrArg SharedIdentity.current hid) hne⟩
    · have hbirth : id'.birth = id.birth := (congrArg SharedIdentity.birth hid).trans rfl
      have hcurrent : id'.current = id.birth := (congrArg SharedIdentity.current hid).trans rfl
      exact ⟨fun hne => absurd hbirth hne, fun _ => ⟨hzero, hb, hcurrent, hbirth⟩⟩
  · obtain ⟨-, hset, -⟩ := settles_run h hes'
    refine ⟨hset.birth, hset.current, fun hpub => ?_⟩
    have hne := h.young.shown hpub
    exact (hset.current hne).trans (hcur hne)
  · intro i mishap c use stamp hc _ hmove
    refine (racing_step h (e := .step n i mishap) rfl).carried
      { c with pc := use.resume stamp } ?_ stamp (Use.resume_carried.mpr (.inl rfl))
    refine List.mem_of_getElem? (i := i) ?_
    have hstep : (w.step (.step n i mishap)).shareds n = s.step i (w.answer c).1 mishap := by
      rw [step, hc]
      exact shareds_put_self w n _ _
    rw [hstep, Shared.getElem?_step hc, if_pos rfl, hmove]
  · obtain ⟨hleft, hspins, -⟩ := left_served h t hreads
    exact ⟨hleft, hspins⟩
  · intro hzero t slot stamp
    have hne : stamp.get ≠ id.current := fun he => stamp.ne_zero (he.trans hzero)
    rw [h.young.run_matchesStamp, decide_eq_false hne]
  · intro i c use fresh hc hpc hb
    have htraced : w.Traced := (Traced.initial.run es₀).run es
    have hx : w.Holder fresh n i := ⟨c, hc, by rw [hpc]; rfl⟩
    have hburied := htraced.buried hx hb
    refine ⟨fun he => ?_, fun o es' => hburied.run es' o⟩
    exact hburied.absent.shareds n fresh (SharedIdentity.mem_stamps.mpr (.inl he)) rfl

/-- Thread 1 draws a stamp of its own and loses.  It finds `birth` set and `current` not, and
waits for the stamp of thread 0. -/
theorem racing_assignment_agrees_lost :
    let race : List (Event Nat) := [.start 0 0 (.alloc 7), .start 0 1 .checkpoint,
      .step 0 0 false, .step 0 1 false, .step 0 1 false, .step 0 0 false, .step 0 1 false,
      .step 0 0 false]
    let rest : List (Event Nat) := [.step 0 1 false, .step 0 1 false, .step 0 0 false,
      .step 0 1 false, .step 0 0 false, .step 0 0 false, .step 0 0 false, .step 0 0 false,
      .step 0 0 false, .step 0 0 false, .step 0 0 false]
    let w : World ⟨64, fun _ => true⟩ Nat := run initial race
    ((w.shareds 0).arena.identity.birth = 1 ∧ (w.shareds 0).arena.identity.current = 0 ∧
        (w.shareds 0).calls[1]?
          = some ⟨1, .checkpoint, .exchangeBirth (.owner 0 none) (.nth 256)⟩) ∧
      (∀ o es, Stamp.nth 256 ∉ carriedOver o w es) ∧
      carriedOver (.shared 0) (initial : World ⟨64, fun _ => true⟩ Nat) (race ++ rest)
        = [.nth 0, .nth 0] ∧
      ∀ x ∈ carriedOver (.shared 0) (initial : World ⟨64, fun _ => true⟩ Nat) (race ++ rest),
        x.get = ((w.run rest).shareds 0).arena.identity.birth := by
  intro race rest w
  have hw : (w.shareds 0).arena.identity.birth = 1 ∧ (w.shareds 0).arena.identity.current = 0 ∧
      (w.shareds 0).calls[1]?
        = some ⟨1, .checkpoint, .exchangeBirth (.owner 0 none) (.nth 256)⟩ := by
    decide +kernel
  have hlost := (@racing_assignment_agrees ⟨64, fun _ => true⟩ Nat 0 [] race rfl rfl
    (by decide +kernel)).2.2.2.2.2.2.2 1 _ _ _ hw.2.2 rfl
    (fun hzero => Nat.one_ne_zero (hw.1.symm.trans hzero))
  have hone := (@racing_assignment_agrees ⟨64, fun _ => true⟩ Nat 0 [] (race ++ rest) rfl rfl
    (by decide +kernel)).2.2.2.2.1
  refine ⟨hw, hlost.2, by decide +kernel, fun x hx => ?_⟩
  rw [show w.run rest = run initial (race ++ rest) from (run_append _ _ _).symm]
  exact hone x hx

end World

end SafeBump
