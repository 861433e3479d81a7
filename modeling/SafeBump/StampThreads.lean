import SafeBump.Stamp

/-!
# Threads drawing stamps

`Stamp::fresh` at the granularity at which threads interleave.  A call looks
at its own pool; if it is empty it makes the atomic reservation; then it takes
the first number of the pool.  Between any two of these steps other threads
may call, reserve, take, or end.

The invariant (`FreshSystem.Inv`) says that the pools are disjoint, that a call
about to take has something to take, and that every stamp returned so far is
used up.  One lemma says what a step can end a call with
(`FreshSystem.step_result`): either a stamp never returned before, or the panic
of an exhausted space that leaves pools and counter alone.
-/

namespace SafeBump

/-- Where a thread stands in `StampPool::fresh`. -/
inductive FreshPc where
  /-- In no call. -/
  | idle
  /-- The pool was empty; about to call `reserve_raw`. -/
  | refilling
  /-- About to take the first number of the pool. -/
  | taking
deriving DecidableEq, Repr

/-- All threads of a process and the stamps returned to them, newest first. -/
structure FreshSystem where
  space : StampSpace
  pcs : ThreadId → FreshPc
  returned : List Stamp

/-- What the scheduler lets happen next. -/
inductive FreshEvent where
  /-- Thread `t` ends.  A thread born later may have the same number. -/
  | exits (t : ThreadId)
  /-- Thread `t` calls `Stamp::fresh`. -/
  | calls (t : ThreadId)
  /-- Thread `t` makes the next step of its call. -/
  | steps (t : ThreadId)

namespace FreshSystem

/-- The start of the process. -/
def initial : FreshSystem := ⟨.initial, fun _ => .idle, []⟩

/-- Move thread `t` to `pc`. -/
def goto (s : FreshSystem) (t : ThreadId) (pc : FreshPc) : FreshSystem :=
  { s with pcs := Function.update s.pcs t pc }

/-- One event, with what the call returned or panicked with if it ended one.
An event that is not possible changes nothing. -/
def step (len : Nat) (s : FreshSystem) : FreshEvent → FreshSystem × Option (Except Panic Stamp)
  | .exits t =>
      match s.pcs t with
      | .idle => ({ s with space := s.space.exit t }, none)
      | _ => (s, none)
  | .calls t =>
      match s.pcs t with
      | .idle =>
          if (s.space.pools t).next = (s.space.pools t).end_ then (s.goto t .refilling, none)
          else (s.goto t .taking, none)
      | _ => (s, none)
  | .steps t =>
      match s.pcs t with
      | .idle => (s, none)
      | .refilling =>
          match reserveRaw len s.space.nextStamp with
          | .error p => (s.goto t .idle, some (.error p))
          | .ok ((start, end_), stored) =>
              ({ s.goto t .taking with
                  space := ⟨stored, Function.update s.space.pools t ⟨start, end_⟩⟩ }, none)
      | .taking =>
          match (s.space.pools t).take with
          | (pool, .ok stamp) =>
              ({ s.goto t .idle with
                  space := s.space.setPool t pool
                  returned := stamp :: s.returned }, some (.ok stamp))
          | (pool, .error p) =>
              ({ s.goto t .idle with space := s.space.setPool t pool }, some (.error p))

/-- A run of events. -/
def run (len : Nat) (s : FreshSystem) (es : List FreshEvent) : FreshSystem :=
  es.foldl (fun s e => (s.step len e).1) s

/-- What every interleaving keeps. -/
structure Inv (s : FreshSystem) : Prop where
  space : s.space.Ok
  taking : ∀ t, s.pcs t = .taking → (s.space.pools t).next < (s.space.pools t).end_
  refilling : ∀ t, s.pcs t = .refilling → (s.space.pools t).next = (s.space.pools t).end_
  nodup : s.returned.Nodup
  used : ∀ x ∈ s.returned, ¬ s.space.Unused x.get

theorem Inv.initial : FreshSystem.initial.Inv where
  space := .initial
  taking := by
    intro t h
    cases h
  refilling := by
    intro t h
    cases h
  nodup := List.nodup_nil
  used := by
    intro x hx
    cases hx

@[simp] theorem space_goto (s : FreshSystem) (t : ThreadId) (pc : FreshPc) :
    (s.goto t pc).space = s.space := rfl

@[simp] theorem returned_goto (s : FreshSystem) (t : ThreadId) (pc : FreshPc) :
    (s.goto t pc).returned = s.returned := rfl

theorem pcs_goto (s : FreshSystem) (t u : ThreadId) (pc : FreshPc) :
    (s.goto t pc).pcs u = if u = t then pc else s.pcs u := by
  simp [goto, Function.update_apply]

/-- A thread that holds a number to take returns a stamp never returned before. -/
theorem Inv.take {s : FreshSystem} (h : s.Inv) {t : ThreadId}
    (hlt : (s.space.pools t).next < (s.space.pools t).end_) :
    ∃ x : Stamp, x.get = (s.space.pools t).next ∧ x ∉ s.returned ∧
      (s.space.pools t).take
        = (⟨(s.space.pools t).next + 1, (s.space.pools t).end_⟩, .ok x) := by
  have hbelow := h.space.below t
  have hfits := h.space.fits
  obtain ⟨x, hx, htake⟩ := StampPool.take_of_holds (h.space.positive t hlt) (by omega)
  refine ⟨x, hx, ?_, htake⟩
  intro hmem
  refine h.used x hmem (Or.inr ⟨t, ?_⟩)
  rw [hx]
  exact ⟨Nat.le_refl _, hlt⟩

/-- The three steps of a call, one lemma each; the case split is on the
program counter. -/
theorem Inv.steps {s : FreshSystem} (h : s.Inv) {len : Nat} (hlen : 0 < len) (t : ThreadId) :
    (s.step len (.steps t)).1.Inv := by
  cases hpc : s.pcs t with
  | idle =>
      simp only [step, hpc]
      exact h
  | refilling =>
      have hempty := h.refilling t hpc
      simp only [step, hpc]
      cases hr : reserveRaw len s.space.nextStamp with
      | error p =>
          refine ⟨h.space, ?_, ?_, h.nodup, h.used⟩
          · intro u hu
            simp only [pcs_goto] at hu
            split at hu
            · cases hu
            · exact h.taking u hu
          · intro u hu
            simp only [pcs_goto] at hu
            split at hu
            · cases hu
            · exact h.refilling u hu
      | ok r =>
          obtain ⟨⟨start, end_⟩, stored⟩ := r
          obtain ⟨hfit, rfl, rfl, rfl⟩ := (reserveRaw_eq_ok hlen).mp hr
          have hrefill : (⟨s.space.nextStamp + len, Function.update s.space.pools t
              ⟨s.space.nextStamp, s.space.nextStamp + len⟩⟩ : StampSpace)
              = s.space.refill t len := rfl
          simp only [hrefill]
          refine ⟨h.space.refill hfit, ?_, ?_, h.nodup, ?_⟩
          · intro u hu
            simp only [pcs_goto] at hu
            by_cases hut : u = t
            · subst hut
              rw [StampSpace.refill_pools_self]
              exact Nat.lt_add_of_pos_right hlen
            · rw [StampSpace.refill_pools_of_ne _ hut]
              rw [if_neg hut] at hu
              exact h.taking u hu
          · intro u hu
            simp only [pcs_goto] at hu
            split at hu
            · cases hu
            · rename_i hut
              rw [StampSpace.refill_pools_of_ne _ hut]
              exact h.refilling u hu
          · intro x hx hun
            exact h.used x hx ((StampSpace.refill_unused_iff hempty).mp hun)
  | taking =>
      have hlt := h.taking t hpc
      obtain ⟨x, hx, hnew, htake⟩ := h.take hlt
      simp only [step, hpc, htake]
      have hadv : s.space.setPool t ⟨(s.space.pools t).next + 1, (s.space.pools t).end_⟩
          = s.space.advance t := rfl
      simp only [hadv]
      refine ⟨h.space.advance hlt, ?_, ?_, List.nodup_cons.mpr ⟨hnew, h.nodup⟩, ?_⟩
      · intro u hu
        simp only [pcs_goto] at hu
        split at hu
        · cases hu
        · rename_i hut
          rw [StampSpace.advance, StampSpace.pools_setPool_of_ne _ hut]
          exact h.taking u hu
      · intro u hu
        simp only [pcs_goto] at hu
        split at hu
        · cases hu
        · rename_i hut
          rw [StampSpace.advance, StampSpace.pools_setPool_of_ne _ hut]
          exact h.refilling u hu
      · intro y hy hun
        obtain ⟨hun, hne⟩ := (StampSpace.advance_unused_iff h.space hlt).mp hun
        cases List.mem_cons.mp hy with
        | inl he => exact hne (he ▸ hx)
        | inr hy => exact h.used y hy hun

theorem Inv.step {s : FreshSystem} (h : s.Inv) {len : Nat} (hlen : 0 < len) (e : FreshEvent) :
    (s.step len e).1.Inv := by
  cases e with
  | exits t =>
      cases hpc : s.pcs t with
      | idle =>
          have hother : ∀ u pc, s.pcs u = pc → pc ≠ .idle → u ≠ t := by
            rintro u pc hu hne rfl
            exact hne (hu.symm.trans hpc)
          simp only [FreshSystem.step, hpc]
          refine ⟨h.space.exit t, ?_, ?_, h.nodup, ?_⟩
          · intro u hu
            rw [StampSpace.exit, StampSpace.pools_setPool_of_ne _ (hother u _ hu (by decide))]
            exact h.taking u hu
          · intro u hu
            rw [StampSpace.exit, StampSpace.pools_setPool_of_ne _ (hother u _ hu (by decide))]
            exact h.refilling u hu
          · intro x hx hun
            exact h.used x hx (StampSpace.exit_shrinks hun)
      | refilling => simpa only [FreshSystem.step, hpc] using h
      | taking => simpa only [FreshSystem.step, hpc] using h
  | calls t =>
      cases hpc : s.pcs t with
      | idle =>
          simp only [FreshSystem.step, hpc]
          by_cases hempty : (s.space.pools t).next = (s.space.pools t).end_
          · rw [if_pos hempty]
            refine ⟨h.space, ?_, ?_, h.nodup, h.used⟩
            · intro u hu
              simp only [pcs_goto] at hu
              split at hu
              · cases hu
              · exact h.taking u hu
            · intro u hu
              simp only [pcs_goto] at hu
              split at hu
              · rename_i hut
                exact hut ▸ hempty
              · exact h.refilling u hu
          · rw [if_neg hempty]
            have hlt := Nat.lt_of_le_of_ne (h.space.ordered t) hempty
            refine ⟨h.space, ?_, ?_, h.nodup, h.used⟩
            · intro u hu
              simp only [pcs_goto] at hu
              split at hu
              · rename_i hut
                exact hut ▸ hlt
              · exact h.taking u hu
            · intro u hu
              simp only [pcs_goto] at hu
              split at hu
              · cases hu
              · exact h.refilling u hu
      | refilling => simpa only [FreshSystem.step, hpc] using h
      | taking => simpa only [FreshSystem.step, hpc] using h
  | steps t => exact h.steps hlen t

theorem Inv.run {len : Nat} (hlen : 0 < len) :
    ∀ (es : List FreshEvent) {s : FreshSystem}, s.Inv → (s.run len es).Inv
  | [], _, h => h
  | e :: es, _, h => Inv.run hlen es (h.step hlen e)

/-- What a step can end a call with. -/
theorem step_result {s : FreshSystem} (h : s.Inv) {len : Nat} (hlen : 0 < len) {e : FreshEvent}
    {r : Except Panic Stamp} (hr : (s.step len e).2 = some r) :
    (∃ x, r = .ok x ∧ x ∉ s.returned ∧ (s.step len e).1.returned = x :: s.returned) ∨
      r = .error .stampSpaceExhausted ∧ 2 ^ 64 ≤ s.space.nextStamp + len ∧
        (s.step len e).1.space = s.space := by
  cases e with
  | exits t => cases hpc : s.pcs t <;> simp [step, hpc] at hr
  | calls t =>
      cases hpc : s.pcs t with
      | idle =>
          simp only [step, hpc] at hr
          split at hr <;> cases hr
      | refilling => simp [step, hpc] at hr
      | taking => simp [step, hpc] at hr
  | steps t =>
      cases hpc : s.pcs t with
      | idle => simp [step, hpc] at hr
      | refilling =>
          cases hres : reserveRaw len s.space.nextStamp with
          | error p =>
              obtain ⟨hfull, rfl⟩ := (reserveRaw_eq_error hlen).mp hres
              simp only [step, hpc, hres, Option.some.injEq] at hr ⊢
              exact Or.inr ⟨hr.symm, hfull, rfl⟩
          | ok q => simp [step, hpc, hres] at hr
      | taking =>
          obtain ⟨x, _, hnew, htake⟩ := h.take (h.taking t hpc)
          simp only [step, hpc, htake, Option.some.injEq] at hr ⊢
          exact Or.inl ⟨x, hr.symm, hnew, rfl⟩

/-- A pool that still holds numbers serves its thread, exhausted space or not. -/
theorem call_of_holds {s : FreshSystem} (h : s.Inv) (len : Nat) {t : ThreadId}
    (hpc : s.pcs t = .idle) (hlt : (s.space.pools t).next < (s.space.pools t).end_) :
    ∃ x, x ∉ s.returned ∧ ((s.step len (.calls t)).1.step len (.steps t)).2 = some (.ok x) := by
  obtain ⟨x, _, hnew, htake⟩ := h.take hlt
  refine ⟨x, hnew, ?_⟩
  have hcall : (s.step len (.calls t)).1 = s.goto t .taking := by
    simp [step, hpc, Nat.ne_of_lt hlt]
  have hpc' : (s.goto t .taking).pcs t = .taking := by simp [pcs_goto]
  rw [hcall]
  simp only [step, hpc', space_goto, htake]

/-- With an empty pool and no room left a call panics and changes nothing but
its own program counter. -/
theorem call_of_exhausted {s : FreshSystem} {len : Nat} (hlen : 0 < len) {t : ThreadId}
    (hpc : s.pcs t = .idle) (hempty : (s.space.pools t).next = (s.space.pools t).end_)
    (hfull : 2 ^ 64 ≤ s.space.nextStamp + len) :
    (s.step len (.calls t)).1.step len (.steps t)
      = ((s.goto t .refilling).goto t .idle, some (.error .stampSpaceExhausted)) := by
  have hcall : (s.step len (.calls t)).1 = s.goto t .refilling := by
    simp [step, hpc, hempty]
  have hpc' : (s.goto t .refilling).pcs t = .refilling := by simp [pcs_goto]
  have hres := (reserveRaw_eq_error hlen).mpr ⟨hfull, rfl⟩
  rw [hcall]
  simp only [step, hpc', space_goto, hres]

/-- With an empty pool and room left a call reserves a range and returns its
first number. -/
theorem call_of_room {s : FreshSystem} (h : s.Inv) {len : Nat} (hlen : 0 < len) {t : ThreadId}
    (hpc : s.pcs t = .idle) (hempty : (s.space.pools t).next = (s.space.pools t).end_)
    (hfit : s.space.nextStamp + len < 2 ^ 64) :
    ∃ x : Stamp, x.get = s.space.nextStamp ∧ x ∉ s.returned ∧
      (((s.step len (.calls t)).1.step len (.steps t)).1.step len (.steps t)).2
        = some (.ok x) := by
  -- the call and its reservation, with nothing returned yet
  have hcall : (s.step len (.calls t)).1 = s.goto t .refilling := by
    simp [step, hpc, hempty]
  have hpc' : (s.goto t .refilling).pcs t = .refilling := by simp [pcs_goto]
  have hres := (reserveRaw_eq_ok hlen).mpr ⟨hfit, rfl, rfl, rfl⟩
  have hrefill : ((s.goto t .refilling).step len (.steps t)).1
      = { (s.goto t .refilling).goto t .taking with space := s.space.refill t len } := by
    simp only [step, hpc', space_goto, hres]
    rfl
  have hinv := (h.step hlen (.calls t)).steps hlen t
  rw [hcall, hrefill] at hinv
  -- what it takes is the first number of the range
  have hpool : (s.space.refill t len).pools t
      = ⟨s.space.nextStamp, s.space.nextStamp + len⟩ := StampSpace.refill_pools_self _ _ _
  have hlt : ((s.space.refill t len).pools t).next < ((s.space.refill t len).pools t).end_ := by
    rw [hpool]
    exact Nat.lt_add_of_pos_right hlen
  obtain ⟨x, hx, hnew, htake⟩ := hinv.take hlt
  refine ⟨x, hx.trans (congrArg StampPool.next hpool), hnew, ?_⟩
  rw [hcall, hrefill]
  have hpc'' : ((s.goto t .refilling).goto t .taking).pcs t = .taking := by simp [pcs_goto]
  simp only [step, hpc'', htake]

end FreshSystem

open FreshSystem in
/-- No two calls of `Stamp::fresh` return the same stamp, whatever threads are
born, die and interleave, and no call fails but for want of room: with room left a
thread that goes on by itself gets a new one. -/
theorem stamps_are_unique (len : Nat) (hlen : 0 < len) (es : List FreshEvent) :
    let s := FreshSystem.initial.run len es
    (s.returned.Nodup ∧ ∀ x ∈ s.returned, x.get ≠ 0 ∧ x.get < s.space.nextStamp) ∧
      (∀ t, (s.space.pools t).next ≤ (s.space.pools t).end_ ∧
        (s.space.pools t).end_ ≤ s.space.nextStamp) ∧
      (∀ t u x, t ≠ u → (s.space.pools t).Holds x → ¬ (s.space.pools u).Holds x) ∧
      (∀ t, ∀ x ∈ s.returned, ¬ (s.space.pools t).Holds x.get) ∧
      (∀ e r, (s.step len e).2 = some r →
        (∃ x, r = .ok x ∧ x ∉ s.returned) ∨
          r = .error .stampSpaceExhausted ∧ 2 ^ 64 ≤ s.space.nextStamp + len ∧
            (s.step len e).1.space = s.space) ∧
      (∀ t, s.pcs t = .idle → (s.space.pools t).next < (s.space.pools t).end_ →
        ∃ x, x ∉ s.returned ∧
          ((s.step len (.calls t)).1.step len (.steps t)).2 = some (.ok x)) ∧
      (∀ t, s.pcs t = .idle → (s.space.pools t).next = (s.space.pools t).end_ →
        s.space.nextStamp + len < 2 ^ 64 →
        ∃ x : Stamp, x.get = s.space.nextStamp ∧ x ∉ s.returned ∧
          (((s.step len (.calls t)).1.step len (.steps t)).1.step len (.steps t)).2
            = some (.ok x)) ∧
      (∀ t, s.pcs t = .idle → (s.space.pools t).next = (s.space.pools t).end_ →
        2 ^ 64 ≤ s.space.nextStamp + len →
        ((s.step len (.calls t)).1.step len (.steps t)).2 = some (.error .stampSpaceExhausted) ∧
          ((s.step len (.calls t)).1.step len (.steps t)).1.space = s.space) := by
  intro s
  have h : s.Inv := Inv.initial.run hlen es
  refine ⟨⟨h.nodup, ?_⟩, ?_, ?_, ?_, ?_, ?_, ?_, ?_⟩
  · intro x hx
    refine ⟨x.ne_zero, ?_⟩
    by_contra hge
    exact h.used x hx (Or.inl (Nat.le_of_not_lt hge))
  · exact fun t => ⟨h.space.ordered t, h.space.below t⟩
  · exact fun t u x hne ht hu => hne (h.space.disjoint t u x ht hu)
  · exact fun t x hx hheld => h.used x hx (Or.inr ⟨t, hheld⟩)
  · intro e r hr
    rcases step_result h hlen hr with ⟨x, hx, hnew, _⟩ | herr
    · exact Or.inl ⟨x, hx, hnew⟩
    · exact Or.inr herr
  · exact fun t hpc hlt => call_of_holds h len hpc hlt
  · exact fun t hpc hempty hfit => call_of_room h hlen hpc hempty hfit
  · intro t hpc hempty hfull
    rw [call_of_exhausted hlen hpc hempty hfull]
    exact ⟨rfl, rfl⟩

/-- Two threads refill at the same time.  Thread 1 reserves first and thread 0 takes first,
so the stamps come out of the order of their numbers. -/
theorem stamps_are_unique_two_threads :
    let s := FreshSystem.initial.run localReservationLen
      [.calls 0, .calls 1, .steps 1, .steps 0, .steps 0, .steps 1]
    s.returned = [.nth 0, .nth localReservationLen] ∧ s.returned.Nodup :=
  ⟨by decide +kernel, (stamps_are_unique localReservationLen (by decide)
    [.calls 0, .calls 1, .steps 1, .steps 0, .steps 0, .steps 1]).1.1⟩

end SafeBump
