import SafeBump.Calls
import SafeBump.Process

/-!
# All arenas of a process

Any number of arenas of both kinds.  The single-thread ones and the stamps are
those of `Process`.  On a concurrent arena any number of calls can be under way
(`Shared`); a request that takes `&mut self` is served while there are none, and
then the calls made before are over and forgotten.  A request that only reads is
answered at any time, in one step.
-/

namespace SafeBump

open Library.Unwind

/-- One of the arenas of a process. -/
inductive Owner where
  | single (n : Nat)
  | shared (n : Nat)
deriving DecidableEq, Repr

/-- The arenas of a process. -/
structure World (tgt : Target) (T : Type) where
  process : Process T
  shareds : Nat → Shared tgt T

namespace World

/-- What can happen. -/
inductive Event (T : Type) where
  /-- Something that is no business of the concurrent arenas. -/
  | single (e : SafeBump.Event T)
  /-- Thread `t` makes a call on concurrent arena `n`. -/
  | start (n : Nat) (t : ThreadId) (ask : Ask T)
  /-- Call `i` on concurrent arena `n` makes its next step. -/
  | step (n i : Nat) (mishap : Bool)
  /-- Thread `t` has concurrent arena `n` to itself. -/
  | alone (t : ThreadId) (n : Nat) (req : Request T)

/-- A request to either kind of arena. -/
def Event.request {T : Type} (t : ThreadId) : Owner → Request T → Event T
  | .single n, req => .single (.request t n req)
  | .shared n, req => .alone t n req

/-- The arena an event is about. -/
def Event.owner {T : Type} : Event T → Option Owner
  | .single e => e.arena.map .single
  | .start n _ _ => some (.shared n)
  | .step n _ _ => some (.shared n)
  | .alone _ n _ => some (.shared n)

variable {tgt : Target} {T : Type}

/-- The start of a process. -/
def initial : World tgt T := ⟨.initial, fun _ => .idle .new⟩

section Step

variable (w : World tgt T)

/-- Replace one concurrent arena, and the stamps. -/
def put (n : Nat) (stamps : StampSpace) (s : Shared tgt T) : World tgt T :=
  ⟨{ w.process with stamps := stamps }, Function.update w.shareds n s⟩

/-- A request of thread `t` on concurrent arena `n`. -/
def served (t : ThreadId) (n : Nat) (req : Request T) :
    EStateM.Result Exit (Ctx (SharedArena tgt T) StampSpace T) (Reply T) :=
  (SharedArena.serve (StampSpace.fresh t) req).run
    ⟨(w.shareds n).arena, w.process.stamps, (w.shareds n).dropped⟩

/-- How a request of thread `t` ends. -/
def outcome (t : ThreadId) : Owner → Request T → Except Exit (Reply T)
  | .single n, req => w.process.outcome tgt t n req
  | .shared n, req => ending (w.served t n req)

/-- Nothing else is going on on the arena. -/
def quiet : Owner → Bool
  | .single _ => true
  | .shared n => (w.shareds n).quiet

/-- What `Stamp::fresh()` answers a call, if that is its next step. -/
def answer (c : Call T) : Except Panic Stamp × StampSpace :=
  match c.pc with
  | .draw _ => w.process.stamps.fresh c.thread
  | _ => (.error .stampSpaceExhausted, w.process.stamps)

def step : Event T → World tgt T
  | .single e => { w with process := w.process.step tgt e }
  | .start n t ask => w.put n w.process.stamps ((w.shareds n).start t ask)
  | .step n i mishap =>
      match (w.shareds n).calls[i]? with
      | none => w
      | some c => w.put n (w.answer c).2 ((w.shareds n).step i (w.answer c).1 mishap)
  | .alone t n req =>
      if (w.shareds n).quiet then
        let c := left (w.served t n req)
        w.put n c.source ⟨c.arena, [], c.dropped⟩
      else w

/-- The reply an event delivers, and the arena it comes from. -/
def reply : Event T → Option (Owner × Reply T)
  | .single e => (w.process.reply tgt e).map fun r => (.single r.1, r.2)
  | .start _ _ _ => none
  | .step n i mishap =>
      match ((w.step (.step n i mishap)).shareds n).calls[i]? with
      | some ⟨_, _, .returned reply⟩ => some (.shared n, reply)
      | _ => none
  | .alone t n req =>
      if (w.shareds n).quiet || req.reads then
        match w.outcome t (.shared n) req with
        | .ok reply => some (.shared n, reply)
        | .error _ => none
      else none

/-- What an event does to an arena. -/
def changes (o : Owner) : Event T → List (Change T)
  | .single e =>
      match o with
      | .single n => w.process.changes tgt n e
      | .shared _ => []
  | .alone t n req =>
      if o = .shared n ∧ (w.shareds n).quiet then
        Change.ofBoundary (committed req (w.outcome t o req))
      else []
  | _ => []

/-- The number of values of an arena. -/
def len : Owner → Nat
  | .single n => (w.process.arenas n).len
  | .shared n => (w.shareds n).arena.len

/-- The values an arena dropped. -/
def dropped : Owner → List T
  | .single n => w.process.dropped n
  | .shared n => (w.shareds n).dropped

/-- The values in the slots of an arena. -/
def contents (w : World tgt T) : Owner → List T
  | .single n => (w.process.arenas n).items
  | .shared n => (w.shareds n).arena.contents

@[simp] theorem stamps_put (n : Nat) (stamps : StampSpace) (s : Shared tgt T) :
    (w.put n stamps s).process.stamps = stamps := rfl

@[simp] theorem shareds_put_self (n : Nat) (stamps : StampSpace) (s : Shared tgt T) :
    (w.put n stamps s).shareds n = s := Function.update_self ..

theorem dropped_put_self (n : Nat) (stamps : StampSpace) (s : Shared tgt T) :
    (w.put n stamps s).dropped (.shared n) = s.dropped := by
  rw [dropped, shareds_put_self]

theorem shareds_put_of_ne {n m : Nat} (h : m ≠ n) (stamps : StampSpace) (s : Shared tgt T) :
    (w.put n stamps s).shareds m = w.shareds m := Function.update_of_ne h ..

/-- An event leaves the other single-thread arenas alone. -/
theorem singles_step_of_ne {e : Event T} {n : Nat} (h : e.owner ≠ some (.single n)) :
    (w.step e).process.arenas n = w.process.arenas n ∧
      (w.step e).process.dropped n = w.process.dropped n := by
  cases e with
  | single e => exact w.process.step_of_ne tgt fun he => h (congrArg (Option.map Owner.single) he)
  | start m t ask => exact ⟨rfl, rfl⟩
  | step m i mishap => rw [step]; split <;> exact ⟨rfl, rfl⟩
  | alone t m req => rw [step]; split <;> exact ⟨rfl, rfl⟩

/-- An event leaves the other concurrent arenas alone. -/
theorem shareds_step_of_ne {e : Event T} {n : Nat} (h : e.owner ≠ some (.shared n)) :
    (w.step e).shareds n = w.shareds n := by
  have hne : ∀ {m}, some (Owner.shared m) ≠ some (.shared n) → n ≠ m := fun h he => h (he ▸ rfl)
  cases e with
  | single e => rfl
  | start m t ask => exact w.shareds_put_of_ne (hne h) _ _
  | step m i mishap =>
      rw [step]
      split
      · rfl
      · exact w.shareds_put_of_ne (hne h) _ _
  | alone t m req =>
      rw [step]
      split
      · exact w.shareds_put_of_ne (hne h) _ _
      · rfl

/-- After a request an arena is free again. -/
theorem quiet_step_request (t : ThreadId) {o : Owner} (req : Request T)
    (hquiet : w.quiet o = true) : (w.step (.request t o req)).quiet o = true := by
  cases o with
  | single n => rfl
  | shared n =>
      have hq : (w.shareds n).quiet = true := hquiet
      rw [quiet, Event.request, World.step, if_pos hq, shareds_put_self]
      rfl

/-- What holds of every call that starts, and goes on to hold when one moves, holds of them all. -/
theorem forall_calls_step {P : Ask T → Pc T → Prop} (hstart : ∀ ask, P ask ask.start)
    (hmove : ∀ (ask : Ask T) answer mishap (a : SharedArena tgt T) pc, P ask pc →
      P ask (ask.move answer mishap a pc).2)
    (h : ∀ n, ∀ c ∈ (w.shareds n).calls, P c.ask c.pc) (e : Event T) (n : Nat) :
    ∀ c ∈ ((w.step e).shareds n).calls, P c.ask c.pc := by
  by_cases howner : e.owner = some (.shared n)
  · cases e with
    | single e => exact h n
    | start m t ask =>
        cases howner
        rw [step, shareds_put_self]
        exact Shared.forall_calls_start (h n) t (hstart ask)
    | step m i mishap =>
        cases howner
        rw [step]
        split
        · exact h n
        · rw [shareds_put_self]
          exact Shared.forall_calls_step (h n) fun c hc => hmove _ _ _ _ _ (h n c hc)
    | alone t m req =>
        cases howner
        rw [step]
        split
        · rw [shareds_put_self]
          exact fun c hc => by cases hc
        · exact h n
  · rw [w.shareds_step_of_ne howner]
    exact h n

end Step

section Answers

variable {w : World tgt T}

/-- What a call is answered is what the stamps of its thread say. -/
theorem answer_spends (hok : w.process.stamps.Ok) (c : Call T) :
    w.process.stamps.Spends (w.answer c).1.toOption (w.answer c).2 ∧
      ∀ p, (w.answer c).1 = .error p → p = .stampSpaceExhausted := by
  rw [answer]
  split
  · refine ⟨.fresh hok c.thread, fun p hp => ?_⟩
    rcases hf : w.process.stamps.fresh c.thread with ⟨r, sp⟩
    rw [hf] at hp
    cases hp
    exact (StampSpace.fresh_error hok hf).1
  · exact ⟨.refl hok, fun p hp => (Except.error.inj hp).symm⟩

theorem reply_alone {t : ThreadId} {n : Nat} {req : Request T} {o : Owner} {r : Reply T}
    (h : w.reply (.alone t n req) = some (o, r)) :
    ((w.shareds n).quiet = true ∨ req.reads = true) ∧ o = .shared n ∧
      w.outcome t (.shared n) req = .ok r := by
  rw [World.reply] at h
  split at h
  · rename_i hen
    split at h
    · rename_i ho
      cases h
      exact ⟨Bool.or_eq_true_iff.mp hen, rfl, ho⟩
    · cases h
  · cases h

end Answers

/-- A run. -/
def run (w : World tgt T) (es : List (Event T)) : World tgt T := es.foldl step w

theorem forall_calls_run {P : Ask T → Pc T → Prop} (hstart : ∀ ask, P ask ask.start)
    (hmove : ∀ (ask : Ask T) answer mishap (a : SharedArena tgt T) pc, P ask pc →
      P ask (ask.move answer mishap a pc).2) {w : World tgt T}
    (h : ∀ n, ∀ c ∈ (w.shareds n).calls, P c.ask c.pc) (es : List (Event T)) (n : Nat) :
    ∀ c ∈ ((w.run es).shareds n).calls, P c.ask c.pc := by
  induction es generalizing w with
  | nil => exact h n
  | cons e es ih => exact ih (w.forall_calls_step hstart hmove h e)

/-- What a run does to an arena. -/
def changesOver (o : Owner) : World tgt T → List (Event T) → List (Change T)
  | _, [] => []
  | w, e :: es => w.changes o e ++ changesOver o (w.step e) es

@[simp] theorem run_nil (w : World tgt T) : w.run [] = w := rfl

@[simp] theorem run_cons (w : World tgt T) (e : Event T) (es : List (Event T)) :
    w.run (e :: es) = (w.step e).run es := rfl

theorem run_append (w : World tgt T) (es es' : List (Event T)) :
    w.run (es ++ es') = (w.run es).run es' := List.foldl_append

end World

end SafeBump
