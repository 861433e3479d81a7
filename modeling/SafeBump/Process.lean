import SafeBump.ArenaModel

/-!
# The arenas of a process

Any number of single-thread arenas, used by any threads of one process, and
the stamps they draw from.  An arena that does not exist yet is a new one.
Whatever else in the process draws stamps does so by `Event.draw`.

`Process.changes` is what an event means for one arena: the boundary it commits
there, read off how the call ended, or the writes it makes through the mutable
accessors.
-/

namespace SafeBump

open Library.Unwind

/-- The arenas of a process, and the values each of them dropped. -/
structure Process (T : Type) where
  stamps : StampSpace
  arenas : Nat → Arena T
  dropped : Nat → List T

/-- What can happen in a process. -/
inductive Event (T : Type) where
  /-- Thread `t` makes a call on arena `n`. -/
  | request (t : ThreadId) (n : Nat) (req : Request T)
  /-- Values of arena `n` are written in place. -/
  | write (n : Nat) (w : Write T)
  /-- Thread `t` draws a stamp for something else. -/
  | draw (t : ThreadId)
  /-- Thread `t` ends. -/
  | exit (t : ThreadId)

/-- The arena an event is about. -/
def Event.arena {T : Type} : Event T → Option Nat
  | .request _ n _ => some n
  | .write n _ => some n
  | _ => none

namespace Process

variable {T : Type}

/-- The start of a process. -/
def initial : Process T := ⟨.initial, fun _ => .new, fun _ => []⟩

section Step

variable (tgt : Target) (p : Process T)

/-- Arena `n`, as a call on it finds it. -/
def ctx (n : Nat) : Ctx (Arena T) StampSpace T := ⟨p.arenas n, p.stamps, p.dropped n⟩

/-- What a call on arena `n` left. -/
def put (n : Nat) (c : Ctx (Arena T) StampSpace T) : Process T :=
  ⟨c.source, Function.update p.arenas n c.arena, Function.update p.dropped n c.dropped⟩

/-- A call of thread `t` on arena `n`. -/
def served (t : ThreadId) (n : Nat) (req : Request T) :
    EStateM.Result Exit (Ctx (Arena T) StampSpace T) (Reply T) :=
  (Arena.serve tgt (StampSpace.fresh t) req).run (p.ctx n)

/-- How a call of thread `t` on arena `n` ends. -/
def outcome (t : ThreadId) (n : Nat) (req : Request T) : Except Exit (Reply T) :=
  ending (p.served tgt t n req)

def step : Event T → Process T
  | .request t n req => p.put n (left (p.served tgt t n req))
  | .write n w => p.put n (left ((Arena.write w).run (p.ctx n)))
  | .draw t => { p with stamps := (p.stamps.fresh t).2 }
  | .exit t => { p with stamps := p.stamps.exit t }

/-- The reply an event delivers, and the arena it comes from.  A write through
`iter_indexed_mut` delivers the indices it was given. -/
def reply : Event T → Option (Nat × Reply T)
  | .request t n req =>
      match p.outcome tgt t n req with
      | .ok reply => some (n, reply)
      | .error _ => none
  | .write n (.iterIndexedMut _) =>
      match (p.arenas n).iterIndexed with
      | .ok pairs => some (n, .indexed pairs)
      | .error _ => none
  | _ => none

/-- What an event does to arena `n`. -/
def changes (n : Nat) : Event T → List (Change T)
  | .request t m req =>
      if m = n then Change.ofBoundary (committed req (p.outcome tgt t n req)) else []
  | .write m w => if m = n then (p.arenas n).changes w else []
  | _ => []

@[simp] theorem stamps_put (n : Nat) (c : Ctx (Arena T) StampSpace T) :
    (p.put n c).stamps = c.source := rfl

@[simp] theorem arenas_put_self (n : Nat) (c : Ctx (Arena T) StampSpace T) :
    (p.put n c).arenas n = c.arena := Function.update_self ..

@[simp] theorem dropped_put_self (n : Nat) (c : Ctx (Arena T) StampSpace T) :
    (p.put n c).dropped n = c.dropped := Function.update_self ..

theorem arenas_put_of_ne {n m : Nat} (h : m ≠ n) (c : Ctx (Arena T) StampSpace T) :
    (p.put n c).arenas m = p.arenas m := Function.update_of_ne h ..

theorem dropped_put_of_ne {n m : Nat} (h : m ≠ n) (c : Ctx (Arena T) StampSpace T) :
    (p.put n c).dropped m = p.dropped m := Function.update_of_ne h ..

/-- An event leaves the other arenas alone. -/
theorem step_of_ne {e : Event T} {n : Nat} (h : e.arena ≠ some n) :
    (p.step tgt e).arenas n = p.arenas n ∧ (p.step tgt e).dropped n = p.dropped n := by
  cases e with
  | request t m req =>
      have hne : n ≠ m := fun he => h (congrArg some he.symm)
      exact ⟨p.arenas_put_of_ne hne _, p.dropped_put_of_ne hne _⟩
  | write m w =>
      have hne : n ≠ m := fun he => h (congrArg some he.symm)
      exact ⟨p.arenas_put_of_ne hne _, p.dropped_put_of_ne hne _⟩
  | draw t => exact ⟨rfl, rfl⟩
  | exit t => exact ⟨rfl, rfl⟩

end Step

/-- A run. -/
def run (tgt : Target) (p : Process T) (es : List (Event T)) : Process T := es.foldl (step tgt) p

/-- What a run does to arena `n`. -/
def changesOver (tgt : Target) (n : Nat) : Process T → List (Event T) → List (Change T)
  | _, [] => []
  | p, e :: es => p.changes tgt n e ++ changesOver tgt n (p.step tgt e) es

@[simp] theorem run_nil (tgt : Target) (p : Process T) : p.run tgt [] = p := rfl

@[simp] theorem run_cons (tgt : Target) (p : Process T) (e : Event T) (es : List (Event T)) :
    p.run tgt (e :: es) = (p.step tgt e).run tgt es := rfl

end Process

end SafeBump
