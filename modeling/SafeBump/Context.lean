import SafeBump.Library.Unwind
import SafeBump.Stamp

/-!
# Calls on an arena

A call on an arena runs in a `Ctx`: the arena, the state of whatever
`Stamp::fresh` draws from, and the values dropped so far.  How stamps are drawn
is a parameter, a `Source`, so that one definition of each operation serves a
process with its threads (`StampSpace.fresh t`) and two arenas run side by side
on the same stamps.

Two things of Rust are explicit here.  A destructor is a step of its own that
may panic after the value is gone (`dropValue`).  A frame that unwinds drops
the values it still owns (`owning`).
-/

namespace SafeBump

/-- A way of drawing stamps: what `Stamp::fresh` does to the state it draws from. -/
abbrev Source (σ : Type) := σ → Except Panic Stamp × σ

/-- The source that hands out the stamps of a list and is exhausted after. -/
def script : Source (List Stamp)
  | [] => (.error .stampSpaceExhausted, [])
  | stamp :: rest => (.ok stamp, rest)

/-- The state of a call on an arena of kind `A`. -/
structure Ctx (A σ T : Type) where
  /-- The arena. -/
  arena : A
  /-- What stamps are drawn from. -/
  source : σ
  /-- The values whose destructors ran, in the order they ran. -/
  dropped : List T

/-- A call on an arena. -/
abbrev Op (A σ T : Type) := EStateM Exit (Ctx A σ T)

/-- Which destructors panic, by the slot the value is taken from and the value. -/
abbrev Dtor (T : Type) := Nat → T → Bool

section Op

variable {A σ T : Type}

/-- `Stamp::fresh`. -/
def draw (fresh : Source σ) : EStateM Exit σ Stamp := fun src =>
  match fresh src with
  | (.ok stamp, src) => .ok stamp src
  | (.error p, src) => .error (.unwinds p) src

theorem run_draw_ok {fresh : Source σ} {src src' : σ} {stamp : Stamp}
    (h : fresh src = (.ok stamp, src')) : (draw fresh).run src = .ok stamp src' := by
  simp only [draw, EStateM.run, h]

theorem run_draw_error {fresh : Source σ} {src src' : σ} {p : Panic}
    (h : fresh src = (.error p, src')) : (draw fresh).run src = .error (.unwinds p) src' := by
  simp only [draw, EStateM.run, h]

/-- `Stamp::fresh` in a method of an identity `I`. -/
def drawBeside {I : Type} (fresh : Source σ) : EStateM Exit (I × σ) Stamp :=
  Library.Unwind.zoom Prod.snd (fun src c => (c.1, src)) (draw fresh)

theorem run_drawBeside_ok {I : Type} {fresh : Source σ} {id : I} {src src' : σ} {stamp : Stamp}
    (h : fresh src = (.ok stamp, src')) :
    (drawBeside fresh).run (id, src) = .ok stamp (id, src') :=
  Library.Unwind.run_zoom_ok (t := (id, src)) (run_draw_ok h)

theorem run_drawBeside_error {I : Type} {fresh : Source σ} {id : I} {src src' : σ} {p : Panic}
    (h : fresh src = (.error p, src')) :
    (drawBeside fresh).run (id, src) = .error (.unwinds p) (id, src') :=
  Library.Unwind.run_zoom_error (t := (id, src)) (run_draw_error h)

/-- `Stamp::fresh` in a call on an arena. -/
def drawStamp (fresh : Source σ) : Op A σ T Stamp :=
  Library.Unwind.zoom Ctx.source (fun src c => { c with source := src }) (draw fresh)

theorem run_drawStamp_ok {fresh : Source σ} {c : Ctx A σ T} {src : σ} {stamp : Stamp}
    (h : fresh c.source = (.ok stamp, src)) :
    (drawStamp fresh).run c = .ok stamp { c with source := src } :=
  Library.Unwind.run_zoom_ok (t := c) (run_draw_ok h)

theorem run_drawStamp_error {fresh : Source σ} {c : Ctx A σ T} {src : σ} {p : Panic}
    (h : fresh c.source = (.error p, src)) :
    (drawStamp fresh).run c = .error (.unwinds p) { c with source := src } :=
  Library.Unwind.run_zoom_error (t := c) (run_draw_error h)

/-- A call that only computes. -/
def ofExcept {α : Type} : Except Panic α → Op A σ T α
  | .ok a => pure a
  | .error p => throw (.unwinds p)

@[simp] theorem run_ofExcept_ok {α : Type} (a : α) (c : Ctx A σ T) :
    (ofExcept (.ok a)).run c = .ok a c := rfl

@[simp] theorem run_ofExcept_error {α : Type} (p : Panic) (c : Ctx A σ T) :
    (ofExcept (.error p) : Op A σ T α).run c = .error (.unwinds p) c := rfl

/-- Drop the value taken from `slot`.  The value is gone even if its
destructor panics. -/
def dropValue (panics : Dtor T) (slot : Nat) (value : T) : Op A σ T Unit := fun c =>
  let c := { c with dropped := c.dropped ++ [value] }
  if panics slot value then .error (.unwinds .destructor) c else .ok () c

@[simp] theorem run_dropValue (panics : Dtor T) (slot : Nat) (value : T) (c : Ctx A σ T) :
    (dropValue panics slot value).run c =
      if panics slot value then
        .error (.unwinds .destructor) { c with dropped := c.dropped ++ [value] }
      else .ok () { c with dropped := c.dropped ++ [value] } := rfl

/-- Run `m` in a frame that owns `values`: unwinding drops them. -/
def owning {α : Type} (values : List T) (m : Op A σ T α) : Op A σ T α := fun c =>
  match m.run c with
  | .ok a c => .ok a c
  | .error (.unwinds p) c => .error (.unwinds p) { c with dropped := c.dropped ++ values }
  | .error .spins c => .error .spins c

theorem run_owning_ok {α : Type} (values : List T) {m : Op A σ T α} {c c' : Ctx A σ T} {a : α}
    (h : m.run c = .ok a c') : (owning values m).run c = .ok a c' := by
  simp only [owning, EStateM.run] at *
  simp only [h]

theorem run_owning_unwinds {α : Type} (values : List T) {m : Op A σ T α} {c c' : Ctx A σ T}
    {p : Panic} (h : m.run c = .error (.unwinds p) c') :
    (owning values m).run c
      = .error (.unwinds p) { c' with dropped := c'.dropped ++ values } := by
  simp only [owning, EStateM.run] at *
  simp only [h]

theorem run_owning_spins {α : Type} (values : List T) {m : Op A σ T α} {c c' : Ctx A σ T}
    (h : m.run c = .error .spins c') : (owning values m).run c = .error .spins c' := by
  simp only [owning, EStateM.run] at *
  simp only [h]

/-- What a caller's iterator does: it yields `values` and then ends or panics. -/
structure Input (T : Type) where
  values : List T
  panics : Bool := false

/-- `iter.into_iter().collect()`. -/
def Input.collect (input : Input T) : Op A σ T (List T) :=
  if input.panics then owning input.values (throw (.unwinds .input)) else pure input.values

end Op

end SafeBump
