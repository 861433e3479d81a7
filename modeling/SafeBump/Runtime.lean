import Mathlib

/-!
# The runtime the code rests on

Machine words, panics and unwinding.

A word is a natural number below a power of two.  `checkedAdd` is
`checked_add`; no other addition of the code is allowed to leave the range,
which is what the theorems about it say.

A call either returns or ends early.  Ending early is mostly a panic that
unwinds; a loop that waits for something no other thread will do is the other
way.  In both cases the state reached so far stays, so a call is a state
transformer that keeps its state on failure, `EStateM`.  While a frame
unwinds, the values it still owns are dropped.

The state of a call on an arena is a `Ctx`: the arena, the source its stamps
come from, and a log of the values whose destructors ran.
-/

namespace SafeBump

/-! ## Words -/

/-- `checked_add` on words of `bits` bits. -/
def checkedAdd (bits a b : Nat) : Option Nat :=
  if a + b < 2 ^ bits then some (a + b) else none

theorem checkedAdd_eq_some {bits a b c : Nat} :
    checkedAdd bits a b = some c ↔ a + b < 2 ^ bits ∧ c = a + b := by
  by_cases h : a + b < 2 ^ bits
  · simp [checkedAdd, h, eq_comm]
  · simp [checkedAdd, h]

theorem checkedAdd_eq_none {bits a b : Nat} :
    checkedAdd bits a b = none ↔ 2 ^ bits ≤ a + b := by
  by_cases h : a + b < 2 ^ bits
  · simp [checkedAdd, h]
  · simp [checkedAdd, h]
    omega

/-- What the code depends on of the machine it runs on. -/
structure Target where
  /-- `usize::BITS`. -/
  bits : Nat
  /-- Whether collecting the `2 ^ k` empty slots of chunk `k` succeeds. -/
  allocates : Nat → Bool

/-- `usize::MAX`. -/
def Target.usizeMax (tgt : Target) : Nat := 2 ^ tgt.bits - 1

/-- `usize::checked_add`. -/
def Target.checkedAdd (tgt : Target) (a b : Nat) : Option Nat := SafeBump.checkedAdd tgt.bits a b

theorem Target.checkedAdd_eq_some {tgt : Target} {a b c : Nat} :
    tgt.checkedAdd a b = some c ↔ a + b ≤ tgt.usizeMax ∧ c = a + b := by
  have := Nat.two_pow_pos tgt.bits
  rw [Target.checkedAdd, SafeBump.checkedAdd_eq_some, Target.usizeMax]
  omega

theorem Target.checkedAdd_eq_none {tgt : Target} {a b : Nat} :
    tgt.checkedAdd a b = none ↔ tgt.usizeMax < a + b := by
  have := Nat.two_pow_pos tgt.bits
  rw [Target.checkedAdd, SafeBump.checkedAdd_eq_none, Target.usizeMax]
  omega

/-! ## Panics -/

/-- The places the code can panic at, its callers' code included. -/
inductive Panic where
  /-- "a stamp reservation must be non-empty" -/
  | stampReservationEmpty
  /-- "safe-bump allocation stamp space exhausted" -/
  | stampSpaceExhausted
  /-- "the successful atomic reservation has a representable end" -/
  | stampReservationEnd
  /-- "a reserved stamp range ends before u64 overflow" -/
  | stampRangeOverflow
  /-- "the stamp sequence starts at one" -/
  | stampZero
  /-- "a validated checkpoint implies this arena already has an identity" -/
  | identityMissing
  /-- "the rollback loop observes a non-empty suffix" -/
  | suffixEmpty
  /-- "the identity is assigned whenever the arena holds values" -/
  | identityUnassigned
  /-- "a non-birth current stamp is never the unassigned sentinel" -/
  | currentUnassigned
  /-- "a stamped allocation block must be non-empty" -/
  | blockEmpty
  /-- "allocation block end exceeds usize" -/
  | blockEnd
  /-- "an atomic allocation range must be non-empty" -/
  | rangeEmpty
  /-- "shared arena slot space exhausted" -/
  | slotSpaceExhausted
  /-- "a reserved allocation range has a representable end" -/
  | rangeEnd
  /-- "reserved slot {slot} was already occupied" -/
  | slotOccupied (slot : Nat)
  /-- "every published slot contains a value" -/
  | slotVacant
  /-- "chunked storage cannot represent usize::MAX as a slot" -/
  | slotUnrepresentable
  /-- "chunk not allocated" -/
  | chunkMissing
  /-- "slot is empty" -/
  | slotEmpty
  /-- An index outside an array or a slice. -/
  | indexOutOfBounds
  /-- "capacity overflow" of a collection. -/
  | capacityOverflow
  /-- "index capability is foreign or stale" -/
  | staleIndex
  /-- "invalid checkpoint" -/
  | invalidCheckpoint
  /-- A value's destructor panics. -/
  | destructor
  /-- The caller's input iterator panics. -/
  | input
deriving DecidableEq, Repr

/-- How a call fails to return. -/
inductive Exit where
  /-- It panics and unwinds. -/
  | unwinds (p : Panic)
  /-- It spins forever on a condition no other thread will change. -/
  | spins
deriving DecidableEq, Repr

end SafeBump
