import SafeBump.ChunkedStorage
import SafeBump.Request
import SafeBump.SharedIdentity

/-!
# The concurrent arena on one thread

`shared_arena.rs`, each operation as one call that nothing interferes with.
Slots are reserved by moving `reserved`, filled in the chunked storage, and
published by moving `published` over filled slots.

With no other thread about, a compare-exchange fails at most spuriously and is
made again, and the loop of `advance_published` either moves `published` on or
waits for a slot nobody will fill (`Exit.spins`).  Its fuel is the number of
slots it may have to publish.
-/

namespace SafeBump

/-- Experimental concurrent typed arena. -/
structure SharedArena (tgt : Target) (T : Type) where
  identity : SharedIdentity
  storage : ChunkedStorage tgt T
  reserved : Nat
  published : Nat

/-! ## Iteration -/

/-- Iterator over values in a publication prefix. -/
structure SharedArenaIter (tgt : Target) (T : Type) where
  storage : ChunkedStorage tgt T
  pos : Nat
  len : Nat

namespace SharedArenaIter

variable {tgt : Target} {T : Type}

/-- `SharedArenaIter::next`. -/
def next (it : SharedArenaIter tgt T) : Except Panic (Option (T × SharedArenaIter tgt T)) :=
  if it.pos = it.len then .ok none
  else do
    let value ← it.storage.get it.pos
    return some (value, { it with pos := it.pos + 1 })

/-- Everything the iterator yields in `n` calls. -/
def collect : Nat → SharedArenaIter tgt T → Except Panic (List T)
  | 0, _ => .ok []
  | n + 1, it => do
      match ← it.next with
      | none => return []
      | some (value, it) => return value :: (← collect n it)

end SharedArenaIter

namespace SharedArena

variable {tgt : Target} {σ T : Type}

/-- `SharedArena::new`. -/
def new : SharedArena tgt T := ⟨.new, .new, 0, 0⟩

/-- A method of the identity. -/
def onIdentity {α : Type} (m : EStateM Exit (SharedIdentity × σ) α) :
    Op (SharedArena tgt T) σ T α :=
  Library.Unwind.zoom (fun c => (c.arena.identity, c.source))
    (fun s c => { c with arena := { c.arena with identity := s.1 }, source := s.2 }) m

/-- `Option::expect`. -/
def expect {α : Type} (p : Panic) : Option α → Op (SharedArena tgt T) σ T α
  | some a => pure a
  | none => throw (.unwinds p)

/-- `SharedArena::reserve_range`. -/
def reserveRange (len : Nat) : Op (SharedArena tgt T) σ T Nat := do
  if len = 0 then throw (.unwinds .rangeEmpty)
  else
    let c ← get
    let reserved ← expect .slotSpaceExhausted (tgt.checkedAdd c.arena.reserved len)
    modify fun c => { c with arena := { c.arena with reserved := reserved } }
    return c.arena.reserved

/-- `self.storage.set(slot, value)` and the assertion after it.  `set` drops a value that it
does not store, and the destructor may panic before the assertion does. -/
def fill (panics : Dtor T) (slot : Nat) (value : T) : Op (SharedArena tgt T) σ T Unit := do
  let c ← get
  let (inserted, storage) ← owning [value] (ofExcept (c.arena.storage.set slot value))
  modify fun c => { c with arena := { c.arena with storage := storage } }
  if inserted then return ()
  else
    dropValue panics slot value
    throw (.unwinds (.slotOccupied slot))

/-- The loop of `SharedArena::alloc_block` over the values left. -/
def fillRange (panics : Dtor T) (start : Nat) : Nat → List T → Op (SharedArena tgt T) σ T Unit
  | _, [] => return ()
  | offset, value :: values => do
      let slot ← owning (value :: values) (expect .rangeEnd (tgt.checkedAdd start offset))
      owning values (fill panics slot value)
      fillRange panics start (offset + 1) values

/-- The loop of `SharedArena::advance_published`. -/
def advanceLoop (lastSlot : Nat) : Nat → Op (SharedArena tgt T) σ T Unit
  | 0 => return ()
  | fuel + 1 => do
      let c ← get
      if lastSlot < c.arena.published then return ()
      else
        let set ← ofExcept (c.arena.storage.isSet c.arena.published)
        if set then
          modify fun c => { c with arena := { c.arena with published := c.arena.published + 1 } }
          advanceLoop lastSlot fuel
        else throw .spins

/-- `SharedArena::advance_published`. -/
def advancePublished (lastSlot : Nat) : Op (SharedArena tgt T) σ T Unit := do
  let c ← get
  advanceLoop lastSlot (lastSlot + 1 - c.arena.published)

/-- `SharedArena::alloc`. -/
def alloc (fresh : Source σ) (panics : Dtor T) (value : T) : Op (SharedArena tgt T) σ T Idx := do
  let stamp ← owning [value] (onIdentity (SharedIdentity.currentStamp fresh))
  let slot ← owning [value] (reserveRange 1)
  fill panics slot value
  advancePublished slot
  return ⟨stamp, slot⟩

/-- `SharedArena::alloc_block`. -/
def allocBlock (fresh : Source σ) (panics : Dtor T) (input : Input T) :
    Op (SharedArena tgt T) σ T Block := do
  let values ← input.collect
  let len := values.length
  if len = 0 then return .empty
  else
    let stamp ← owning values (onIdentity (SharedIdentity.currentStamp fresh))
    let start ← owning values (reserveRange len)
    fillRange panics start 0 values
    let last ← expect .rangeEnd (tgt.checkedAdd start (len - 1))
    advancePublished last
    ofExcept (Block.new tgt stamp start len)

/-- `SharedArena::len`. -/
def len (a : SharedArena tgt T) : Nat := a.published

/-- The stamp of the last slot of a prefix of length `len`. -/
def tailOf (fresh : Source σ) (len : Nat) : Op (SharedArena tgt T) σ T (Option Stamp) :=
  if len = 0 then return none
  else some <$> onIdentity (SharedIdentity.stampOf fresh (len - 1))

/-- `SharedArena::checkpoint`. -/
def checkpoint (fresh : Source σ) : Op (SharedArena tgt T) σ T Checkpoint := do
  let len := (← get).arena.len
  let tail ← tailOf fresh len
  let owner ← onIdentity (SharedIdentity.birthStamp fresh)
  return ⟨owner, len, tail⟩

/-- `SharedArena::validate_checkpoint`. -/
def validateCheckpoint (fresh : Source σ) (cp : Checkpoint) :
    Op (SharedArena tgt T) σ T (Except CheckpointError Unit) := do
  let a := (← get).arena
  if a.identity.birth ≠ cp.owner.get then return .error .foreignArena
  else if a.len < cp.len then return .error (.beyondCurrent cp.len a.len)
  else
    let tail ← tailOf fresh cp.len
    if tail ≠ cp.tail then return .error (.divergedPrefix cp.len) else return .ok ()

/-- Unpublish `slot` and take its value. -/
def takeSlot (slot : Nat) : Op (SharedArena tgt T) σ T T := do
  modify fun c => { c with arena := { c.arena with published := slot, reserved := slot } }
  let c ← get
  let (value, storage) ← ofExcept (c.arena.storage.take slot)
  modify fun c => { c with arena := { c.arena with storage := storage } }
  expect .slotVacant value

/-- The loop of `SharedArena::try_rollback`, and with `targetLen = 0` that of
`SharedArena::reset`. -/
def takeDownTo (panics : Dtor T) (targetLen : Nat) : Nat → Op (SharedArena tgt T) σ T Unit
  | 0 => return ()
  | fuel + 1 => do
      let c ← get
      if targetLen < c.arena.published then
        let slot := c.arena.published - 1
        let value ← takeSlot slot
        dropValue panics slot value
        takeDownTo panics targetLen fuel
      else return ()

/-- `SharedArena::try_rollback`. -/
def tryRollback (fresh : Source σ) (panics : Dtor T) (cp : Checkpoint) :
    Op (SharedArena tgt T) σ T (Except CheckpointError Unit) := do
  match ← validateCheckpoint fresh cp with
  | .error e => return .error e
  | .ok () =>
      onIdentity (SharedIdentity.commit fresh cp.len)
      takeDownTo panics cp.len (← get).arena.published
      return .ok ()

/-- `SharedArena::rollback`. -/
def rollback (fresh : Source σ) (panics : Dtor T) (cp : Checkpoint) :
    Op (SharedArena tgt T) σ T Unit := do
  match ← tryRollback fresh panics cp with
  | .error _ => throw (.unwinds .invalidCheckpoint)
  | .ok () => return ()

/-- `SharedArena::reset`. -/
def reset (fresh : Source σ) (panics : Dtor T) : Op (SharedArena tgt T) σ T Unit := do
  onIdentity (SharedIdentity.commit fresh 0)
  takeDownTo panics 0 (← get).arena.published

/-- The loop of `SharedArena::drain`, with the values taken so far. -/
def takeAll : Nat → List T → Op (SharedArena tgt T) σ T (List T)
  | 0, values => return values
  | slot + 1, values => do
      let value ← owning values (takeSlot slot)
      takeAll slot (values ++ [value])

/-- `SharedArena::drain`. -/
def drain (fresh : Source σ) : Op (SharedArena tgt T) σ T (List T) := do
  onIdentity (SharedIdentity.commit fresh 0)
  let values ← takeAll (← get).arena.published []
  return values.reverse

/-- `SharedArena::is_valid`. -/
def isValid (fresh : Source σ) (idx : Idx) : Op (SharedArena tgt T) σ T Bool := do
  let a := (← get).arena
  if idx.slot < a.len then onIdentity (SharedIdentity.matchesStamp fresh idx.slot idx.stamp)
  else return false

/-- `SharedArena::try_get`. -/
def tryGet (fresh : Source σ) (idx : Idx) : Op (SharedArena tgt T) σ T (Option T) := do
  if !(← isValid fresh idx) then return none
  else return some (← ofExcept ((← get).arena.storage.get idx.slot))

/-- `SharedArena::iter`, run to its end. -/
def iter (a : SharedArena tgt T) : Except Panic (List T) :=
  SharedArenaIter.collect a.len ⟨a.storage, 0, a.len⟩

/-- `SharedArenaIterIndexed::next` until the end, `n` positions from `pos`. -/
def iterIndexedFrom (fresh : Source σ) (pos : Nat) :
    Nat → Op (SharedArena tgt T) σ T (List (Idx × T))
  | 0 => return []
  | n + 1 => do
      let value ← ofExcept ((← get).arena.storage.get pos)
      let stamp ← onIdentity (SharedIdentity.stampOf fresh pos)
      return (⟨stamp, pos⟩, value) :: (← iterIndexedFrom fresh (pos + 1) n)

/-- `SharedArena::iter_indexed`, run to its end. -/
def iterIndexed (fresh : Source σ) : Op (SharedArena tgt T) σ T (List (Idx × T)) := do
  iterIndexedFrom fresh 0 (← get).arena.len

/-- Serve a request. -/
def serve (fresh : Source σ) : Request T → Op (SharedArena tgt T) σ T (Reply T)
  | .alloc value panics => .idx <$> alloc fresh panics value
  | .allocBlock input panics => .block <$> allocBlock fresh panics input
  | .extend input panics => (fun _ => .done) <$> allocBlock fresh panics input
  | .checkpoint => .checkpoint <$> checkpoint fresh
  | .validateCheckpoint cp => .verdict <$> validateCheckpoint fresh cp
  | .tryRollback cp panics => .verdict <$> tryRollback fresh panics cp
  | .reset panics => (fun _ => .done) <$> reset fresh panics
  | .drain => .drained <$> drain fresh
  | .len => return .len (← get).arena.len
  | .isValid idx => .valid <$> isValid fresh idx
  | .tryGet idx => .value <$> tryGet fresh idx
  | .iter => return .values (← ofExcept (← get).arena.iter)
  | .iterIndexed => .indexed <$> iterIndexed fresh

end SharedArena

end SafeBump
