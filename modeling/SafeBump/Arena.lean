import SafeBump.Identity
import SafeBump.Request

/-!
# The single-thread arena

`arena.rs`, and the indexed iterators of `iter.rs`.  The values are a `Vec`, the
identity sits behind a `OnceLock` that is filled by the first call to need it,
and the raw current stamp is mirrored inline, 0 while there is no identity.

The loops of `try_rollback` and `reset` run on fuel, one unit for each value
there is.  A loop that pops a value every time round does not need more.
-/

namespace SafeBump

/-- Single-thread typed arena with stamped allocation capabilities. -/
structure Arena (T : Type) where
  items : List T
  /-- The lazily assigned identity. -/
  sidecar : Option Identity
  /-- The raw current stamp, `0` while unassigned. -/
  current : Nat

/-! ## Indexed iteration -/

/-- Iterator over pairs of an index and a value, in allocation order. -/
structure IterIndexed (T : Type) where
  identity : Option Identity
  values : List T
  slot : Nat

namespace IterIndexed

variable {T : Type}

/-- `IterIndexed::next` and `IterIndexedMut::next`. -/
def next : IterIndexed T → Except Panic (Option ((Idx × T) × IterIndexed T))
  | ⟨_, [], _⟩ => .ok none
  | ⟨none, _ :: _, _⟩ => .error .identityUnassigned
  | ⟨some id, value :: values, slot⟩ =>
      .ok (some ((⟨id.stampOf slot, slot⟩, value), ⟨some id, values, slot + 1⟩))

/-- Everything the iterator yields in `n` calls. -/
def collect : Nat → IterIndexed T → Except Panic (List (Idx × T))
  | 0, _ => .ok []
  | n + 1, it => do
      match ← it.next with
      | none => return []
      | some (pair, it) => return pair :: (← collect n it)

end IterIndexed

/-! ## The arena -/

/-- A write through one of the mutable accessors. -/
inductive Write (T : Type) where
  | getMut (idx : Idx) (f : T → T)
  | iterMut (f : Nat → T → T)
  | iterIndexedMut (f : Idx → T → T)

namespace Arena

variable {σ T : Type}

/-- `Arena::new`. -/
def new : Arena T := ⟨[], none, 0⟩

/-- `Arena::identity`. -/
def identity (fresh : Source σ) : Op (Arena T) σ T Identity := do
  match (← get).arena.sidecar with
  | some id => return id
  | none =>
      let id := Identity.new (← drawStamp fresh)
      modify fun c => { c with
        arena := { c.arena with sidecar := some id, current := id.current.get } }
      return id

/-- `Arena::current_stamp`. -/
def currentStamp (fresh : Source σ) : Op (Arena T) σ T Stamp := do
  let c ← get
  if h : c.arena.current = 0 then return (← identity fresh).current
  else return ⟨c.arena.current, h⟩

/-- `Vec::push` and `Vec::append` on the values. -/
def append (tgt : Target) (values : List T) : Op (Arena T) σ T Unit := do
  let c ← get
  if c.arena.items.length + values.length ≤ tgt.usizeMax then
    modify fun c => { c with arena := { c.arena with items := c.arena.items ++ values } }
  else throw (.unwinds .capacityOverflow)

/-- `Arena::alloc`. -/
def alloc (tgt : Target) (fresh : Source σ) (value : T) : Op (Arena T) σ T Idx := do
  let stamp ← owning [value] (currentStamp fresh)
  let slot := (← get).arena.items.length
  owning [value] (append tgt [value])
  return ⟨stamp, slot⟩

/-- `Arena::alloc_block`. -/
def allocBlock (tgt : Target) (fresh : Source σ) (input : Input T) : Op (Arena T) σ T Block := do
  let values ← input.collect
  let len := values.length
  if len = 0 then return .empty
  else
    let stamp ← owning values (currentStamp fresh)
    let start := (← get).arena.items.length
    owning values (append tgt values)
    ofExcept (Block.new tgt stamp start len)

/-- `Arena::len`. -/
def len (a : Arena T) : Nat := a.items.length

/-- The stamp of the last slot of a prefix of length `len`. -/
def tailOf (id : Identity) (len : Nat) : Option Stamp :=
  if len = 0 then none else some (id.stampOf (len - 1))

/-- `Arena::checkpoint`. -/
def checkpoint (fresh : Source σ) : Op (Arena T) σ T Checkpoint := do
  let id ← identity fresh
  let len := (← get).arena.items.length
  return ⟨id.birth, len, tailOf id len⟩

/-- `Arena::validate_checkpoint`. -/
def validateCheckpoint (a : Arena T) (cp : Checkpoint) : Except CheckpointError Unit :=
  match a.sidecar with
  | none => .error .foreignArena
  | some id =>
      if id.birth ≠ cp.owner then .error .foreignArena
      else if a.len < cp.len then .error (.beyondCurrent cp.len a.len)
      else if tailOf id cp.len ≠ cp.tail then .error (.divergedPrefix cp.len)
      else .ok ()

/-- `identity.commit(new_len)` on the identity `id` of the arena, and the store
to the mirror after it. -/
def commit (fresh : Source σ) (id : Identity) (newLen : Nat) : Op (Arena T) σ T Unit := do
  let current ← Library.Unwind.zoom (fun c => (id, c.source))
    (fun s c => { c with arena := { c.arena with sidecar := some s.1 }, source := s.2 })
    (do
      Identity.commit fresh newLen
      let (id, _) ← get
      return id.current)
  modify fun c => { c with arena := { c.arena with current := current.get } }

/-- The loop of `Arena::try_rollback`. -/
def popDownTo (panics : Dtor T) (targetLen : Nat) : Nat → Op (Arena T) σ T Unit
  | 0 => return ()
  | fuel + 1 => do
      let c ← get
      if targetLen < c.arena.items.length then
        match c.arena.items.getLast? with
        | none => throw (.unwinds .suffixEmpty)
        | some value =>
            modify fun c => { c with arena := { c.arena with items := c.arena.items.dropLast } }
            dropValue panics (c.arena.items.length - 1) value
            popDownTo panics targetLen fuel
      else return ()

/-- The loop of `Arena::reset`. -/
def popAll (panics : Dtor T) : Nat → Op (Arena T) σ T Unit
  | 0 => return ()
  | fuel + 1 => do
      let c ← get
      match c.arena.items.getLast? with
      | none => return ()
      | some value =>
          modify fun c => { c with arena := { c.arena with items := c.arena.items.dropLast } }
          dropValue panics (c.arena.items.length - 1) value
          popAll panics fuel

/-- `Arena::try_rollback`. -/
def tryRollback (fresh : Source σ) (panics : Dtor T) (cp : Checkpoint) :
    Op (Arena T) σ T (Except CheckpointError Unit) := do
  match (← get).arena.validateCheckpoint cp with
  | .error e => return .error e
  | .ok () =>
      match (← get).arena.sidecar with
      | none => throw (.unwinds .identityMissing)
      | some id =>
          commit fresh id cp.len
          popDownTo panics cp.len (← get).arena.items.length
          return .ok ()

/-- `Arena::rollback`. -/
def rollback (fresh : Source σ) (panics : Dtor T) (cp : Checkpoint) : Op (Arena T) σ T Unit := do
  match ← tryRollback fresh panics cp with
  | .error _ => throw (.unwinds .invalidCheckpoint)
  | .ok () => return ()

/-- The commit at 0 of `reset` and `drain`, which an arena without an identity skips. -/
def commitEmpty (fresh : Source σ) : Op (Arena T) σ T Unit := do
  match (← get).arena.sidecar with
  | none => return ()
  | some id => commit fresh id 0

/-- `Arena::reset`. -/
def reset (fresh : Source σ) (panics : Dtor T) : Op (Arena T) σ T Unit := do
  commitEmpty fresh
  popAll panics (← get).arena.items.length

/-- `Arena::drain`.  `Vec::drain` empties the vector before it yields anything,
so what becomes of the iterator does not matter to the arena. -/
def drain (fresh : Source σ) : Op (Arena T) σ T (List T) := do
  commitEmpty fresh
  let c ← get
  modify fun c => { c with arena := { c.arena with items := [] } }
  return c.arena.items

/-- `Arena::stamp_matches_archived`. -/
def stampMatchesArchived (a : Arena T) (idx : Idx) : Bool :=
  a.sidecar.any fun id => id.matchesArchived idx.slot idx.stamp

/-- `Arena::stamp_matches`. -/
def stampMatches (a : Arena T) (idx : Idx) : Bool :=
  decide (idx.stamp.get = a.current) || a.stampMatchesArchived idx

/-- `Arena::is_valid`. -/
def isValid (a : Arena T) (idx : Idx) : Bool :=
  decide (idx.slot < a.items.length) && a.stampMatches idx

/-- `Arena::try_get`. -/
def tryGet (a : Arena T) (idx : Idx) : Option T :=
  match a.items[idx.slot]? with
  | none => none
  | some value => if a.stampMatches idx then some value else none

/-- `Arena::try_get_mut`, as the value its reference points to. -/
def tryGetMut (a : Arena T) (idx : Idx) : Option T :=
  if !a.stampMatches idx then none else a.items[idx.slot]?

/-- `Arena::get_mut`, and what the caller writes through the reference. -/
def getMut (idx : Idx) (f : T → T) : Op (Arena T) σ T Unit := do
  let c ← get
  match c.arena.tryGetMut idx with
  | none => throw (.unwinds .staleIndex)
  | some value =>
      modify fun c => { c with
        arena := { c.arena with items := c.arena.items.set idx.slot (f value) } }

/-- `Arena::iter_indexed`, run to its end. -/
def iterIndexed (a : Arena T) : Except Panic (List (Idx × T)) :=
  IterIndexed.collect a.items.length ⟨a.sidecar, a.items, 0⟩

/-- Writes through the mutable accessors.  The iterators hand out a reference
to every slot in turn. -/
def write : Write T → Op (Arena T) σ T Unit
  | .getMut idx f => getMut idx f
  | .iterMut f =>
      modify fun c => { c with arena := { c.arena with items := c.arena.items.mapIdx f } }
  | .iterIndexedMut f => do
      let pairs ← ofExcept (← get).arena.iterIndexed
      modify fun c => { c with
        arena := { c.arena with items := pairs.map fun (idx, value) => f idx value } }

/-- Serve a request. -/
def serve (tgt : Target) (fresh : Source σ) : Request T → Op (Arena T) σ T (Reply T)
  | .alloc value _ => .idx <$> alloc tgt fresh value
  | .allocBlock input _ => .block <$> allocBlock tgt fresh input
  | .extend input _ => (fun _ => .done) <$> allocBlock tgt fresh input
  | .checkpoint => .checkpoint <$> checkpoint fresh
  | .validateCheckpoint cp => return .verdict ((← get).arena.validateCheckpoint cp)
  | .tryRollback cp panics => .verdict <$> tryRollback fresh panics cp
  | .reset panics => (fun _ => .done) <$> reset fresh panics
  | .drain => .drained <$> drain fresh
  | .len => return .len (← get).arena.len
  | .isValid idx => return .valid ((← get).arena.isValid idx)
  | .tryGet idx => return .value ((← get).arena.tryGet idx)
  | .iter => return .values (← get).arena.items
  | .iterIndexed => return .indexed (← ofExcept (← get).arena.iterIndexed)

end Arena

end SafeBump
