import SafeBump.SharedRuns

/-!
# Calls under way on the concurrent arena

`alloc`, `alloc_block` and `checkpoint` take `&self`, so any number of them can
be under way on one arena.  A call is where it stands in its code (`Pc`), and it
moves by one access to the shared words or to the slots at a time: a load, a
store, a compare-exchange, the `fetch_update` on `reserved`, one `storage.set`,
one `is_set`.  Everything between two accesses is local to the call and goes
with the access before it.

A step of the arena is a step of one of its calls.  What comes from outside is
given with the step: what `Stamp::fresh` answers, and whether a mishap befalls it.
A weak compare-exchange fails for no reason then, and the destructor of a value
that its slot rejects panics.

The code an alloc and a block run is the same loop, over one value or over all.
-/

namespace SafeBump

variable {tgt : Target} {T : Type}

/-- What a call was asked to do.  The values of a block are collected before
the arena is touched. -/
inductive Ask (T : Type) where
  | alloc (value : T)
  | allocBlock (values : List T)
  | checkpoint
deriving DecidableEq

/-- The values a call brings. -/
def Ask.values : Ask T → List T
  | .alloc value => [value]
  | .allocBlock values => values
  | .checkpoint => []

/-- What a call wants a stamp of the identity for. -/
inductive Use where
  /-- The stamp of an allocation: `current()`. -/
  | range
  /-- The tail of a checkpoint of length `len`, in the current segment: `current()`. -/
  | tail (len : Nat)
  /-- The tail of a checkpoint, in the birth segment: `birth()`. -/
  | birthTail (len : Nat)
  /-- The owner of a checkpoint: `birth()`. -/
  | owner (len : Nat) (last : Option Stamp)
deriving DecidableEq

/-- Where a call stands: the access it makes next. -/
inductive Pc (T : Type) where
  /-- `self.len()` in `checkpoint`. -/
  | loadLen
  /-- The first load in `birth` or `current`. -/
  | load (use : Use)
  /-- `Stamp::fresh()` in `assign`. -/
  | draw (use : Use)
  /-- The compare-exchange on `birth` in `assign`. -/
  | exchangeBirth (use : Use) (fresh : Stamp)
  /-- The store to `current` of the winner. -/
  | storeCurrent (use : Use) (fresh : Stamp)
  /-- The load of the loop in `assign`. -/
  | reread (use : Use)
  /-- `fetch_update` in `reserve_range`. -/
  | reserve (stamp : Stamp)
  /-- `storage.set` for the value at `offset`. -/
  | set (stamp : Stamp) (start offset : Nat)
  /-- The load in `advance_published`. -/
  | loadPublished (stamp : Stamp) (start last : Nat)
  /-- `is_set` in `advance_published`. -/
  | isSet (stamp : Stamp) (start last published : Nat)
  /-- The compare-exchange in `advance_published`. -/
  | advance (stamp : Stamp) (start last published : Nat)
  | returned (reply : Reply T)
  | unwound (p : Panic)
deriving DecidableEq

/-- The word a use reads first. -/
def Use.word (use : Use) (id : SharedIdentity) : Nat :=
  match use with
  | .range | .tail _ => id.current
  | .birthTail _ | .owner _ _ => id.birth

/-- Where a call goes on with the stamp it wanted. -/
def Use.resume (use : Use) (stamp : Stamp) : Pc T :=
  match use with
  | .range => .reserve stamp
  | .tail len => .load (.owner len (some stamp))
  | .birthTail len => .load (.owner len (some stamp))
  | .owner len last => .returned (.checkpoint ⟨stamp, len, last⟩)

/-- `stamp_of(len - 1)` in `checkpoint`, up to the load it may need.  Boundary,
cached tail and table are not written while calls are under way. -/
def SharedIdentity.tailPc (id : SharedIdentity) : Nat → Pc T
  | 0 => .load (.owner 0 none)
  | slot + 1 =>
      if id.currentStart ≤ slot then .load (.tail (slot + 1))
      else if slot + 1 = id.currentStart then .load (.owner (slot + 1) (some id.prefixTail))
      else
        match id.table with
        | none => .load (.birthTail (slot + 1))
        | some table =>
            match Identity.coveringStamp table slot with
            | none => .load (.birthTail (slot + 1))
            | some stamp => .load (.owner (slot + 1) (some stamp))

/-- Where the loop over the values goes on: with the value at `offset`, or
after the last one with the wait for publication. -/
def fillPc (tgt : Target) (values : List T) (stamp : Stamp) (start offset : Nat) : Pc T :=
  if offset < values.length then .set stamp start offset
  else
    match tgt.checkedAdd start (values.length - 1) with
    | none => .unwound .rangeEnd
    | some last => .loadPublished stamp start last

/-- What an allocation returns once its slots are published. -/
def Ask.finish (tgt : Target) (ask : Ask T) (stamp : Stamp) (start : Nat) : Pc T :=
  match ask with
  | .allocBlock values =>
      match Block.new tgt stamp start values.length with
      | .ok block => .returned (.block block)
      | .error p => .unwound p
  | _ => .returned (.idx ⟨stamp, start⟩)

/-- Where a call starts.  A block of no values returns at once. -/
def Ask.start : Ask T → Pc T
  | .alloc _ => .load .range
  | .allocBlock [] => .returned (.block .empty)
  | .allocBlock (_ :: _) => .load .range
  | .checkpoint => .loadLen

/-- A call on a concurrent arena. -/
structure Call (T : Type) where
  thread : ThreadId
  ask : Ask T
  pc : Pc T
deriving DecidableEq

/-- It has neither returned nor panicked. -/
def Pc.running : Pc T → Bool
  | .returned _ => false
  | .unwound _ => false
  | _ => true

/-- The values the frame of a call still owns. -/
def Pc.owned (values : List T) : Pc T → List T
  | .set _ _ offset => values.drop offset
  | .loadPublished .. | .isSet .. | .advance .. => []
  | .returned _ | .unwound _ => []
  | _ => values

/-- The access a call makes next, with `answer` for `Stamp::fresh()`.  A `mishap` is a weak
compare-exchange that fails for no reason, or a destructor that panics: `storage.set` drops
the value it does not store before the assertion after it is made. -/
def Ask.move (ask : Ask T) (answer : Except Panic Stamp) (mishap : Bool)
    (a : SharedArena tgt T) : Pc T → SharedArena tgt T × Pc T
  | .loadLen => (a, a.identity.tailPc a.published)
  | .load use =>
      if h : use.word a.identity = 0 then (a, .draw use)
      else (a, use.resume ⟨use.word a.identity, h⟩)
  | .draw use =>
      match answer with
      | .error p => (a, .unwound p)
      | .ok fresh => (a, .exchangeBirth use fresh)
  | .exchangeBirth use fresh =>
      if a.identity.birth = 0 then
        ({ a with identity := { a.identity with birth := fresh.get } }, .storeCurrent use fresh)
      else (a, .reread use)
  | .storeCurrent use fresh =>
      ({ a with identity := { a.identity with current := fresh.get } }, .reread use)
  | .reread use =>
      if h : a.identity.current = 0 then (a, .reread use)
      else (a, use.resume ⟨a.identity.current, h⟩)
  | .reserve stamp =>
      match tgt.checkedAdd a.reserved ask.values.length with
      | none => (a, .unwound .slotSpaceExhausted)
      | some reserved =>
          ({ a with reserved := reserved }, fillPc tgt ask.values stamp a.reserved 0)
  | .set stamp start offset =>
      match ask.values[offset]? with
      | none => (a, fillPc tgt ask.values stamp start offset)
      | some value =>
          match tgt.checkedAdd start offset with
          | none => (a, .unwound .rangeEnd)
          | some slot =>
              match a.storage.set slot value with
              | .error p => (a, .unwound p)
              | .ok (false, storage) =>
                  ({ a with storage := storage },
                    .unwound (if mishap then .destructor else .slotOccupied slot))
              | .ok (true, storage) =>
                  ({ a with storage := storage }, fillPc tgt ask.values stamp start (offset + 1))
  | .loadPublished stamp start last =>
      if last < a.published then (a, ask.finish tgt stamp start)
      else (a, .isSet stamp start last a.published)
  | .isSet stamp start last published =>
      match a.storage.isSet published with
      | .error p => (a, .unwound p)
      | .ok false => (a, .loadPublished stamp start last)
      | .ok true => (a, .advance stamp start last published)
  | .advance stamp start last published =>
      if a.published = published ∧ mishap = false then
        ({ a with published := published + 1 }, .loadPublished stamp start last)
      else (a, .loadPublished stamp start last)
  | .returned reply => (a, .returned reply)
  | .unwound p => (a, .unwound p)

/-- An arena, the calls made on it since its last exclusive operation, and the
values dropped by those that panicked. -/
structure Shared (tgt : Target) (T : Type) where
  arena : SharedArena tgt T
  calls : List (Call T)
  dropped : List T

namespace Shared

/-- An arena no call was made on. -/
def idle (a : SharedArena tgt T) : Shared tgt T := ⟨a, [], []⟩

/-- A new call. -/
def start (s : Shared tgt T) (t : ThreadId) (ask : Ask T) : Shared tgt T :=
  { s with calls := s.calls ++ [⟨t, ask, ask.start⟩] }

/-- The next step of call `i`.  A frame that unwinds drops what it owns. -/
def step (s : Shared tgt T) (i : Nat) (answer : Except Panic Stamp) (mishap : Bool) :
    Shared tgt T :=
  match s.calls[i]? with
  | none => s
  | some c =>
      match c.ask.move answer mishap s.arena c.pc with
      | (a, pc) =>
          ⟨a, s.calls.set i { c with pc := pc },
            match pc with
            | .unwound _ => s.dropped ++ c.pc.owned c.ask.values
            | _ => s.dropped⟩

section Step

variable {s : Shared tgt T} {i : Nat} {answer : Except Panic Stamp} {mishap : Bool}

theorem step_of_none (h : s.calls[i]? = none) : s.step i answer mishap = s := by
  rw [step, h]

theorem arena_step {c : Call T} (h : s.calls[i]? = some c) :
    (s.step i answer mishap).arena = (c.ask.move answer mishap s.arena c.pc).1 := by
  rw [step, h]

theorem calls_step {c : Call T} (h : s.calls[i]? = some c) :
    (s.step i answer mishap).calls
      = s.calls.set i { c with pc := (c.ask.move answer mishap s.arena c.pc).2 } := by
  rw [step, h]

/-- One call moves and the others stay. -/
theorem getElem?_step {c : Call T} (h : s.calls[i]? = some c) (k : Nat) :
    (s.step i answer mishap).calls[k]? =
      if k = i then some { c with pc := (c.ask.move answer mishap s.arena c.pc).2 }
      else s.calls[k]? := by
  obtain ⟨hlt, _⟩ := List.getElem?_eq_some_iff.mp h
  rw [calls_step h]
  split
  · rename_i heq
    subst heq
    rw [List.getElem?_set_self hlt]
  · rename_i hne
    rw [List.getElem?_set_ne (Ne.symm hne)]

/-- A new call comes after the old ones. -/
theorem getElem?_start {t : ThreadId} {ask : Ask T} (k : Nat) :
    (s.start t ask).calls[k]? =
      if k = s.calls.length then some ⟨t, ask, ask.start⟩ else s.calls[k]? :=
  Library.getElem?_concat s.calls _ k

/-- What holds of a call that starts, and goes on to hold when one moves, holds of them all. -/
theorem forall_calls_start {P : Ask T → Pc T → Prop} (h : ∀ c ∈ s.calls, P c.ask c.pc)
    (t : ThreadId) {ask : Ask T} (hstart : P ask ask.start) :
    ∀ c ∈ (s.start t ask).calls, P c.ask c.pc := by
  intro c hc
  rcases List.mem_append.mp hc with hc | hc
  · exact h c hc
  · rw [List.mem_singleton.mp hc]
    exact hstart

theorem forall_calls_step {P : Ask T → Pc T → Prop} (h : ∀ c ∈ s.calls, P c.ask c.pc)
    (hmove : ∀ c ∈ s.calls, P c.ask (c.ask.move answer mishap s.arena c.pc).2) :
    ∀ c ∈ (s.step i answer mishap).calls, P c.ask c.pc := by
  cases hi : s.calls[i]? with
  | none => rwa [step_of_none hi]
  | some d =>
      intro c hc
      obtain ⟨k, hk⟩ := List.mem_iff_getElem?.mp hc
      rw [getElem?_step hi] at hk
      split at hk
      · cases hk
        exact hmove d (List.mem_of_getElem? hi)
      · exact h c (List.mem_of_getElem? hk)

end Step

/-- No call is under way. -/
def quiet (s : Shared tgt T) : Bool := s.calls.all fun c => !c.pc.running

/-- What can happen to an arena that calls share. -/
inductive Label (T : Type) where
  /-- Thread `t` makes a call. -/
  | start (t : ThreadId) (ask : Ask T)
  /-- Call `i` makes its next step. -/
  | step (i : Nat) (answer : Except Panic Stamp) (mishap : Bool)

def next (s : Shared tgt T) : Label T → Shared tgt T
  | .start t ask => s.start t ask
  | .step i answer mishap => s.step i answer mishap

/-- A run. -/
def run (s : Shared tgt T) (ls : List (Label T)) : Shared tgt T := ls.foldl next s

@[simp] theorem run_nil (s : Shared tgt T) : s.run [] = s := rfl

@[simp] theorem run_cons (s : Shared tgt T) (l : Label T) (ls : List (Label T)) :
    s.run (l :: ls) = (s.next l).run ls := rfl

end Shared

end SafeBump
