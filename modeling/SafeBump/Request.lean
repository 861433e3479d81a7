import SafeBump.Context
import SafeBump.Handles

/-!
# Requests and replies

The operations that `Arena` and `SharedArena` both offer, as data, so that one
sequence of requests can be served by either.  `extend` is `alloc_block` with
its result thrown away, and `from_iter` is `alloc_block` on a new arena, so
`from_iter` has no request of its own.

A drain replies with the values its iterator owns.  `vec::Drain` and
`vec::IntoIter` both hand their values out from either end and drop what is
left front to back, and neither does anything to the arena any more, so the
list is all there is to compare.
-/

namespace SafeBump

/-- An operation of both arenas.  `panics` are the destructors of the values a request takes
back, or hands over: the concurrent arena drops a value that its slot rejects. -/
inductive Request (T : Type) where
  | alloc (value : T) (panics : Dtor T := fun _ _ => false)
  | allocBlock (input : Input T) (panics : Dtor T := fun _ _ => false)
  | extend (input : Input T) (panics : Dtor T := fun _ _ => false)
  | checkpoint
  | validateCheckpoint (cp : Checkpoint)
  | tryRollback (cp : Checkpoint) (panics : Dtor T)
  | reset (panics : Dtor T)
  | drain
  | len
  | isValid (idx : Idx)
  | tryGet (idx : Idx)
  | iter
  | iterIndexed

/-- What an operation returns. -/
inductive Reply (T : Type) where
  | idx (idx : Idx)
  | block (block : Block)
  | checkpoint (cp : Checkpoint)
  | verdict (r : Except CheckpointError Unit)
  | done
  | drained (values : List T)
  | len (n : Nat)
  | valid (b : Bool)
  | value (v : Option T)
  | values (values : List T)
  | indexed (pairs : List (Idx × T))
deriving DecidableEq

/-- The indices a reply issues. -/
def Reply.issued (tgt : Target) {T : Type} : Reply T → List Idx
  | .idx i => [i]
  | .block b => b.idxs tgt
  | .indexed pairs => pairs.map Prod.fst
  | _ => []

/-- The values a request hands over. -/
def Request.moved {T : Type} : Request T → List T
  | .alloc value _ => [value]
  | .allocBlock input _ => input.values
  | .extend input _ => input.values
  | _ => []

/-- The values a request has to store, once they are collected. -/
def Request.stored {T : Type} : Request T → List T
  | .alloc value _ => [value]
  | .allocBlock input _ => if input.panics then [] else input.values
  | .extend input _ => if input.panics then [] else input.values
  | _ => []

/-- The values a reply hands out for good. -/
def Reply.yielded {T : Type} : Reply T → List T
  | .drained vs => vs
  | _ => []

/-- The request takes `&self` and only reads.  The other ones that take `&self`,
allocations and checkpoints, are calls of their own on the concurrent arena. -/
def Request.reads {T : Type} : Request T → Bool
  | .validateCheckpoint _ | .len | .isValid _ | .tryGet _ | .iter | .iterIndexed => true
  | _ => false

/-- The destructors of the values a request hands over. -/
def Request.movedDtor {T : Type} : Request T → Dtor T
  | .alloc _ panics | .allocBlock _ panics | .extend _ panics => panics
  | _ => fun _ _ => false

/-- The destructors of the values a request takes back. -/
def Request.dtor {T : Type} : Request T → Option (Dtor T)
  | .tryRollback _ panics => some panics
  | .reset panics => some panics
  | _ => none

/-- The handle a request asks about. -/
def Request.asked {T : Type} : Request T → Option Idx
  | .isValid idx => some idx
  | .tryGet idx => some idx
  | _ => none

/-- The boundary a request begins, once its commit went through. -/
def Request.boundary {T : Type} : Request T → Option Nat
  | .tryRollback cp _ => some cp.len
  | .reset _ => some 0
  | .drain => some 0
  | _ => none

/-- The boundary a call committed, read off how it ended: a rejected rollback
commits nothing, a call that found no stamp commits nothing, and a destructor
panics only after the commit. -/
def committed {T : Type} (req : Request T) : Except Exit (Reply T) → Option Nat
  | .ok (.verdict (.error _)) => none
  | .ok _ => req.boundary
  | .error (.unwinds .destructor) => req.boundary
  | .error _ => none

/-- The values handed out by a call that ended with `r`. -/
def handedOut {T : Type} : Except Exit (Reply T) → List T
  | .ok reply => reply.yielded
  | .error _ => []

/-- Serve some requests in turn, every panic caught by the caller.  The result
is how each of them ended, and the state after the last. -/
def runs {A σ T : Type} (serve : Request T → Op A σ T (Reply T)) :
    List (Request T) → Ctx A σ T → List (Except Exit (Reply T)) × Ctx A σ T
  | [], c => ([], c)
  | req :: reqs, c =>
      let r := (serve req).run c
      let rest := runs serve reqs (Library.Unwind.left r)
      (Library.Unwind.ending r :: rest.1, rest.2)

theorem committed_of_ne_destructor {T : Type} (req : Request T) {p : Panic}
    (h : p ≠ .destructor) : committed req (.error (.unwinds p)) = none := by
  cases p <;> first | rfl | exact absurd rfl h

theorem committed_of_boundary {T : Type} {req : Request T} (h : req.boundary = none)
    (r : Except Exit (Reply T)) : committed req r = none := by
  rcases r with (p | _) | reply
  · cases p <;> first | rfl | exact h
  · rfl
  · cases reply with
    | verdict v =>
        cases v with
        | error _ => rfl
        | ok _ => exact h
    | _ => exact h

theorem Request.moved_of_stored {T : Type} {req : Request T} (h : req.stored ≠ []) :
    req.moved = req.stored := by
  cases req with
  | alloc value panics => rfl
  | allocBlock input panics =>
      rw [stored] at h ⊢
      split at h
      · exact absurd rfl h
      · rw [if_neg ‹_›]
        rfl
  | extend input panics =>
      rw [stored] at h ⊢
      split at h
      · exact absurd rfl h
      · rw [if_neg ‹_›]
        rfl
  | _ => exact absurd rfl h

/-- A request that begins a boundary has nothing to store. -/
theorem Request.stored_of_boundary {T : Type} {req : Request T} {n : Nat}
    (h : req.boundary = some n) : req.stored = [] := by
  cases req <;> first | rfl | cases h

theorem boundary_of_committed {T : Type} {req : Request T} {r : Except Exit (Reply T)} {n : Nat}
    (h : committed req r = some n) : req.boundary = some n := by
  cases hb : req.boundary with
  | none => cases (committed_of_boundary hb r).symm.trans h
  | some m =>
      rcases r with (p | _) | reply
      · cases p <;> first | exact hb ▸ h | cases h
      · cases h
      · cases reply with
        | verdict v =>
            cases v with
            | error _ => cases h
            | ok _ => exact hb ▸ h
        | _ => exact hb ▸ h

/-- Only a destructor ends a call early after its commit. -/
theorem destructor_of_committed {T : Type} {req : Request T} {e : Exit} {n : Nat}
    (h : committed req (.error e) = some n) : e = .unwinds .destructor := by
  rcases e with p | _
  · cases p <;> first | rfl | cases h
  · cases h

end SafeBump
