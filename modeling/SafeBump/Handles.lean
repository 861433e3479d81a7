import SafeBump.Library.Lines
import SafeBump.Stamp

/-!
# Indices, blocks and checkpoints

`idx.rs`, `block.rs` and `checkpoint.rs`: the values an arena hands out.  They
are plain data.  An index carries the stamp its slot had when it was issued, a
block stands for a run of indices under one stamp, a checkpoint carries the
birth stamp of its arena and the stamp of the last slot of the saved prefix.
-/

namespace SafeBump

/-- Unforgeable capability naming one allocation slot. -/
structure Idx where
  stamp : Stamp
  slot : Nat
deriving DecidableEq, Repr

/-- Capability for one contiguous batch allocation. -/
structure Block where
  stamp : Option Stamp
  start : Nat
  len : Nat
deriving DecidableEq, Repr

namespace Block

/-- `Block::empty`. -/
def empty : Block := ⟨none, 0, 0⟩

/-- `Block::new`. -/
def new (tgt : Target) (stamp : Stamp) (start len : Nat) : Except Panic Block :=
  if len = 0 then .error .blockEmpty
  else
    match tgt.checkedAdd start (len - 1) with
    | none => .error .blockEnd
    | some _ => .ok ⟨some stamp, start, len⟩

/-- `Block::get`. -/
def get (tgt : Target) (b : Block) (offset : Nat) : Option Idx :=
  if b.len ≤ offset then none
  else
    match b.stamp with
    | none => none
    | some stamp =>
        match tgt.checkedAdd b.start offset with
        | none => none
        | some slot => some ⟨stamp, slot⟩

/-- Every index `Block::get` derives. -/
def idxs (tgt : Target) (b : Block) : List Idx := (List.range b.len).filterMap (b.get tgt)

theorem new_eq_ok {tgt : Target} {stamp : Stamp} {start len : Nat} (hlen : 0 < len)
    (hfit : start + len ≤ tgt.usizeMax + 1) :
    new tgt stamp start len = .ok ⟨some stamp, start, len⟩ := by
  have h0 : len ≠ 0 := Nat.ne_of_gt hlen
  have hadd : tgt.checkedAdd start (len - 1) = some (start + (len - 1)) :=
    Target.checkedAdd_eq_some.mpr ⟨by omega, rfl⟩
  simp only [new, if_neg h0, hadd]

theorem of_new {tgt : Target} {stamp : Stamp} {start len : Nat} {b : Block}
    (h : new tgt stamp start len = .ok b) : b = ⟨some stamp, start, len⟩ := by
  rw [new] at h
  split at h
  · cases h
  · split at h
    · cases h
    · exact (Except.ok.inj h).symm

/-- `get` derives the slots of the interval, under the stamp of the block. -/
theorem get_eq_some {tgt : Target} {stamp : Stamp} {start len offset : Nat} {idx : Idx} :
    get tgt ⟨some stamp, start, len⟩ offset = some idx ↔
      offset < len ∧ start + offset ≤ tgt.usizeMax ∧ idx = ⟨stamp, start + offset⟩ := by
  by_cases hlen : len ≤ offset
  · simp only [get, if_pos hlen]
    constructor
    · intro h
      cases h
    · intro h
      omega
  · cases hadd : tgt.checkedAdd start offset with
    | none =>
        have := Target.checkedAdd_eq_none.mp hadd
        simp only [get, if_neg hlen, hadd]
        constructor
        · intro h
          cases h
        · intro h
          omega
    | some slot =>
        obtain ⟨hfit, rfl⟩ := Target.checkedAdd_eq_some.mp hadd
        simp only [get, if_neg hlen, hadd, Option.some.injEq]
        constructor
        · intro h
          exact ⟨by omega, hfit, h.symm⟩
        · exact fun h => h.2.2.symm

theorem mem_idxs {tgt : Target} {stamp : Stamp} {start len : Nat} {idx : Idx} :
    idx ∈ idxs tgt ⟨some stamp, start, len⟩ ↔
      ∃ offset, offset < len ∧ start + offset ≤ tgt.usizeMax ∧ idx = ⟨stamp, start + offset⟩ := by
  simp only [idxs, List.mem_filterMap, List.mem_range, get_eq_some]
  constructor
  · rintro ⟨offset, hlt, _, hfit, he⟩
    exact ⟨offset, hlt, hfit, he⟩
  · rintro ⟨offset, hlt, hfit, he⟩
    exact ⟨offset, hlt, hlt, hfit, he⟩

@[simp] theorem idxs_empty (tgt : Target) : idxs tgt empty = [] := rfl

end Block

/-- Saved allocation prefix for validated rollback. -/
structure Checkpoint where
  owner : Stamp
  len : Nat
  tail : Option Stamp
deriving DecidableEq, Repr

/-- Reason a checkpoint cannot be applied to the current allocation prefix. -/
inductive CheckpointError where
  /-- The checkpoint was created by a different arena. -/
  | foreignArena
  /-- The checkpoint names a prefix longer than the current allocation state. -/
  | beyondCurrent (checkpointLen currentLen : Nat)
  /-- The slot at the saved boundary was discarded and later replaced. -/
  | divergedPrefix (checkpointLen : Nat)
deriving DecidableEq, Repr

end SafeBump
