import SafeBump.Identity
import SafeBump.Request

/-!
# The abstract arena

What an arena is for, with no segment table, no mirror and no chunks.  A store
is unused until it issues its first capability.  From then on it is a list of
values and the history of its epochs.  A handle names a slot at an epoch: it is
good while the slot is there and still carries the mark the handle carries.

Cutting a store down to a boundary drops the values above it from the top.  If
a destructor panics on the way, the highest one to do so is where it stops
(`lastPanic`).

`Store.serve` serves the requests of the real arenas.  `Store.Step` forgets
replies and destructors and keeps what a request can do to a store;
`Store.serve_step` is the one place where the operations are taken apart to
see that.
-/

namespace SafeBump

open Library.Unwind

variable {σ T : Type}

/-- The highest slot in `[target, n)` whose value has a panicking destructor. -/
def lastPanic (panics : Dtor T) (values : List T) (target : Nat) : Nat → Option Nat
  | 0 => none
  | n + 1 =>
      if n < target then none
      else if values[n]?.any (panics n) then some n
      else lastPanic panics values target n

/-- A sequence of values and its epochs. -/
inductive Store (T : Type) where
  /-- No capability was issued, so no value is held. -/
  | unused
  | live (values : List T) (epochs : Epochs)

namespace Store

/-- The values held. -/
def values : Store T → List T
  | unused => []
  | live vs _ => vs

/-- The history, once there is one. -/
def epochs : Store T → Option Epochs
  | unused => none
  | live _ h => some h

@[simp] theorem values_unused : (unused : Store T).values = [] := rfl

@[simp] theorem values_live (vs : List T) (h : Epochs) : (live vs h).values = vs := rfl

@[simp] theorem epochs_unused : (unused : Store T).epochs = none := rfl

@[simp] theorem epochs_live (vs : List T) (h : Epochs) : (live vs h).epochs = some h := rfl

/-- Values and history, begun by this call if there was none. -/
def assigned (fresh : Source σ) : Op (Store T) σ T (List T × Epochs) := do
  match (← get).arena with
  | live vs h => return (vs, h)
  | unused =>
      let stamp ← drawStamp fresh
      modify fun c => { c with arena := live [] (.new stamp) }
      return ([], .new stamp)

/-- Put `values` after `vs`, as long as the slots can be numbered. -/
def append (tgt : Target) (vs : List T) (h : Epochs) (values : List T) : Op (Store T) σ T Unit :=
  if vs.length + values.length ≤ tgt.usizeMax then
    modify fun c => { c with arena := live (vs ++ values) h }
  else owning values (throw (.unwinds .capacityOverflow))

/-- Put `values` at the end under the current mark.  The result is that mark and
the first slot. -/
def insert (tgt : Target) (fresh : Source σ) (values : List T) :
    Op (Store T) σ T (Stamp × Nat) := do
  let (vs, h) ← owning values (assigned fresh)
  append tgt vs h values
  return (h.current, vs.length)

def alloc (tgt : Target) (fresh : Source σ) (value : T) : Op (Store T) σ T Idx := do
  let (stamp, slot) ← insert tgt fresh [value]
  return ⟨stamp, slot⟩

def allocBlock (tgt : Target) (fresh : Source σ) (input : Input T) : Op (Store T) σ T Block := do
  let values ← input.collect
  if values.length = 0 then return .empty
  else
    let (stamp, start) ← insert tgt fresh values
    return ⟨some stamp, start, values.length⟩

/-- The mark of the last slot of a prefix of length `len`. -/
def tailOf (h : Epochs) (len : Nat) : Option Stamp :=
  if len = 0 then none else some (h.markAt (len - 1))

def checkpoint (fresh : Source σ) : Op (Store T) σ T Checkpoint := do
  let (vs, h) ← assigned fresh
  return ⟨h.birth, vs.length, tailOf h vs.length⟩

/-- A checkpoint is good while the store is its own, long enough, and the last
slot of the prefix carries the mark it had. -/
def validateCheckpoint : Store T → Checkpoint → Except CheckpointError Unit
  | unused, _ => .error .foreignArena
  | live vs h, cp =>
      if h.birth ≠ cp.owner then .error .foreignArena
      else if vs.length < cp.len then .error (.beyondCurrent cp.len vs.length)
      else if tailOf h cp.len ≠ cp.tail then .error (.divergedPrefix cp.len)
      else .ok ()

/-- Begin a new epoch at `n` and drop the values above it from the top. -/
def cutDown (fresh : Source σ) (panics : Dtor T) (n : Nat) : Op (Store T) σ T Unit := do
  match (← get).arena with
  | unused => return ()
  | live vs h =>
      let stamp ← drawStamp fresh
      let stop := lastPanic panics vs n vs.length
      let keep := stop.getD n
      modify fun c => { c with
        arena := live (vs.take keep) (h.commit n stamp)
        dropped := c.dropped ++ (vs.drop keep).reverse }
      if stop.isSome then throw (.unwinds .destructor) else return ()

def tryRollback (fresh : Source σ) (panics : Dtor T) (cp : Checkpoint) :
    Op (Store T) σ T (Except CheckpointError Unit) := do
  match (← get).arena.validateCheckpoint cp with
  | .error e => return .error e
  | .ok () =>
      cutDown fresh panics cp.len
      return .ok ()

/-- Begin a new epoch with no values and hand the old ones out. -/
def drain (fresh : Source σ) : Op (Store T) σ T (List T) := do
  match (← get).arena with
  | unused => return []
  | live vs h =>
      let stamp ← drawStamp fresh
      modify fun c => { c with arena := live [] (h.commit 0 stamp) }
      return vs

/-- A handle is good while its slot is there and carries its mark. -/
def isValid : Store T → Idx → Bool
  | unused, _ => false
  | live vs h, idx => decide (idx.slot < vs.length) && decide (h.markAt idx.slot = idx.stamp)

def tryGet (st : Store T) (idx : Idx) : Option T :=
  if st.isValid idx then st.values[idx.slot]? else none

/-- Every slot with the handle that is good for it. -/
def indexed : Store T → List (Idx × T)
  | unused => []
  | live vs h => vs.zipIdx.map fun (v, slot) => (⟨h.markAt slot, slot⟩, v)

/-- Serve a request. -/
def serve (tgt : Target) (fresh : Source σ) : Request T → Op (Store T) σ T (Reply T)
  | .alloc value _ => .idx <$> alloc tgt fresh value
  | .allocBlock input _ => .block <$> allocBlock tgt fresh input
  | .extend input _ => (fun _ => .done) <$> allocBlock tgt fresh input
  | .checkpoint => .checkpoint <$> checkpoint fresh
  | .validateCheckpoint cp => return .verdict ((← get).arena.validateCheckpoint cp)
  | .tryRollback cp panics => .verdict <$> tryRollback fresh panics cp
  | .reset panics => (fun _ => .done) <$> cutDown fresh panics 0
  | .drain => .drained <$> drain fresh
  | .len => return .len (← get).arena.values.length
  | .isValid idx => return .valid ((← get).arena.isValid idx)
  | .tryGet idx => return .value ((← get).arena.tryGet idx)
  | .iter => return .values (← get).arena.values
  | .iterIndexed => return .indexed (← get).arena.indexed

/-! ## Running the operations -/

section Run

variable {fresh : Source σ} {src src' : σ} {s : Stamp} {p : Panic}

theorem run_assigned_live (fresh : Source σ) (vs : List T) (h : Epochs) (src : σ) (d : List T) :
    (assigned fresh).run ⟨live vs h, src, d⟩ = .ok (vs, h) ⟨live vs h, src, d⟩ := rfl

theorem run_assigned_ok (hf : fresh src = (.ok s, src')) (d : List T) :
    (assigned fresh).run ⟨(unused : Store T), src, d⟩
      = .ok ([], .new s) ⟨live [] (.new s), src', d⟩ := by
  have hd := run_drawStamp_ok (c := (⟨unused, src, d⟩ : Ctx (Store T) σ T)) hf
  simp [assigned, hd]

theorem run_assigned_error (hf : fresh src = (.error p, src')) (d : List T) :
    (assigned fresh).run ⟨(unused : Store T), src, d⟩ = .error (.unwinds p) ⟨unused, src', d⟩ := by
  have hd := run_drawStamp_error (c := (⟨unused, src, d⟩ : Ctx (Store T) σ T)) hf
  simp [assigned, hd]

theorem run_insert_live {tgt : Target} {vs values : List T}
    (hfit : vs.length + values.length ≤ tgt.usizeMax) (h : Epochs) (src : σ) (d : List T) :
    (insert tgt fresh values).run ⟨live vs h, src, d⟩
      = .ok (h.current, vs.length) ⟨live (vs ++ values) h, src, d⟩ := by
  have ha := run_owning_ok values (run_assigned_live fresh vs h src d)
  simp [insert, ha, append, hfit]

theorem run_insert_full {tgt : Target} {vs values : List T}
    (hfull : tgt.usizeMax < vs.length + values.length) (h : Epochs) (src : σ) (d : List T) :
    (insert tgt fresh values).run ⟨live vs h, src, d⟩
      = .error (.unwinds .capacityOverflow) ⟨live vs h, src, d ++ values⟩ := by
  have ha := run_owning_ok values (run_assigned_live fresh vs h src d)
  have ht : (throw (.unwinds .capacityOverflow) : Op (Store T) σ T Unit).run ⟨live vs h, src, d⟩
      = .error (.unwinds .capacityOverflow) ⟨live vs h, src, d⟩ := rfl
  have ho := run_owning_unwinds values ht
  simp [insert, ha, append, Nat.not_le.mpr hfull, ho]

theorem run_checkpoint (c : Ctx (Store T) σ T) :
    (checkpoint fresh).run c = ((fun r : List T × Epochs =>
      (⟨r.2.birth, r.1.length, tailOf r.2 r.1.length⟩ : Checkpoint)) <$> assigned fresh).run c :=
  rfl

/-- The first insertion goes on as one into a live store. -/
theorem run_insert_ok (hf : fresh src = (.ok s, src')) (tgt : Target) (values d : List T) :
    (insert tgt fresh values).run ⟨unused, src, d⟩
      = (insert tgt fresh values).run ⟨live [] (.new s), src', d⟩ := by
  have h1 := run_owning_ok values (run_assigned_ok hf d)
  have h2 := run_owning_ok values
    (run_assigned_live fresh ([] : List T) (.new s) src' d)
  simp only [insert, EStateM.run_bind, h1, h2]

theorem run_insert_error (hf : fresh src = (.error p, src')) (tgt : Target) (values d : List T) :
    (insert tgt fresh values).run ⟨unused, src, d⟩
      = .error (.unwinds p) ⟨unused, src', d ++ values⟩ := by
  have h1 := run_owning_unwinds values (run_assigned_error hf d)
  simp only [insert, EStateM.run_bind, h1]

theorem run_allocBlock_cons (tgt : Target) (v : T) (values : List T) (c : Ctx (Store T) σ T) :
    (allocBlock tgt fresh ⟨v :: values, false⟩).run c
      = ((fun r : Stamp × Nat => (⟨some r.1, r.2, (v :: values).length⟩ : Block)) <$>
          insert tgt fresh (v :: values)).run c := rfl

theorem run_cutDown_unused (panics : Dtor T) (n : Nat) (src : σ) (d : List T) :
    (cutDown fresh panics n).run ⟨unused, src, d⟩ = .ok () ⟨unused, src, d⟩ := rfl

theorem run_cutDown_error (hf : fresh src = (.error p, src')) (panics : Dtor T) (n : Nat)
    (vs d : List T) (h : Epochs) :
    (cutDown fresh panics n).run ⟨live vs h, src, d⟩
      = .error (.unwinds p) ⟨live vs h, src', d⟩ := by
  have hd := run_drawStamp_error (c := (⟨live vs h, src, d⟩ : Ctx (Store T) σ T)) hf
  simp [cutDown, hd]

/-- No destructor panics above `n`. -/
theorem run_cutDown_ok (hf : fresh src = (.ok s, src')) {panics : Dtor T} {n : Nat} {vs : List T}
    (hp : lastPanic panics vs n vs.length = none) (h : Epochs) (d : List T) :
    (cutDown fresh panics n).run ⟨live vs h, src, d⟩
      = .ok () ⟨live (vs.take n) (h.commit n s), src', d ++ (vs.drop n).reverse⟩ := by
  have hd := run_drawStamp_ok (c := (⟨live vs h, src, d⟩ : Ctx (Store T) σ T)) hf
  simp [cutDown, hd, hp]

/-- The highest destructor to panic above `n` is that of slot `k`. -/
theorem run_cutDown_panic (hf : fresh src = (.ok s, src')) {panics : Dtor T} {n k : Nat}
    {vs : List T} (hp : lastPanic panics vs n vs.length = some k) (h : Epochs) (d : List T) :
    (cutDown fresh panics n).run ⟨live vs h, src, d⟩
      = .error (.unwinds .destructor)
          ⟨live (vs.take k) (h.commit n s), src', d ++ (vs.drop k).reverse⟩ := by
  have hd := run_drawStamp_ok (c := (⟨live vs h, src, d⟩ : Ctx (Store T) σ T)) hf
  simp [cutDown, hd, hp]

theorem run_tryRollback_valid {c : Ctx (Store T) σ T} {cp : Checkpoint}
    (hv : c.arena.validateCheckpoint cp = .ok ()) (panics : Dtor T) :
    (tryRollback fresh panics cp).run c
      = ((fun _ => .ok ()) <$> cutDown fresh panics cp.len).run c := by
  simp only [tryRollback, run_map, EStateM.run_bind, EStateM.run_get, hv]
  cases (cutDown fresh panics cp.len).run c <;> rfl

theorem run_drain_ok (hf : fresh src = (.ok s, src')) (vs d : List T) (h : Epochs) :
    (drain fresh).run ⟨live vs h, src, d⟩ = .ok vs ⟨live [] (h.commit 0 s), src', d⟩ := by
  have hd := run_drawStamp_ok (c := (⟨live vs h, src, d⟩ : Ctx (Store T) σ T)) hf
  simp [drain, hd]

theorem run_drain_error (hf : fresh src = (.error p, src')) (vs d : List T) (h : Epochs) :
    (drain fresh).run ⟨live vs h, src, d⟩ = .error (.unwinds p) ⟨live vs h, src', d⟩ := by
  have hd := run_drawStamp_error (c := (⟨live vs h, src, d⟩ : Ctx (Store T) σ T)) hf
  simp [drain, hd]

end Run

/-! ## What a request can do -/

theorem lastPanic_bounds {panics : Dtor T} {vs : List T} {target n k : Nat}
    (h : lastPanic panics vs target n = some k) : target ≤ k ∧ k < n := by
  induction n with
  | zero => cases h
  | succ n ih =>
      rw [lastPanic] at h
      split at h
      · cases h
      · rename_i hle
        split at h
        · have hk : n = k := Option.some.inj h
          subst hk
          exact ⟨Nat.le_of_not_lt hle, Nat.lt_succ_self n⟩
        · obtain ⟨htarget, hlt⟩ := ih h
          exact ⟨htarget, Nat.lt_succ_of_lt hlt⟩

/-- The value at the slot found has a panicking destructor and no value above it has. -/
theorem lastPanic_some {panics : Dtor T} {vs : List T} {target n k : Nat}
    (h : lastPanic panics vs target n = some k) : (∃ v, vs[k]? = some v ∧ panics k v = true) ∧
      ∀ j v, k < j → j < n → vs[j]? = some v → panics j v = false := by
  induction n with
  | zero => cases h
  | succ n ih =>
      rw [lastPanic] at h
      split at h
      · cases h
      · split at h
        · rename_i hany
          cases h
          refine ⟨(Option.any_eq_true _ _).mp hany, fun j v hj hlt => ?_⟩
          exact absurd hlt (Nat.not_lt.mpr hj)
        · rename_i hnone
          obtain ⟨hk, habove⟩ := ih h
          refine ⟨hk, fun j v hj hlt hv => ?_⟩
          rcases Nat.lt_succ_iff_lt_or_eq.mp hlt with hlt | rfl
          · exact habove j v hj hlt hv
          · rwa [hv, Option.any_some, Bool.not_eq_true] at hnone

theorem lastPanic_none {panics : Dtor T} {vs : List T} {target n : Nat}
    (h : lastPanic panics vs target n = none) {j : Nat} {v : T} (hj : target ≤ j) (hlt : j < n)
    (hv : vs[j]? = some v) : panics j v = false := by
  induction n with
  | zero => cases hlt
  | succ n ih =>
      rw [lastPanic] at h
      split at h
      · omega
      · split at h
        · cases h
        · rename_i hnone
          rcases Nat.lt_succ_iff_lt_or_eq.mp hlt with hlt | rfl
          · exact ih h hlt
          · rwa [hv, Option.any_some, Bool.not_eq_true] at hnone

/-- What one request can do to a store and the source of its stamps.  The index
is the boundary it commits. -/
inductive Step (fresh : Source σ) : Store T × σ → Option Nat → Store T × σ → Prop where
  /-- An unused store holds nothing a boundary could reach. -/
  | idle (src : σ) (boundary : Option Nat) : Step fresh (unused, src) boundary (unused, src)
  | push (vs ws : List T) (h : Epochs) (src : σ) :
      Step fresh (live vs h, src) none (live (vs ++ ws) h, src)
  | failed (st : Store T) {src src' : σ} {p : Panic} (hf : fresh src = (.error p, src')) :
      Step fresh (st, src) none (st, src')
  | born (ws : List T) {src src' : σ} {s : Stamp} (hf : fresh src = (.ok s, src')) :
      Step fresh (unused, src) none (live ws (.new s), src')
  /-- The values down to `k` may be gone, those below `n` are not. -/
  | cut {vs : List T} {h : Epochs} {n k : Nat} {src src' : σ} {s : Stamp}
      (hf : fresh src = (.ok s, src')) (hn : n ≤ vs.length) (hk : n ≤ k) :
      Step fresh (live vs h, src) (some n) (live (vs.take k) (h.commit n s), src')

namespace Step

variable {fresh : Source σ}

theorem refl (st : Store T) (src : σ) : Step fresh (st, src) none (st, src) := by
  cases st with
  | unused => exact .idle src none
  | live vs h =>
      have hpush : Step fresh (live vs h, src) none (live (vs ++ []) h, src) := .push vs [] h src
      rwa [List.append_nil] at hpush

end Step

section ServeStep

variable {fresh : Source σ}

theorem assigned_step (c : Ctx (Store T) σ T) :
    Step fresh (c.arena, c.source) none
      ((left ((assigned fresh).run c)).arena, (left ((assigned fresh).run c)).source) := by
  obtain ⟨st, src, d⟩ := c
  cases st with
  | live vs h => exact .refl _ src
  | unused =>
      rcases hf : fresh src with ⟨p | s, src'⟩
      · rw [run_assigned_error hf]
        exact .failed unused hf
      · rw [run_assigned_ok hf]
        exact .born [] hf

theorem insert_step (tgt : Target) (values : List T) (c : Ctx (Store T) σ T) :
    Step fresh (c.arena, c.source) none
      ((left ((insert tgt fresh values).run c)).arena,
        (left ((insert tgt fresh values).run c)).source) := by
  obtain ⟨st, src, d⟩ := c
  cases st with
  | live vs h =>
      rcases Nat.lt_or_ge tgt.usizeMax (vs.length + values.length) with hfull | hfit
      · rw [run_insert_full hfull]
        exact .refl _ src
      · rw [run_insert_live hfit]
        exact .push vs values h src
  | unused =>
      rcases hf : fresh src with ⟨p | s, src'⟩
      · rw [run_insert_error hf]
        exact .failed unused hf
      · rw [run_insert_ok hf]
        rcases Nat.lt_or_ge tgt.usizeMax (([] : List T).length + values.length) with hfull | hfit
        · rw [run_insert_full hfull]
          exact .born [] hf
        · rw [run_insert_live hfit]
          exact .born ([] ++ values) hf

theorem allocBlock_step (tgt : Target) (input : Input T) (c : Ctx (Store T) σ T) :
    Step fresh (c.arena, c.source) none
      ((left ((allocBlock tgt fresh input).run c)).arena,
        (left ((allocBlock tgt fresh input).run c)).source) := by
  obtain ⟨values, panics⟩ := input
  cases panics with
  | true => exact .refl c.arena c.source
  | false =>
      cases values with
      | nil => exact .refl c.arena c.source
      | cons v values =>
          rw [run_allocBlock_cons, left_run_map]
          exact insert_step tgt (v :: values) c

/-- Cutting down commits its boundary unless it finds no stamp. -/
theorem cutDown_step {req : Request T} {reply : Reply T} {n : Nat} (panics : Dtor T)
    (c : Ctx (Store T) σ T) (hreq : req.boundary = some n)
    (hreply : committed req (.ok reply) = some n)
    (hsrc : ∀ p src, fresh c.source = (.error p, src) → p ≠ .destructor)
    (hn : n ≤ c.arena.values.length) :
    Step fresh (c.arena, c.source)
      (committed req (ending (((fun _ => reply) <$> cutDown fresh panics n).run c)))
      ((left (((fun _ => reply) <$> cutDown fresh panics n).run c)).arena,
        (left (((fun _ => reply) <$> cutDown fresh panics n).run c)).source) := by
  obtain ⟨st, src, d⟩ := c
  cases st with
  | unused => exact .idle src _
  | live vs h =>
      rcases hf : fresh src with ⟨p | s, src'⟩
      · simp only [run_map, run_cutDown_error hf, ending_error,
          committed_of_ne_destructor req (hsrc p src' hf)]
        exact .failed _ hf
      · cases hp : lastPanic panics vs n vs.length with
        | none =>
            simp only [run_map, run_cutDown_ok hf hp, ending_ok, hreply]
            exact .cut hf hn (Nat.le_refl n)
        | some k =>
            have hd : committed req (.error (.unwinds .destructor)) = some n := hreq
            simp only [run_map, run_cutDown_panic hf hp, ending_error, hd]
            exact .cut hf hn (lastPanic_bounds hp).1

theorem drain_step (c : Ctx (Store T) σ T)
    (hsrc : ∀ p src, fresh c.source = (.error p, src) → p ≠ .destructor) :
    Step fresh (c.arena, c.source)
      (committed .drain (ending ((Reply.drained <$> drain fresh).run c)))
      ((left ((Reply.drained <$> drain fresh).run c)).arena,
        (left ((Reply.drained <$> drain fresh).run c)).source) := by
  obtain ⟨st, src, d⟩ := c
  cases st with
  | unused => exact .idle src _
  | live vs h =>
      rcases hf : fresh src with ⟨p | s, src'⟩
      · simp only [run_map, run_drain_error hf, ending_error,
          committed_of_ne_destructor .drain (hsrc p src' hf)]
        exact .failed _ hf
      · simp only [run_map, run_drain_ok hf, ending_ok]
        exact .cut hf (Nat.zero_le _) (Nat.le_refl 0)

theorem validateCheckpoint_ok {st : Store T} {cp : Checkpoint}
    (h : st.validateCheckpoint cp = .ok ()) : cp.len ≤ st.values.length := by
  cases st with
  | unused => cases h
  | live vs e =>
      rw [validateCheckpoint] at h
      split at h
      · cases h
      · split at h
        · cases h
        · rename_i hlt
          exact Nat.le_of_not_lt hlt

/-- Every request is one step, and its boundary can be read off how it ended. -/
theorem serve_step (tgt : Target) (req : Request T) (c : Ctx (Store T) σ T)
    (hsrc : ∀ p src, fresh c.source = (.error p, src) → p ≠ .destructor) :
    Step fresh (c.arena, c.source) (committed req (ending ((serve tgt fresh req).run c)))
      ((left ((serve tgt fresh req).run c)).arena,
        (left ((serve tgt fresh req).run c)).source) := by
  cases req with
  | alloc value =>
      rw [committed_of_boundary rfl, serve, left_run_map]
      have hrun : (alloc tgt fresh value).run c
          = ((fun r : Stamp × Nat => (⟨r.1, r.2⟩ : Idx)) <$> insert tgt fresh [value]).run c := rfl
      rw [hrun, left_run_map]
      exact insert_step tgt [value] c
  | allocBlock input =>
      rw [committed_of_boundary rfl, serve, left_run_map]
      exact allocBlock_step tgt input c
  | extend input =>
      rw [committed_of_boundary rfl, serve, left_run_map]
      exact allocBlock_step tgt input c
  | checkpoint =>
      rw [committed_of_boundary rfl, serve, left_run_map]
      rw [run_checkpoint, left_run_map]
      exact assigned_step c
  | tryRollback cp panics =>
      cases hv : c.arena.validateCheckpoint cp with
      | error e =>
          have hrun : (serve tgt fresh (.tryRollback cp panics)).run c
              = .ok (.verdict (.error e)) c := by
            simp [serve, tryRollback, hv]
          rw [hrun]
          exact .refl c.arena c.source
      | ok u =>
          have hrun : (serve tgt fresh (.tryRollback cp panics)).run c
              = ((fun _ => .verdict (.ok ())) <$> cutDown fresh panics cp.len).run c := by
            rw [serve, run_map, run_tryRollback_valid hv, run_map, run_map]
            cases (cutDown fresh panics cp.len).run c <;> rfl
          rw [hrun]
          exact cutDown_step panics c rfl rfl hsrc (validateCheckpoint_ok hv)
  | reset panics => exact cutDown_step panics c rfl rfl hsrc (Nat.zero_le _)
  | drain => exact drain_step c hsrc
  | validateCheckpoint cp =>
      rw [committed_of_boundary rfl]
      exact .refl c.arena c.source
  | len => exact .refl c.arena c.source
  | isValid idx => exact .refl c.arena c.source
  | tryGet idx => exact .refl c.arena c.source
  | iter => exact .refl c.arena c.source
  | iterIndexed => exact .refl c.arena c.source

end ServeStep

end Store

end SafeBump
