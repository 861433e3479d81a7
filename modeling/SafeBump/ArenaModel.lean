import SafeBump.Arena
import SafeBump.Lifetime

/-!
# The arena stores values and their epochs

`Arena.Models tgt a st` says that the arena `a` holds what the store `st`
holds: the same values, an identity that stores the history, and a mirror in
step with it.  From there every request ends alike on both, with the same reply,
the same values dropped and the same stamps drawn (`Arena.serve_refines`).

Two assumptions are not the arena's to discharge.  A stamp it draws must be new
to it.  A handle it is asked about must be `Store.Sound`: the fast path accepts
the current stamp without a look at where the current segment starts.
-/

namespace SafeBump

open Library (History)
open Library.Unwind

variable {σ T : Type}

/-- A handle with the current mark names a slot of the current epoch. -/
def Store.Sound (st : Store T) (idx : Idx) : Prop :=
  ∀ h, st.epochs = some h → idx.stamp = h.current → h.start ≤ idx.slot

/-- A handle of another store is sound. -/
theorem Store.sound_of_notMem {st : Store T} {idx : Idx} (h : idx.stamp ∉ st.marks) :
    st.Sound idx := by
  cases st with
  | unused =>
      intro e' he'
      cases he'
  | live vs e =>
      intro e' he' hcur
      cases he'
      exact absurd (hcur ▸ e.current_mem) h

/-- A handle that was good once is sound from then on. -/
theorem Store.Extends.sound {st st' : Store T} {cs : List (Change T)} (h : st.Extends cs st')
    (hok : st'.Ok) {idx : Idx} (hv : st.isValid idx = true) : st'.Sound idx :=
  fun _ he hcur => (h.of_current hok hv he hcur).2

namespace Arena

/-- An arena with an identity, its mirror in step. -/
def holding (items : List T) (id : Identity) : Arena T := ⟨items, some id, id.current.get⟩

@[simp] theorem items_holding (items : List T) (id : Identity) :
    (holding items id).items = items := rfl

@[simp] theorem sidecar_holding (items : List T) (id : Identity) :
    (holding items id).sidecar = some id := rfl

@[simp] theorem current_holding (items : List T) (id : Identity) :
    (holding items id).current = id.current.get := rfl

@[simp] theorem items_new : (new : Arena T).items = [] := rfl

@[simp] theorem sidecar_new : (new : Arena T).sidecar = none := rfl

@[simp] theorem current_new : (new : Arena T).current = 0 := rfl

/-- The arena `a` holds what the store holds. -/
inductive Models (tgt : Target) : Arena T → Store T → Prop where
  | unused : Models tgt new .unused
  | live {items : List T} {id : Identity} {h : Epochs} (hm : id.Models h)
      (hstart : h.start ≤ items.length) (hfit : items.length ≤ tgt.usizeMax) :
      Models tgt (holding items id) (.live items h)

/-- Calls stay in step. -/
def Refines (tgt : Target) (c : Ctx (Arena T) σ T) (c' : Ctx (Store T) σ T) : Prop :=
  Models tgt c.arena c'.arena ∧ c.source = c'.source ∧ c.dropped = c'.dropped

theorem Models.ok {tgt : Target} {a : Arena T} {st : Store T} (h : Models tgt a st) : st.Ok := by
  cases h with
  | unused => trivial
  | live hm hstart _ => exact ⟨hm.distinct, hstart⟩

theorem Models.items {tgt : Target} {a : Arena T} {st : Store T} (h : Models tgt a st) :
    a.items = st.values := by
  cases h <;> rfl

/-- The mirror is 0 without an identity, and then there are no values.  Otherwise it is
the current stamp of the identity. -/
theorem Models.mirror {tgt : Target} {a : Arena T} {st : Store T} (h : Models tgt a st) :
    (a.current = 0 ↔ a.sidecar = none) ∧
      (∀ id, a.sidecar = some id → a.current = id.current.get) ∧
      (a.sidecar = none → a.items = []) := by
  cases h with
  | unused => exact ⟨⟨fun _ => rfl, fun _ => rfl⟩, (fun id hid => by cases hid), fun _ => rfl⟩
  | @live items id e hm _ _ =>
      refine ⟨⟨fun hz => absurd hz id.current.ne_zero, fun hs => by cases hs⟩, fun id' hid => ?_,
        fun hs => by cases hs⟩
      cases hid
      rfl

/-- A nonzero mirror is the current mark of the store. -/
theorem Models.of_current {tgt : Target} {a : Arena T} {st : Store T} (h : Models tgt a st)
    {s : Stamp} (hs : s.get = a.current) : ∃ e, st.epochs = some e ∧ s = e.current ∧
      (a.sidecar.map Identity.currentStart).getD 0 = e.start := by
  cases h with
  | unused => exact absurd hs s.ne_zero
  | @live items id e hm _ _ => exact ⟨e, rfl, (Stamp.get_inj.mp hs).trans hm.current, hm.start⟩

/-- Each slot is stamped with its mark. -/
theorem Models.stampOf {tgt : Target} {a : Arena T} {st : Store T} (h : Models tgt a st)
    (slot : Nat) : (a.sidecar.map fun id => id.stampOf slot) = st.epochs.map (·.markAt slot) := by
  cases h with
  | unused => rfl
  | live hm _ _ => exact congrArg some (hm.stampOf_eq slot)

/-! ## Running the operations -/

section Run

variable {tgt : Target} {fresh : Source σ} {src src' : σ} {s : Stamp} {p : Panic}

theorem run_identity_holding (items : List T) (id : Identity) (src : σ) (d : List T) :
    (identity fresh).run ⟨holding items id, src, d⟩ = .ok id ⟨holding items id, src, d⟩ := rfl

theorem run_identity_ok (hf : fresh src = (.ok s, src')) (d : List T) :
    (identity fresh).run ⟨(new : Arena T), src, d⟩
      = .ok (.new s) ⟨holding [] (.new s), src', d⟩ := by
  have hd := run_drawStamp_ok (c := (⟨new, src, d⟩ : Ctx (Arena T) σ T)) hf
  simp [identity, holding, hd]

theorem run_identity_error (hf : fresh src = (.error p, src')) (d : List T) :
    (identity fresh).run ⟨(new : Arena T), src, d⟩ = .error (.unwinds p) ⟨new, src', d⟩ := by
  have hd := run_drawStamp_error (c := (⟨new, src, d⟩ : Ctx (Arena T) σ T)) hf
  simp [identity, hd]

theorem run_currentStamp_holding (fresh : Source σ) (items : List T) (id : Identity) (src : σ)
    (d : List T) :
    (currentStamp fresh).run ⟨holding items id, src, d⟩
      = .ok id.current ⟨holding items id, src, d⟩ := by
  simp [currentStamp, id.current.ne_zero]

theorem run_currentStamp_ok (hf : fresh src = (.ok s, src')) (d : List T) :
    (currentStamp fresh).run ⟨(new : Arena T), src, d⟩
      = .ok s ⟨holding [] (.new s), src', d⟩ := by
  simp [currentStamp, run_identity_ok hf, Identity.new]

theorem run_currentStamp_error (hf : fresh src = (.error p, src')) (d : List T) :
    (currentStamp fresh).run ⟨(new : Arena T), src, d⟩ = .error (.unwinds p) ⟨new, src', d⟩ := by
  simp [currentStamp, run_identity_error hf]

theorem run_append_fit {a : Arena T} {values : List T}
    (hfit : a.items.length + values.length ≤ tgt.usizeMax) (src : σ) (d : List T) :
    (append tgt values).run ⟨a, src, d⟩
      = .ok () ⟨{ a with items := a.items ++ values }, src, d⟩ := by
  simp [append, hfit]

theorem run_append_full {a : Arena T} {values : List T}
    (hfull : tgt.usizeMax < a.items.length + values.length) (src : σ) (d : List T) :
    (append tgt values).run ⟨a, src, d⟩ = .error (.unwinds .capacityOverflow) ⟨a, src, d⟩ := by
  simp [append, Nat.not_le.mpr hfull]

/-- What `try_rollback` and `reset` do once they have an identity. -/
def cutDown (fresh : Source σ) (panics : Dtor T) (id : Identity) (n : Nat) :
    Op (Arena T) σ T Unit := do
  commit fresh id n
  popDownTo panics n (← get).arena.items.length

/-- What `alloc` and `alloc_block` have in common. -/
def insert (tgt : Target) (fresh : Source σ) (values : List T) :
    Op (Arena T) σ T (Stamp × Nat) := do
  let stamp ← owning values (currentStamp fresh)
  let slot := (← get).arena.items.length
  owning values (append tgt values)
  return (stamp, slot)

theorem run_alloc (value : T) (c : Ctx (Arena T) σ T) :
    (alloc tgt fresh value).run c
      = ((fun r : Stamp × Nat => (⟨r.1, r.2⟩ : Idx)) <$> insert tgt fresh [value]).run c := by
  simp only [alloc, insert, run_map, EStateM.run_bind, EStateM.run_get]
  cases (owning [value] (currentStamp fresh)).run c with
  | error e c => rfl
  | ok stamp c =>
      simp only
      cases (owning [value] (append tgt [value])).run c <;> rfl

theorem run_allocBlock_cons (value : T) (values : List T) (c : Ctx (Arena T) σ T) :
    (allocBlock tgt fresh ⟨value :: values, false⟩).run c
      = (do
          let r ← insert tgt fresh (value :: values)
          ofExcept (Block.new tgt r.1 r.2 (value :: values).length)).run c := by
  change (do
    let stamp ← owning (value :: values) (currentStamp fresh)
    let c ← get
    owning (value :: values) (append tgt (value :: values))
    ofExcept (Block.new tgt stamp c.arena.items.length (value :: values).length)).run c = _
  simp only [insert, EStateM.run_bind, EStateM.run_get]
  cases (owning (value :: values) (currentStamp fresh)).run c with
  | error e c => rfl
  | ok stamp c =>
      simp only
      cases (owning (value :: values) (append tgt (value :: values))).run c <;> rfl

theorem run_insert_fit {items values : List T} {id : Identity}
    (hfit : items.length + values.length ≤ tgt.usizeMax) (src : σ) (d : List T) :
    (insert tgt fresh values).run ⟨holding items id, src, d⟩
      = .ok (id.current, items.length) ⟨holding (items ++ values) id, src, d⟩ := by
  have h1 := run_owning_ok values
    (run_currentStamp_holding fresh items id src d)
  have h2 := run_owning_ok values
    (run_append_fit (a := holding items id) hfit src d)
  simp only [insert, EStateM.run_bind, EStateM.run_get, h1, h2]
  rfl

theorem run_insert_full {items values : List T} {id : Identity}
    (hfull : tgt.usizeMax < items.length + values.length) (src : σ) (d : List T) :
    (insert tgt fresh values).run ⟨holding items id, src, d⟩
      = .error (.unwinds .capacityOverflow) ⟨holding items id, src, d ++ values⟩ := by
  have h1 := run_owning_ok values
    (run_currentStamp_holding fresh items id src d)
  have h2 := run_owning_unwinds values
    (run_append_full (a := holding items id) hfull src d)
  simp [insert, h1, h2]

theorem run_insert_ok (hf : fresh src = (.ok s, src')) (values d : List T) :
    (insert tgt fresh values).run ⟨new, src, d⟩
      = (insert tgt fresh values).run ⟨holding [] (.new s), src', d⟩ := by
  have h1 := run_owning_ok values (run_currentStamp_ok hf d)
  have h2 := run_owning_ok values
    (run_currentStamp_holding fresh ([] : List T) (.new s) src' d)
  simp only [insert, EStateM.run_bind, h1, h2]
  rfl

theorem run_insert_error (hf : fresh src = (.error p, src')) (values d : List T) :
    (insert tgt fresh values).run ⟨new, src, d⟩
      = .error (.unwinds p) ⟨new, src', d ++ values⟩ := by
  have h1 := run_owning_unwinds values (run_currentStamp_error hf d)
  simp only [insert, EStateM.run_bind, h1]

theorem run_commit_ok (hf : fresh src = (.ok s, src')) (items : List T) (id : Identity)
    (newLen : Nat) (d : List T) :
    (commit fresh id newLen).run ⟨holding items id, src, d⟩
      = .ok () ⟨holding items (id.commitWith newLen s), src', d⟩ := by
  have hrun : (Identity.commit fresh newLen).run (id, src)
    = .ok () (id.commitWith newLen s, src') :=
    Identity.run_commit_ok hf newLen
  simp only [EStateM.run] at hrun
  simp only [commit, zoom, EStateM.run, bind, EStateM.bind, hrun]
  rfl

/-- A commit that finds no stamp leaves the mirror in step: archiving keeps the
current stamp. -/
theorem run_commit_error (hf : fresh src = (.error p, src')) (items : List T) (id : Identity)
    (newLen : Nat) (d : List T) :
    (commit fresh id newLen).run ⟨holding items id, src, d⟩
      = .error (.unwinds p) ⟨holding items id.archive, src', d⟩ := by
  have hrun : (Identity.commit fresh newLen).run (id, src)
    = .error (.unwinds p) (id.archive, src') :=
    Identity.run_commit_error hf newLen
  simp only [EStateM.run] at hrun
  simp only [commit, zoom, EStateM.run, bind, EStateM.bind, hrun]
  simp [holding]

/-! ### The drop loops -/

/-- Only the values below `n` matter. -/
theorem lastPanic_append {panics : Dtor T} {vs ws : List T} {target : Nat} :
    ∀ {n : Nat}, n ≤ vs.length → lastPanic panics (vs ++ ws) target n = lastPanic panics vs target n
  | 0, _ => rfl
  | n + 1, hn => by
      rw [lastPanic, lastPanic, List.getElem?_append_left hn,
        lastPanic_append (Nat.le_of_succ_le hn)]

theorem lastPanic_concat {panics : Dtor T} {vs : List T} {v : T} {target : Nat} :
    lastPanic panics (vs ++ [v]) target (vs ++ [v]).length =
      if vs.length < target then none
      else if panics vs.length v then some vs.length
      else lastPanic panics vs target vs.length := by
  rw [List.length_append, List.length_singleton, lastPanic, lastPanic_append (Nat.le_refl _)]
  simp

/-- The loop of `try_rollback` drops from the top down to the target or to the
first destructor that panics.  The induction takes the values from the end. -/
theorem run_popDownTo (panics : Dtor T) (target : Nat) (items : List T) (sidecar : Option Identity)
    (current : Nat) (src : σ) (d : List T) :
    (popDownTo panics target items.length).run ⟨⟨items, sidecar, current⟩, src, d⟩ =
      match lastPanic panics items target items.length with
      | none => .ok ()
          ⟨⟨items.take target, sidecar, current⟩, src, d ++ (items.drop target).reverse⟩
      | some k => .error (.unwinds .destructor)
          ⟨⟨items.take k, sidecar, current⟩, src, d ++ (items.drop k).reverse⟩ := by
  induction items using List.reverseRecOn generalizing d with
  | nil => simp [popDownTo, lastPanic]
  | append_singleton items v ih =>
      rw [lastPanic_concat, List.length_append, List.length_singleton, popDownTo]
      simp only [EStateM.run_bind, EStateM.run_get, List.length_append, List.length_singleton]
      rcases Nat.lt_or_ge items.length target with hlt | hge
      · have hle : (items ++ [v]).length ≤ target := by
          rw [List.length_append]
          exact hlt
        rw [if_pos hlt, if_neg (Nat.not_lt.mpr (Nat.succ_le_of_lt hlt)),
          List.take_of_length_le hle, List.drop_of_length_le hle]
        simp
      · rw [if_neg (Nat.not_lt.mpr hge), if_pos (Nat.lt_succ_of_le hge)]
        simp only [List.getLast?_concat, EStateM.run_bind, EStateM.run_modify, run_dropValue,
          Nat.add_sub_cancel, List.dropLast_concat]
        cases panics items.length v with
        | true => simp
        | false =>
            simp only [Bool.false_eq_true, if_false]
            rw [ih]
            cases hl : lastPanic panics items target items.length with
            | none => simp [List.take_append_of_le_length hge, List.drop_append_of_le_length hge]
            | some k =>
                have hk := Nat.le_of_lt (Store.lastPanic_bounds hl).2
                simp [List.take_append_of_le_length hk, List.drop_append_of_le_length hk]

/-- The loop of `reset` is the loop of `try_rollback` with target 0. -/
theorem run_popAll (panics : Dtor T) (fuel : Nat) (c : Ctx (Arena T) σ T) :
    (popAll panics fuel).run c = (popDownTo panics 0 fuel).run c := by
  induction fuel generalizing c with
  | zero => rfl
  | succ fuel ih =>
      obtain ⟨⟨items, sidecar, current⟩, src, d⟩ := c
      cases items using List.reverseRecOn with
      | nil => rfl
      | append_singleton items v =>
          have hpos : 0 < (items ++ [v]).length := by simp
          simp only [popAll, popDownTo, EStateM.run_bind, EStateM.run_get, if_pos hpos,
            List.getLast?_concat, EStateM.run_modify, run_dropValue]
          cases panics ((items ++ [v]).length - 1) v with
          | true => rfl
          | false => exact ih _

end Run

/-! ## Lookups -/

section Lookup

variable {tgt : Target} {a : Arena T} {st : Store T}

theorem tailOf_eq {id : Identity} {h : Epochs} (hm : id.Models h) (len : Nat) :
    tailOf id len = Store.tailOf h len := by
  simp only [tailOf, Store.tailOf, hm.stampOf_eq]

theorem validateCheckpoint_eq (hm : Models tgt a st) (cp : Checkpoint) :
    a.validateCheckpoint cp = st.validateCheckpoint cp := by
  cases hm with
  | unused => rfl
  | live hm _ _ =>
      simp only [validateCheckpoint, Store.validateCheckpoint, sidecar_holding, hm.birth,
        tailOf_eq hm]
      rfl

/-- The reordered check is the plain one for a sound handle. -/
theorem stampMatches_iff (items : List T) {id : Identity} {h : Epochs} (hm : id.Models h)
    {idx : Idx} (hs : idx.stamp = h.current → h.start ≤ idx.slot) :
    (holding items id).stampMatches idx = true ↔ h.markAt idx.slot = idx.stamp := by
  rw [stampMatches, Bool.or_eq_true, decide_eq_true_iff, current_holding, Stamp.get_inj,
    hm.current, stampMatchesArchived, sidecar_holding, Option.any_some, hm.matchesArchived_iff]
  constructor
  · rintro (hc | ⟨_, hmark⟩)
    · rw [History.markAt_of_start_le (hs hc), hc]
    · exact hmark
  · intro hmark
    rcases Nat.lt_or_ge idx.slot h.start with hlt | hge
    · exact .inr ⟨hlt, hmark⟩
    · exact .inl (hmark.symm.trans (History.markAt_of_start_le hge))

theorem isValid_eq (hm : Models tgt a st) {idx : Idx} (hs : st.Sound idx) :
    a.isValid idx = st.isValid idx := by
  cases hm with
  | unused => simp [isValid, Store.isValid]
  | @live items id h hm _ _ =>
      have hiff := stampMatches_iff items hm (hs h rfl)
      rw [Bool.eq_iff_iff, isValid, Bool.and_eq_true, hiff, Store.isValid, Bool.and_eq_true,
        decide_eq_true_iff, decide_eq_true_iff, decide_eq_true_iff, items_holding]

theorem tryGet_eq (hm : Models tgt a st) {idx : Idx} (hs : st.Sound idx) :
    a.tryGet idx = st.tryGet idx := by
  have hv := isValid_eq hm hs
  rw [Store.tryGet, ← hv, ← hm.items, tryGet, isValid]
  cases hi : a.items[idx.slot]? with
  | none =>
      have hge := List.getElem?_eq_none_iff.mp hi
      simp [Nat.not_lt.mpr hge]
  | some v =>
      obtain ⟨hlt, _⟩ := List.getElem?_eq_some_iff.mp hi
      simp [hlt]

/-- `try_get_mut` tests the stamp first and `try_get` the length first. -/
theorem tryGetMut_eq_tryGet (a : Arena T) (idx : Idx) : a.tryGetMut idx = a.tryGet idx := by
  rw [tryGetMut, tryGet]
  cases a.items[idx.slot]? <;> cases a.stampMatches idx <;> rfl

theorem collect_holding (id : Identity) (items : List T) (slot : Nat) :
    IterIndexed.collect items.length ⟨some id, items, slot⟩
      = .ok ((items.zipIdx slot).map fun (v, slot) => (⟨id.stampOf slot, slot⟩, v)) := by
  induction items generalizing slot with
  | nil => rfl
  | cons v items ih =>
      rw [List.length_cons, IterIndexed.collect, IterIndexed.next]
      simp only [bind, Except.bind, ih]
      rfl

theorem iterIndexed_eq (hm : Models tgt a st) : a.iterIndexed = .ok st.indexed := by
  cases hm with
  | unused => rfl
  | @live items id h hm _ _ =>
      have hstamp : id.stampOf = h.markAt := funext hm.stampOf_eq
      exact (collect_holding id items 0).trans (by rw [hstamp]; rfl)

end Lookup

/-! ## Requests -/

section Refinement

variable {tgt : Target} {fresh : Source σ} {a : Arena T} {st : Store T}

theorem insert_refines (hm : Models tgt a st) (values : List T) (src : σ) (d : List T) :
    EndsLike Eq (Refines tgt) (fun r r' => r = r' ∧ r.2 + values.length ≤ tgt.usizeMax)
      ((insert tgt fresh values).run ⟨a, src, d⟩)
      ((Store.insert tgt fresh values).run ⟨st, src, d⟩) := by
  -- the case of an arena with an identity; the first insertion is one into an empty such arena
  have hlive : ∀ {items : List T} {id : Identity} {h : Epochs} (src : σ), id.Models h →
      h.start ≤ items.length → items.length ≤ tgt.usizeMax →
      EndsLike Eq (Refines tgt) (fun r r' => r = r' ∧ r.2 + values.length ≤ tgt.usizeMax)
        ((insert tgt fresh values).run ⟨holding items id, src, d⟩)
        ((Store.insert tgt fresh values).run ⟨.live items h, src, d⟩) := by
    intro items id h src hm hstart hfit
    rcases Nat.lt_or_ge tgt.usizeMax (items.length + values.length) with hfull | hroom
    · rw [run_insert_full hfull, Store.run_insert_full hfull]
      exact ⟨rfl, .live hm hstart hfit, rfl, rfl⟩
    · rw [run_insert_fit hroom, Store.run_insert_live hroom, hm.current]
      refine ⟨⟨rfl, hroom⟩, .live hm ?_ ?_, rfl, rfl⟩
      · rw [List.length_append]
        exact Nat.le_add_right_of_le hstart
      · rwa [List.length_append]
  cases hm with
  | live hm hstart hfit => exact hlive src hm hstart hfit
  | unused =>
      rcases hf : fresh src with ⟨p | s, src'⟩
      · rw [run_insert_error hf, Store.run_insert_error hf]
        exact ⟨rfl, .unused, rfl, rfl⟩
      · rw [run_insert_ok hf, Store.run_insert_ok hf]
        exact hlive src' (.new s) (Nat.zero_le _) (Nat.zero_le _)

theorem allocBlock_refines (hm : Models tgt a st) (input : Input T) (src : σ) (d : List T) :
    EndsLike Eq (Refines tgt) Eq ((allocBlock tgt fresh input).run ⟨a, src, d⟩)
      ((Store.allocBlock tgt fresh input).run ⟨st, src, d⟩) := by
  obtain ⟨values, panics⟩ := input
  cases panics with
  | true => exact ⟨rfl, hm, rfl, rfl⟩
  | false =>
      cases values with
      | nil => exact ⟨rfl, hm, rfl, rfl⟩
      | cons v values =>
          rw [run_allocBlock_cons, Store.run_allocBlock_cons]
          change EndsLike _ _ _ _ ((do
            let r ← Store.insert tgt fresh (v :: values)
            return (⟨some r.1, r.2, (v :: values).length⟩ : Block)).run _)
          refine EndsLike.bind (insert_refines hm (v :: values) src d) ?_
          rintro ⟨stamp, start⟩ _ c c' ⟨rfl, hfit⟩ hR
          have hnew : Block.new tgt stamp start (v :: values).length
              = .ok ⟨some stamp, start, (v :: values).length⟩ :=
            Block.new_eq_ok (Nat.succ_pos _) (Nat.le_succ_of_le hfit)
          simp only [hnew, run_ofExcept_ok]
          exact ⟨rfl, hR⟩

theorem checkpoint_refines (hm : Models tgt a st) (src : σ) (d : List T) :
    EndsLike Eq (Refines tgt) Eq ((checkpoint fresh).run ⟨a, src, d⟩)
      ((Store.checkpoint fresh).run ⟨st, src, d⟩) := by
  cases hm with
  | @live items id h hm hstart hfit =>
      simp only [checkpoint, Store.checkpoint, EStateM.run_bind, run_identity_holding,
        Store.run_assigned_live, EStateM.run_get, items_holding, tailOf_eq hm, hm.birth]
      exact ⟨rfl, .live hm hstart hfit, rfl, rfl⟩
  | unused =>
      rcases hf : fresh src with ⟨p | s, src'⟩
      · simp only [checkpoint, Store.checkpoint, EStateM.run_bind, run_identity_error hf,
          Store.run_assigned_error hf]
        exact ⟨rfl, .unused, rfl, rfl⟩
      · simp only [checkpoint, Store.checkpoint, EStateM.run_bind, run_identity_ok hf,
          Store.run_assigned_ok hf, EStateM.run_get, items_holding]
        exact ⟨rfl, .live (.new s) (Nat.zero_le _) (Nat.zero_le _), rfl, rfl⟩

theorem run_tryRollback_valid {c : Ctx (Arena T) σ T} {cp : Checkpoint} {id : Identity}
    (hv : c.arena.validateCheckpoint cp = .ok ()) (hid : c.arena.sidecar = some id)
    (panics : Dtor T) :
    (tryRollback fresh panics cp).run c
      = ((fun _ => .ok ()) <$> cutDown fresh panics id cp.len).run c := by
  simp only [tryRollback, cutDown, run_map, EStateM.run_bind, EStateM.run_get, hv, hid]
  cases (commit fresh id cp.len).run c with
  | error e c => rfl
  | ok u c =>
      simp only
      cases (popDownTo panics cp.len c.arena.items.length).run c <;> rfl

theorem run_reset_holding (panics : Dtor T) (items : List T) (id : Identity) (src : σ)
    (d : List T) :
    (reset fresh panics).run ⟨holding items id, src, d⟩
      = (cutDown fresh panics id 0).run ⟨holding items id, src, d⟩ := by
  simp only [reset, commitEmpty, cutDown, EStateM.run_bind, EStateM.run_get, sidecar_holding]
  cases (commit fresh id 0).run ⟨holding items id, src, d⟩ with
  | error e c => rfl
  | ok u c => exact run_popAll panics _ c

/-- A commit followed by the drop loop. -/
theorem cutDown_refines {items : List T} {id : Identity} {h : Epochs} {src : σ} (hm : id.Models h)
    (hstart : h.start ≤ items.length) (hfit : items.length ≤ tgt.usizeMax)
    (hnew : ∀ s src', fresh src = (.ok s, src') → s ∉ h.marks) (panics : Dtor T) {n : Nat}
    (hn : n ≤ items.length) (d : List T) :
    EndsLike Eq (Refines tgt) Eq ((cutDown fresh panics id n).run ⟨holding items id, src, d⟩)
      ((Store.cutDown fresh panics n).run ⟨.live items h, src, d⟩) := by
  rcases hf : fresh src with ⟨p | s, src'⟩
  · simp only [cutDown, EStateM.run_bind, run_commit_error hf, Store.run_cutDown_error hf]
    exact ⟨rfl, .live hm.archive hstart hfit, rfl, rfl⟩
  · have hm' : (id.commitWith n s).Models (h.commit n s) := hm.commit (hnew s src' hf)
    have htake : ∀ k, n ≤ k → Models tgt (holding (items.take k) (id.commitWith n s))
        (.live (items.take k) (h.commit n s)) := by
      intro k hk
      refine .live hm' ?_ ?_
      · rw [List.length_take]
        exact Nat.le_min.mpr ⟨hk, hn⟩
      · exact Nat.le_trans (List.length_take_le' k items) hfit
    simp only [cutDown, EStateM.run_bind, run_commit_ok hf, EStateM.run_get, items_holding]
    rw [holding, run_popDownTo]
    cases hp : lastPanic panics items n items.length with
    | none =>
        rw [Store.run_cutDown_ok hf hp]
        exact ⟨rfl, htake n (Nat.le_refl n), rfl, rfl⟩
    | some k =>
        rw [Store.run_cutDown_panic hf hp]
        exact ⟨rfl, htake k (Store.lastPanic_bounds hp).1, rfl, rfl⟩

theorem tryRollback_refines (hm : Models tgt a st) {src : σ}
    (hnew : ∀ s src', fresh src = (.ok s, src') → s ∉ st.marks) (panics : Dtor T)
    (cp : Checkpoint) (d : List T) :
    EndsLike Eq (Refines tgt) Eq ((tryRollback fresh panics cp).run ⟨a, src, d⟩)
      ((Store.tryRollback fresh panics cp).run ⟨st, src, d⟩) := by
  have hv := validateCheckpoint_eq hm cp
  cases hr : st.validateCheckpoint cp with
  | error e =>
      simp only [tryRollback, Store.tryRollback, EStateM.run_bind, EStateM.run_get, hv, hr]
      exact ⟨rfl, hm, rfl, rfl⟩
  | ok u =>
      have hlen := Store.validateCheckpoint_ok hr
      cases hm with
      | unused => cases hr
      | @live items id h hm hstart hfit =>
          have hrun : (Store.tryRollback fresh panics cp).run ⟨.live items h, src, d⟩
              = ((fun _ => .ok ()) <$> Store.cutDown fresh panics cp.len).run
                  ⟨.live items h, src, d⟩ :=
            Store.run_tryRollback_valid (c := ⟨.live items h, src, d⟩) hr panics
          rw [run_tryRollback_valid (c := ⟨holding items id, src, d⟩) (hv.trans hr) rfl, hrun]
          exact (cutDown_refines hm hstart hfit hnew panics hlen d).map fun _ _ _ => rfl

theorem reset_refines (hm : Models tgt a st) {src : σ}
    (hnew : ∀ s src', fresh src = (.ok s, src') → s ∉ st.marks) (panics : Dtor T) (d : List T) :
    EndsLike Eq (Refines tgt) Eq ((reset fresh panics).run ⟨a, src, d⟩)
      ((Store.cutDown fresh panics 0).run ⟨st, src, d⟩) := by
  cases hm with
  | unused => exact ⟨rfl, .unused, rfl, rfl⟩
  | live hm hstart hfit =>
      rw [run_reset_holding]
      exact cutDown_refines hm hstart hfit hnew panics (Nat.zero_le _) d

theorem drain_refines (hm : Models tgt a st) {src : σ}
    (hnew : ∀ s src', fresh src = (.ok s, src') → s ∉ st.marks) (d : List T) :
    EndsLike Eq (Refines tgt) Eq ((drain fresh).run ⟨a, src, d⟩)
      ((Store.drain fresh).run ⟨st, src, d⟩) := by
  cases hm with
  | unused => exact ⟨rfl, .unused, rfl, rfl⟩
  | live hm hstart hfit =>
      rcases hf : fresh src with ⟨p | s, src'⟩
      · simp only [drain, commitEmpty, EStateM.run_bind, EStateM.run_get, sidecar_holding,
          run_commit_error hf, Store.run_drain_error hf]
        exact ⟨rfl, .live hm.archive hstart hfit, rfl, rfl⟩
      · simp only [drain, commitEmpty, EStateM.run_bind, EStateM.run_get, sidecar_holding,
          run_commit_ok hf, EStateM.run_modify, EStateM.run_pure, Store.run_drain_ok hf]
        exact ⟨rfl, .live (hm.commit (hnew s src' hf)) (Nat.zero_le _) (Nat.zero_le _), rfl, rfl⟩

/-- Every request ends alike on the arena and on the store it stands for. -/
theorem serve_refines (hm : Models tgt a st) {src : σ}
    (hnew : ∀ s src', fresh src = (.ok s, src') → s ∉ st.marks) {req : Request T}
    (hsound : ∀ idx, req.asked = some idx → st.Sound idx) (d : List T) :
    EndsLike Eq (Refines tgt) Eq ((serve tgt fresh req).run ⟨a, src, d⟩)
      ((Store.serve tgt fresh req).run ⟨st, src, d⟩) := by
  cases req with
  | alloc value =>
      refine EndsLike.map ?_ fun _ _ he => congrArg Reply.idx he
      rw [run_alloc]
      exact (insert_refines hm [value] src d).map fun _ _ he => he.1 ▸ rfl
  | allocBlock input =>
      exact (allocBlock_refines hm input src d).map fun _ _ he => congrArg Reply.block he
  | extend input => exact (allocBlock_refines hm input src d).map fun _ _ _ => rfl
  | checkpoint => exact (checkpoint_refines hm src d).map fun _ _ he => congrArg _ he
  | validateCheckpoint cp =>
      exact ⟨congrArg Reply.verdict (validateCheckpoint_eq hm cp), hm, rfl, rfl⟩
  | tryRollback cp panics =>
      exact (tryRollback_refines hm hnew panics cp d).map fun _ _ he => congrArg _ he
  | reset panics => exact (reset_refines hm hnew panics d).map fun _ _ _ => rfl
  | drain => exact (drain_refines hm hnew d).map fun _ _ he => congrArg _ he
  | len => exact ⟨congrArg Reply.len (congrArg List.length hm.items), hm, rfl, rfl⟩
  | isValid idx => exact ⟨congrArg Reply.valid (isValid_eq hm (hsound idx rfl)), hm, rfl, rfl⟩
  | tryGet idx => exact ⟨congrArg Reply.value (tryGet_eq hm (hsound idx rfl)), hm, rfl, rfl⟩
  | iter => exact ⟨congrArg Reply.values hm.items, hm, rfl, rfl⟩
  | iterIndexed =>
      simp only [serve, EStateM.run_bind, EStateM.run_get, iterIndexed_eq hm, run_ofExcept_ok]
      exact ⟨rfl, hm, rfl, rfl⟩

end Refinement

/-! ## Writes -/

/-- What a write does to the values.  A write through a handle that is refused
does nothing. -/
def changes (a : Arena T) : Write T → List (Change T)
  | .getMut idx f =>
      if (a.tryGetMut idx).isSome then [.write fun slot v => if slot = idx.slot then f v else v]
      else []
  | .iterMut f => [.write f]
  | .iterIndexedMut f =>
      match a.iterIndexed with
      | .error _ => []
      | .ok pairs =>
          [.write fun slot v =>
            match pairs[slot]? with
            | none => v
            | some (idx, _) => f idx v]

/-- A write begins no epoch. -/
theorem boundaries_changes (a : Arena T) (w : Write T) :
    Change.boundaries (a.changes w) = [] := by
  cases w with
  | getMut idx f => rw [changes]; split <;> rfl
  | iterMut f => rfl
  | iterIndexedMut f => rw [changes]; split <;> rfl

/-- The values of an arena that stores something are rewritten in place. -/
theorem Models.rewrite {tgt : Target} {a : Arena T} {st : Store T} (hm : Models tgt a st)
    {items : List T} {f : Nat → T → T} (hlen : items.length = a.items.length)
    (hget : ∀ (i : Nat) (v : T), a.items[i]? = some v → items[i]? = some (f i v)) :
    ∃ st', Models tgt { a with items := items } st' ∧ st.Extends [.write f] st' ∧
      st'.marks = st.marks := by
  cases hm with
  | unused =>
      have hnil : items = [] := List.eq_nil_of_length_eq_zero hlen
      subst hnil
      exact ⟨.unused, .unused, ⟨by intros; contradiction, fun slot v hv => by cases hv⟩, rfl⟩
  | @live vs id h hm hstart hfit =>
      have hlen : items.length = vs.length := hlen
      refine ⟨.live items h, .live hm (hlen ▸ hstart) (hlen ▸ hfit), ⟨fun e he => ?_, ?_⟩, rfl⟩
      · exact ⟨[], rfl, he⟩
      · exact fun slot v hv _ => hget slot v hv

/-- A write draws no stamp and drops nothing. -/
theorem write_frame (w : Write T) (c : Ctx (Arena T) σ T) :
    (left ((write w).run c)).source = c.source ∧ (left ((write w).run c)).dropped = c.dropped := by
  cases w with
  | getMut idx f =>
      simp only [write, getMut, EStateM.run_bind, EStateM.run_get]
      cases c.arena.tryGetMut idx <;> exact ⟨rfl, rfl⟩
  | iterMut f => exact ⟨rfl, rfl⟩
  | iterIndexedMut f =>
      simp only [write, EStateM.run_bind, EStateM.run_get]
      cases c.arena.iterIndexed <;> exact ⟨rfl, rfl⟩

/-- A write keeps the arena in order and does what its changes say. -/
theorem write_keeps {tgt : Target} {a : Arena T} {st : Store T} (hm : Models tgt a st)
    (w : Write T) (src : σ) (d : List T) :
    ∃ st', Models tgt (left ((write w).run ⟨a, src, d⟩)).arena st' ∧
      st.Extends (a.changes w) st' ∧ st'.marks = st.marks := by
  cases w with
  | getMut idx f =>
      simp only [write, getMut, changes, EStateM.run_bind, EStateM.run_get]
      cases hg : a.tryGetMut idx with
      | none => exact ⟨st, hm, .refl st, rfl⟩
      | some value =>
          refine hm.rewrite List.length_set fun i v hv => ?_
          rcases eq_or_ne i idx.slot with rfl | hne
          · have hval : a.items[idx.slot]? = some value := by
              rw [tryGetMut] at hg
              split at hg
              · cases hg
              · exact hg
            obtain ⟨hlt, -⟩ := List.getElem?_eq_some_iff.mp hv
            cases hv.symm.trans hval
            rw [List.getElem?_set_self hlt, if_pos rfl]
          · rw [List.getElem?_set_ne (Ne.symm hne), hv, if_neg hne]
  | iterMut f =>
      refine hm.rewrite List.length_mapIdx fun i v hv => ?_
      rw [List.getElem?_mapIdx, hv, Option.map_some]
  | iterIndexedMut f =>
      have hi := iterIndexed_eq hm
      simp only [write, changes, EStateM.run_bind, EStateM.run_get, hi, run_ofExcept_ok]
      have hvalues : st.indexed.map Prod.snd = a.items := st.map_snd_indexed.trans hm.items.symm
      have hlen : st.indexed.length = a.items.length := by rw [← hvalues, List.length_map]
      refine hm.rewrite ((List.length_map _).trans hlen) fun i v hv => ?_
      rw [← hvalues, List.getElem?_map] at hv
      obtain ⟨⟨idx, v'⟩, hpair, rfl⟩ := Option.map_eq_some_iff.mp hv
      rw [List.getElem?_map, hpair]
      rfl

end Arena

end SafeBump
