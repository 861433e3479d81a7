import SafeBump.Simulation

/-!
# What serving a request does

`Store.Served` collects what later modules need to know of one request: the step
it is for the store, that the capabilities in its reply are good, that no value
got lost, and how far a drop loop came.

The abstract arena serves so (`Store.serve_served`).  The single-thread arena
does because it refines the abstract one (`Arena.serve_served`), and the
concurrent one because nobody can tell it from the single-thread one
(`SharedArena.serve_served`).
-/

namespace SafeBump

open Library.Unwind

variable {tgt : Target} {σ T : Type}

/-- A call found no stamp: all that happened to `c` is that the values it owned
were dropped. -/
def Store.Starved (fresh : Source σ) (values : List T) (c c' : Ctx (Store T) σ T) : Prop :=
  ∃ src', fresh c.source = (.error .stampSpaceExhausted, src') ∧
    c' = ⟨c.arena, src', c.dropped ++ values⟩

/-- From `c` the request `req` ended with `r` and left `c'`. -/
structure Store.Served (tgt : Target) (fresh : Source σ) (req : Request T)
    (c : Ctx (Store T) σ T) (r : Except Exit (Reply T)) (c' : Ctx (Store T) σ T) : Prop where
  step : Store.Step fresh (c.arena, c.source) (committed req r) (c'.arena, c'.source)
  issued : ∀ reply, r = .ok reply → ∀ idx ∈ reply.issued tgt, c'.arena.isValid idx = true
  captured : ∀ cp, r = .ok (.checkpoint cp) → c'.arena.validateCheckpoint cp = .ok ()
  /-- What is handed over stays, is dropped or is handed out. -/
  conserved : (c.arena.values ++ c.dropped ++ req.moved).Perm
    (c'.arena.values ++ c'.dropped ++ handedOut r)
  yielded : req ≠ .drain → handedOut r = []
  /-- What is dropped stays dropped. -/
  grown : c.dropped <+: c'.dropped
  starved : r = .error (.unwinds .stampSpaceExhausted) → Store.Starved fresh req.moved c c'
  /-- A cut ends early for want of a stamp or by a destructor. -/
  ended : ∀ panics e, req.dtor = some panics → r = .error e →
    e = .unwinds .destructor ∨ e = .unwinds .stampSpaceExhausted
  /-- A drop loop stops after the highest value whose destructor panics. -/
  cut : ∀ panics n, req.dtor = some panics → committed req r = some n →
    let stop := lastPanic panics c.arena.values n c.arena.values.length
    c'.arena.values = c.arena.values.take (stop.getD n) ∧
      c'.dropped = c.dropped ++ (c.arena.values.drop (stop.getD n)).reverse ∧
      (r = .error (.unwinds .destructor) ↔ stop.isSome = true)

namespace Store

variable {fresh : Source σ}

/-! ## Conservation -/

theorem insert_conserves (values : List T) (c : Ctx (Store T) σ T) :
    (c.arena.values ++ c.dropped ++ values).Perm
      ((left ((insert tgt fresh values).run c)).arena.values ++
        (left ((insert tgt fresh values).run c)).dropped) := by
  have hlive : ∀ (vs : List T) (h : Epochs) (src : σ) (d : List T),
      (vs ++ d ++ values).Perm
        ((left ((insert tgt fresh values).run ⟨live vs h, src, d⟩)).arena.values ++
          (left ((insert tgt fresh values).run ⟨live vs h, src, d⟩)).dropped) := by
    intro vs h src d
    rcases Nat.lt_or_ge tgt.usizeMax (vs.length + values.length) with hfull | hfit
    · rw [run_insert_full hfull]
      exact .of_eq (List.append_assoc vs d values)
    · rw [run_insert_live hfit]
      simp only [left_ok, values_live, List.append_assoc]
      exact List.perm_append_comm.append_left vs
  obtain ⟨st, src, d⟩ := c
  cases st with
  | live vs h => exact hlive vs h src d
  | unused =>
      rcases hf : fresh src with ⟨p | s, src'⟩
      · rw [run_insert_error hf]
        exact .refl _
      · rw [run_insert_ok hf]
        exact hlive [] (.new s) src' d

theorem allocBlock_conserves (input : Input T) (c : Ctx (Store T) σ T) :
    (c.arena.values ++ c.dropped ++ input.values).Perm
      ((left ((allocBlock tgt fresh input).run c)).arena.values ++
        (left ((allocBlock tgt fresh input).run c)).dropped) := by
  obtain ⟨values, panics⟩ := input
  cases panics with
  | true => exact .of_eq (List.append_assoc _ _ _)
  | false =>
      cases values with
      | nil => exact .of_eq (List.append_nil _)
      | cons v values =>
          rw [run_allocBlock_cons, left_run_map]
          exact insert_conserves (v :: values) c

theorem assigned_conserves (c : Ctx (Store T) σ T) :
    (left ((assigned fresh).run c)).arena.values = c.arena.values ∧
      (left ((assigned fresh).run c)).dropped = c.dropped := by
  obtain ⟨st, src, d⟩ := c
  cases st with
  | live vs h => exact ⟨rfl, rfl⟩
  | unused =>
      rcases hf : fresh src with ⟨p | s, src'⟩
      · rw [run_assigned_error hf]
        exact ⟨rfl, rfl⟩
      · rw [run_assigned_ok hf]
        exact ⟨rfl, rfl⟩

/-- What is cut off is dropped, from the end. -/
theorem perm_cut (vs d : List T) (k : Nat) :
    (vs ++ d).Perm (vs.take k ++ (d ++ (vs.drop k).reverse)) := by
  have hdrop : (vs.drop k ++ d).Perm (d ++ (vs.drop k).reverse) :=
    List.perm_append_comm.trans ((List.reverse_perm _).symm.append_left d)
  have h := hdrop.append_left (vs.take k)
  rwa [← List.append_assoc, List.take_append_drop] at h

theorem cutDown_conserves (panics : Dtor T) (n : Nat) (c : Ctx (Store T) σ T) :
    (c.arena.values ++ c.dropped).Perm
      ((left ((cutDown fresh panics n).run c)).arena.values ++
        (left ((cutDown fresh panics n).run c)).dropped) := by
  obtain ⟨st, src, d⟩ := c
  cases st with
  | unused => exact .refl _
  | live vs h =>
      rcases hf : fresh src with ⟨p | s, src'⟩
      · rw [run_cutDown_error hf]
        exact .refl _
      · cases hp : lastPanic panics vs n vs.length with
        | none =>
            rw [run_cutDown_ok hf hp]
            exact perm_cut vs d n
        | some k =>
            rw [run_cutDown_panic hf hp]
            exact perm_cut vs d k

theorem drain_conserves (c : Ctx (Store T) σ T) :
    (c.arena.values ++ c.dropped).Perm
      ((left ((drain fresh).run c)).arena.values ++ (left ((drain fresh).run c)).dropped ++
        handedOut ((ending ((drain fresh).run c)).map Reply.drained)) := by
  obtain ⟨st, src, d⟩ := c
  cases st with
  | unused => exact .of_eq (List.append_nil _).symm
  | live vs h =>
      rcases hf : fresh src with ⟨p | s, src'⟩
      · rw [run_drain_error hf]
        exact .of_eq (List.append_nil _).symm
      · rw [run_drain_ok hf]
        exact List.perm_append_comm

/-! ## Dropped for good -/

theorem insert_grown (values : List T) (c : Ctx (Store T) σ T) :
    c.dropped <+: (left ((insert tgt fresh values).run c)).dropped := by
  have hlive : ∀ (vs : List T) (h : Epochs) (src : σ) (d : List T),
      d <+: (left ((insert tgt fresh values).run ⟨live vs h, src, d⟩)).dropped := by
    intro vs h src d
    rcases Nat.lt_or_ge tgt.usizeMax (vs.length + values.length) with hfull | hfit
    · rw [run_insert_full hfull]
      exact List.prefix_append d values
    · rw [run_insert_live hfit]
      exact List.prefix_refl d
  obtain ⟨st, src, d⟩ := c
  cases st with
  | live vs h => exact hlive vs h src d
  | unused =>
      rcases hf : fresh src with ⟨p | s, src'⟩
      · rw [run_insert_error hf]
        exact List.prefix_append d values
      · rw [run_insert_ok hf]
        exact hlive [] (.new s) src' d

theorem allocBlock_grown (input : Input T) (c : Ctx (Store T) σ T) :
    c.dropped <+: (left ((allocBlock tgt fresh input).run c)).dropped := by
  obtain ⟨values, panics⟩ := input
  cases panics with
  | true => exact List.prefix_append c.dropped values
  | false =>
      cases values with
      | nil => exact List.prefix_refl c.dropped
      | cons v values =>
          rw [run_allocBlock_cons, left_run_map]
          exact insert_grown (v :: values) c

theorem cutDown_grown (panics : Dtor T) (n : Nat) (c : Ctx (Store T) σ T) :
    c.dropped <+: (left ((cutDown fresh panics n).run c)).dropped := by
  obtain ⟨st, src, d⟩ := c
  cases st with
  | unused => exact List.prefix_refl d
  | live vs h =>
      rcases hf : fresh src with ⟨p | s, src'⟩
      · rw [run_cutDown_error hf]
        exact List.prefix_refl d
      · cases hp : lastPanic panics vs n vs.length with
        | none =>
            rw [run_cutDown_ok hf hp]
            exact List.prefix_append d _
        | some k =>
            rw [run_cutDown_panic hf hp]
            exact List.prefix_append d _

theorem drain_grown (c : Ctx (Store T) σ T) :
    c.dropped <+: (left ((drain fresh).run c)).dropped := by
  obtain ⟨st, src, d⟩ := c
  cases st with
  | unused => exact List.prefix_refl d
  | live vs h =>
      rcases hf : fresh src with ⟨p | s, src'⟩
      · rw [run_drain_error hf]
        exact List.prefix_refl d
      · rw [run_drain_ok hf]
        exact List.prefix_refl d

/-! ## How far a drop loop comes -/

/-- Once its commit went through, a cut goes down to the boundary or to the
first destructor that panics. -/
theorem cutDown_cut (panics : Dtor T) (n : Nat) {c : Ctx (Store T) σ T}
    (hsrc : ∀ p src, fresh c.source = (.error p, src) → p ≠ .destructor)
    (hend : ∀ e, ending ((cutDown fresh panics n).run c) = .error e → e = .unwinds .destructor) :
    let stop := lastPanic panics c.arena.values n c.arena.values.length
    (left ((cutDown fresh panics n).run c)).arena.values = c.arena.values.take (stop.getD n) ∧
      (left ((cutDown fresh panics n).run c)).dropped
        = c.dropped ++ (c.arena.values.drop (stop.getD n)).reverse ∧
      (ending ((cutDown fresh panics n).run c) = .error (.unwinds .destructor) ↔
        stop.isSome = true) := by
  obtain ⟨st, src, d⟩ := c
  cases st with
  | unused => simp [run_cutDown_unused, lastPanic]
  | live vs h =>
      rcases hf : fresh src with ⟨p | s, src'⟩
      · rw [run_cutDown_error hf] at hend
        have hp : Exit.unwinds p = .unwinds .destructor := hend _ rfl
        exact absurd (Exit.unwinds.inj hp) (hsrc p src' hf)
      · cases hp : lastPanic panics vs n vs.length with
        | none => simp [run_cutDown_ok hf hp, hp]
        | some k => simp [run_cutDown_panic hf hp, hp]

/-! ## Calls that find no stamp -/

theorem insert_starved {values : List T} {c : Ctx (Store T) σ T}
    (h : ending ((insert tgt fresh values).run c) = .error (.unwinds .stampSpaceExhausted)) :
    Starved fresh values c (left ((insert tgt fresh values).run c)) := by
  have hlive : ∀ (vs : List T) (e : Epochs) (src : σ) (d : List T),
      ending ((insert tgt fresh values).run ⟨live vs e, src, d⟩)
        ≠ .error (.unwinds .stampSpaceExhausted) := by
    intro vs e src d
    rcases Nat.lt_or_ge tgt.usizeMax (vs.length + values.length) with hfull | hfit
    · rw [run_insert_full hfull]
      exact fun he => by cases he
    · rw [run_insert_live hfit]
      exact fun he => by cases he
  obtain ⟨st, src, d⟩ := c
  cases st with
  | live vs e => exact absurd h (hlive vs e src d)
  | unused =>
      rcases hf : fresh src with ⟨p | s, src'⟩
      · rw [run_insert_error hf] at h ⊢
        cases h
        exact ⟨src', hf, rfl⟩
      · rw [run_insert_ok hf] at h
        exact absurd h (hlive _ _ _ _)

theorem allocBlock_starved {input : Input T} {c : Ctx (Store T) σ T}
    (h : ending ((allocBlock tgt fresh input).run c) = .error (.unwinds .stampSpaceExhausted)) :
    Starved fresh input.values c (left ((allocBlock tgt fresh input).run c)) := by
  obtain ⟨values, panics⟩ := input
  cases panics with
  | true => cases h
  | false =>
      cases values with
      | nil => cases h
      | cons v values =>
          rw [run_allocBlock_cons] at h ⊢
          rw [left_run_map]
          exact insert_starved (ending_of_map h)

theorem assigned_starved {c : Ctx (Store T) σ T}
    (h : ending ((assigned fresh).run c) = .error (.unwinds .stampSpaceExhausted)) :
    Starved fresh [] c (left ((assigned fresh).run c)) := by
  obtain ⟨st, src, d⟩ := c
  cases st with
  | live vs e => cases h
  | unused =>
      rcases hf : fresh src with ⟨p | s, src'⟩
      · rw [run_assigned_error hf] at h ⊢
        cases h
        exact ⟨src', hf, by rw [List.append_nil, left_error]⟩
      · rw [run_assigned_ok hf] at h
        cases h

/-- A cut ends early for want of a stamp or by a destructor. -/
theorem cutDown_ended {panics : Dtor T} {n : Nat} {c : Ctx (Store T) σ T} {e : Exit}
    (h : ending ((cutDown fresh panics n).run c) = .error e) : e = .unwinds .destructor ∨
      ∃ p src', fresh c.source = (.error p, src') ∧ e = .unwinds p ∧
        left ((cutDown fresh panics n).run c) = ⟨c.arena, src', c.dropped⟩ := by
  obtain ⟨st, src, d⟩ := c
  cases st with
  | unused => cases h
  | live vs h' =>
      rcases hf : fresh src with ⟨p | s, src'⟩
      · rw [run_cutDown_error hf] at h ⊢
        cases h
        exact .inr ⟨p, src', rfl, rfl, rfl⟩
      · cases hp : lastPanic panics vs n vs.length with
        | none => rw [run_cutDown_ok hf hp] at h; cases h
        | some k => rw [run_cutDown_panic hf hp] at h; cases h; exact .inl rfl

theorem drain_starved {c : Ctx (Store T) σ T}
    (h : ending ((drain fresh).run c) = .error (.unwinds .stampSpaceExhausted)) :
    Starved fresh [] c (left ((drain fresh).run c)) := by
  obtain ⟨st, src, d⟩ := c
  cases st with
  | unused => cases h
  | live vs e =>
      rcases hf : fresh src with ⟨p | s, src'⟩
      · rw [run_drain_error hf] at h ⊢
        cases h
        exact ⟨src', hf, by rw [List.append_nil, left_error]⟩
      · rw [run_drain_ok hf] at h
        cases h

/-! ## The abstract arena -/

theorem run_serve_tryRollback_ok {c : Ctx (Store T) σ T} {cp : Checkpoint}
    (hv : c.arena.validateCheckpoint cp = .ok ()) (panics : Dtor T) :
    (serve tgt fresh (.tryRollback cp panics)).run c
      = ((fun _ => .verdict (.ok ())) <$> cutDown fresh panics cp.len).run c := by
  rw [serve, run_map, run_tryRollback_valid hv, run_map, run_map]
  cases (cutDown fresh panics cp.len).run c <;> rfl

theorem run_serve_tryRollback_error {c : Ctx (Store T) σ T} {cp : Checkpoint}
    {e : CheckpointError} (hv : c.arena.validateCheckpoint cp = .error e) (panics : Dtor T) :
    (serve tgt fresh (.tryRollback cp panics)).run c = .ok (.verdict (.error e)) c := by
  simp [serve, tryRollback, hv]

theorem handedOut_map {α : Type} {f : α → Reply T} (hnone : ∀ a, (f a).yielded = [])
    (r : Except Exit α) : handedOut (r.map f) = [] := by
  cases r with
  | ok a => exact hnone a
  | error e => rfl

theorem serve_grown (req : Request T) (c : Ctx (Store T) σ T) :
    c.dropped <+: (left ((serve tgt fresh req).run c)).dropped := by
  cases req with
  | alloc value =>
      rw [serve, left_run_map]
      have hrun : (alloc tgt fresh value).run c
          = ((fun r : Stamp × Nat => (⟨r.1, r.2⟩ : Idx)) <$> insert tgt fresh [value]).run c := rfl
      rw [hrun, left_run_map]
      exact insert_grown [value] c
  | allocBlock input => rw [serve, left_run_map]; exact allocBlock_grown input c
  | extend input => rw [serve, left_run_map]; exact allocBlock_grown input c
  | checkpoint =>
      rw [serve, left_run_map]
      rw [run_checkpoint, left_run_map, (assigned_conserves c).2]
  | tryRollback cp panics =>
      cases hv : c.arena.validateCheckpoint cp with
      | error e =>
          rw [run_serve_tryRollback_error hv]
          exact List.prefix_refl c.dropped
      | ok u =>
          rw [run_serve_tryRollback_ok hv, left_run_map]
          exact cutDown_grown panics cp.len c
  | reset panics => rw [serve, left_run_map]; exact cutDown_grown panics 0 c
  | drain => rw [serve, left_run_map]; exact drain_grown c
  | validateCheckpoint cp => exact List.prefix_refl c.dropped
  | len => exact List.prefix_refl c.dropped
  | isValid idx => exact List.prefix_refl c.dropped
  | tryGet idx => exact List.prefix_refl c.dropped
  | iter => exact List.prefix_refl c.dropped
  | iterIndexed => exact List.prefix_refl c.dropped

/-- Only a drain hands values out. -/
theorem serve_yielded {req : Request T} (h : req ≠ .drain) (c : Ctx (Store T) σ T) :
    handedOut (ending ((serve tgt fresh req).run c)) = [] := by
  cases req with
  | alloc value => rw [serve, ending_run_map]; exact handedOut_map (fun _ => rfl) _
  | allocBlock input => rw [serve, ending_run_map]; exact handedOut_map (fun _ => rfl) _
  | extend input => rw [serve, ending_run_map]; exact handedOut_map (fun _ => rfl) _
  | checkpoint => rw [serve, ending_run_map]; exact handedOut_map (fun _ => rfl) _
  | tryRollback cp panics => rw [serve, ending_run_map]; exact handedOut_map (fun _ => rfl) _
  | reset panics => rw [serve, ending_run_map]; exact handedOut_map (fun _ => rfl) _
  | drain => exact absurd rfl h
  | validateCheckpoint cp => rfl
  | len => rfl
  | isValid idx => rfl
  | tryGet idx => rfl
  | iter => rfl
  | iterIndexed => rfl

/-- Nothing happens to a store whose stamps ran out. -/
theorem serve_starved {req : Request T} {c : Ctx (Store T) σ T}
    (h : ending ((serve tgt fresh req).run c) = .error (.unwinds .stampSpaceExhausted)) :
    Starved fresh req.moved c (left ((serve tgt fresh req).run c)) := by
  have hcut : ∀ {panics : Dtor T} {n : Nat},
      ending ((cutDown fresh panics n).run c) = .error (.unwinds .stampSpaceExhausted) →
      Starved fresh [] c (left ((cutDown fresh panics n).run c)) := by
    intro panics n hc
    rcases cutDown_ended hc with hd | ⟨p, src', hf, hp, hleft⟩
    · cases hd
    · cases hp
      exact ⟨src', hf, by rw [hleft, List.append_nil]⟩
  cases req with
  | alloc value =>
      rw [serve, left_run_map]
      have hrun : (alloc tgt fresh value).run c
          = ((fun r : Stamp × Nat => (⟨r.1, r.2⟩ : Idx)) <$> insert tgt fresh [value]).run c := rfl
      have h' := ending_of_map h
      rw [hrun] at h' ⊢
      rw [left_run_map]
      exact insert_starved (ending_of_map h')
  | allocBlock input => rw [serve, left_run_map]; exact allocBlock_starved (ending_of_map h)
  | extend input => rw [serve, left_run_map]; exact allocBlock_starved (ending_of_map h)
  | checkpoint =>
      rw [serve, left_run_map]
      have h' := ending_of_map h
      rw [run_checkpoint] at h' ⊢
      rw [left_run_map]
      exact assigned_starved (ending_of_map h')
  | tryRollback cp panics =>
      cases hv : c.arena.validateCheckpoint cp with
      | error e => rw [run_serve_tryRollback_error hv] at h; cases h
      | ok u =>
          rw [run_serve_tryRollback_ok hv] at h ⊢
          rw [left_run_map]
          exact hcut (ending_of_map h)
  | reset panics => rw [serve, left_run_map]; exact hcut (ending_of_map h)
  | drain => rw [serve, left_run_map]; exact drain_starved (ending_of_map h)
  | validateCheckpoint cp => cases h
  | len => cases h
  | isValid idx => cases h
  | tryGet idx => cases h
  | iter => cases h
  | iterIndexed => cases h

theorem serve_ended {req : Request T} {panics : Dtor T} (hd : req.dtor = some panics)
    {c : Ctx (Store T) σ T}
    (hsrc : ∀ p src, fresh c.source = (.error p, src) → p = .stampSpaceExhausted) {e : Exit}
    (h : ending ((serve tgt fresh req).run c) = .error e) :
    e = .unwinds .destructor ∨ e = .unwinds .stampSpaceExhausted := by
  have hcut : ∀ {panics : Dtor T} {n : Nat}, ending ((cutDown fresh panics n).run c) = .error e →
      e = .unwinds .destructor ∨ e = .unwinds .stampSpaceExhausted :=
    fun hc => (cutDown_ended hc).imp_right fun ⟨p, src', hf, hp, _⟩ => hsrc p src' hf ▸ hp
  cases req with
  | tryRollback cp panics' =>
      cases hv : c.arena.validateCheckpoint cp with
      | error e => rw [run_serve_tryRollback_error hv] at h; cases h
      | ok u =>
          rw [run_serve_tryRollback_ok hv] at h
          exact hcut (ending_of_map h)
  | reset panics' => exact hcut (ending_of_map h)
  | _ => cases hd

theorem serve_conserves (req : Request T) (c : Ctx (Store T) σ T) :
    (c.arena.values ++ c.dropped ++ req.moved).Perm
      ((left ((serve tgt fresh req).run c)).arena.values ++
        (left ((serve tgt fresh req).run c)).dropped ++
        handedOut (ending ((serve tgt fresh req).run c))) := by
  -- a request whose reply hands nothing out
  have hplain : ∀ {α : Type} (f : α → Reply T) (m : Op (Store T) σ T α),
    serve tgt fresh req = f <$> m →
      (∀ a, (f a).yielded = []) →
      (c.arena.values ++ c.dropped ++ req.moved).Perm
        ((left (m.run c)).arena.values ++ (left (m.run c)).dropped) →
      (c.arena.values ++ c.dropped ++ req.moved).Perm
        ((left ((serve tgt fresh req).run c)).arena.values ++
          (left ((serve tgt fresh req).run c)).dropped ++
          handedOut (ending ((serve tgt fresh req).run c))) := by
    intro α f m hserve hnone h
    rwa [hserve, left_run_map, ending_run_map, handedOut_map hnone, List.append_nil]
  cases req with
  | alloc value =>
      refine hplain _ _ rfl (fun _ => rfl) ?_
      have hrun : (alloc tgt fresh value).run c
          = ((fun r : Stamp × Nat => (⟨r.1, r.2⟩ : Idx)) <$> insert tgt fresh [value]).run c := rfl
      rw [hrun, left_run_map]
      exact insert_conserves [value] c
  | allocBlock input => exact hplain _ _ rfl (fun _ => rfl) (allocBlock_conserves input c)
  | extend input => exact hplain _ _ rfl (fun _ => rfl) (allocBlock_conserves input c)
  | checkpoint =>
      refine hplain _ _ rfl (fun _ => rfl) ?_
      rw [run_checkpoint, left_run_map, (assigned_conserves c).1, (assigned_conserves c).2]
      exact .of_eq (List.append_nil _)
  | tryRollback cp panics =>
      cases hv : c.arena.validateCheckpoint cp with
      | error e =>
          rw [run_serve_tryRollback_error hv]
          exact .refl _
      | ok u =>
          rw [run_serve_tryRollback_ok hv, left_run_map, ending_run_map]
          have h : (c.arena.values ++ c.dropped).Perm
              ((left ((cutDown fresh panics cp.len).run c)).arena.values ++
                (left ((cutDown fresh panics cp.len).run c)).dropped) :=
            cutDown_conserves panics cp.len c
          cases ending ((cutDown fresh panics cp.len).run c) with
          | ok a => exact h.append_right []
          | error e => exact h.append_right []
  | reset panics =>
      refine hplain _ _ rfl (fun _ => rfl) ?_
      rw [show (Request.reset panics).moved = [] from rfl, List.append_nil]
      exact cutDown_conserves panics 0 c
  | drain =>
      rw [serve, left_run_map, ending_run_map, show (Request.drain : Request T).moved = [] from rfl,
        List.append_nil]
      exact drain_conserves c
  | validateCheckpoint cp => exact .refl _
  | len => exact .refl _
  | isValid idx => exact .refl _
  | tryGet idx => exact .refl _
  | iter => exact .refl _
  | iterIndexed => exact .refl _

/-- A cut behind a reply stops where it should. -/
theorem cut_of_map {req : Request T} {reply : Reply T} {panics : Dtor T} {n m : Nat}
    {c : Ctx (Store T) σ T} (hsrc : ∀ p src, fresh c.source = (.error p, src) → p ≠ .destructor)
    (h : committed req (ending (((fun _ => reply) <$> cutDown fresh panics n).run c)) = some m) :
    let r := ((fun _ => reply) <$> cutDown fresh panics n).run c
    let stop := lastPanic panics c.arena.values n c.arena.values.length
    (left r).arena.values = c.arena.values.take (stop.getD n) ∧
      (left r).dropped = c.dropped ++ (c.arena.values.drop (stop.getD n)).reverse ∧
      (ending r = .error (.unwinds .destructor) ↔ stop.isSome = true) := by
  intro r stop
  rw [ending_run_map] at h
  have hcut := cutDown_cut panics n hsrc fun e he => by
    rw [he] at h
    exact destructor_of_committed h
  refine ⟨?_, ?_, ?_⟩
  · rw [show left r = _ from left_run_map _ _ _]
    exact hcut.1
  · rw [show left r = _ from left_run_map _ _ _]
    exact hcut.2.1
  · rw [← hcut.2.2, show ending r = _ from ending_run_map _ _ _]
    cases ending ((cutDown fresh panics n).run c) with
    | ok u => exact ⟨(fun he => by cases he), fun he => by cases he⟩
    | error e => exact ⟨fun h => by cases h; rfl, fun h => by cases h; rfl⟩

theorem ne_destructor {src : σ}
    (hsrc : ∀ p src', fresh src = (.error p, src') → p = .stampSpaceExhausted)
    (p : Panic) (src' : σ)
    (hf : fresh src = (.error p, src')) : p ≠ .destructor := by
  rw [hsrc p src' hf]
  exact fun he => by cases he

theorem serve_served (tgt : Target) {c : Ctx (Store T) σ T} (hok : c.arena.Ok)
    (hsrc : ∀ p src, fresh c.source = (.error p, src) → p = .stampSpaceExhausted)
    (req : Request T) :
    Served tgt fresh req c (ending ((serve tgt fresh req).run c))
      (left ((serve tgt fresh req).run c)) where
  step := serve_step tgt req c (ne_destructor hsrc)
  issued := fun _ hr _ hi => serve_issued hok (eq_ok_of_ending hr) hi
  captured := fun _ hr => serve_captured (eq_ok_of_ending hr)
  conserved := serve_conserves req c
  yielded := fun h => serve_yielded h c
  grown := serve_grown req c
  starved := serve_starved
  ended := fun _ _ hd he => serve_ended hd hsrc he
  cut := by
    intro panics n hd hc
    have hb := boundary_of_committed hc
    cases req with
    | tryRollback cp panics' =>
        cases hd
        cases hb
        cases hv : c.arena.validateCheckpoint cp with
        | error e =>
            rw [run_serve_tryRollback_error hv] at hc
            cases hc
        | ok u =>
            rw [run_serve_tryRollback_ok hv] at hc ⊢
            exact cut_of_map (ne_destructor hsrc) hc
    | reset panics' =>
        cases hd
        cases hb
        exact cut_of_map (ne_destructor hsrc) hc
    | _ => cases hd

/-- What a request did does not depend on which of the arenas ran out of slots. -/
theorem Served.of_alike {req : Request T} {c c' : Ctx (Store T) σ T}
    {r r' : Except Exit (Reply T)} (h : Served tgt fresh req c r c') (ha : Alike.SameOutcome r r') :
    Served tgt fresh req c r' c' := by
  cases r with
  | ok reply =>
      cases r' with
      | ok reply' =>
          have he : reply = reply' := ha
          exact he ▸ h
      | error e' => exact ha.elim
  | error e =>
      cases r' with
      | ok reply' => exact ha.elim
      | error e' =>
          rcases ha with rfl | ⟨rfl, rfl⟩
          · exact h
          · refine ⟨h.step, (fun _ he => by cases he), (fun _ he => by cases he), h.conserved,
              h.yielded, h.grown, (fun he => by cases he), fun panics e hd he => ?_,
              fun panics n hd hc => ?_⟩
            · rcases h.ended panics _ hd rfl with he | he <;> cases he
            · cases destructor_of_committed hc

end Store

/-- An answer that hands nothing out, and changes nothing. -/
theorem Store.Served.of_answer {fresh : Source σ} {req : Request T} {reply : Reply T}
    (c : Ctx (Store T) σ T) (hb : req.boundary = none) (hmoved : req.moved = [])
    (hd : req.dtor = none) (hi : reply.issued tgt = []) (hcp : ∀ cp, reply ≠ .checkpoint cp)
    (hy : reply.yielded = []) : Store.Served tgt fresh req c (.ok reply) c := by
  refine ⟨committed_of_boundary hb _ ▸ .refl _ _, ?_,
    fun cp he => absurd (Except.ok.inj he) (hcp cp), ?_, fun _ => hy, List.prefix_refl _,
    (fun he => by cases he), ?_, ?_⟩
  · rintro _ ⟨⟩ idx hidx
    rw [hi] at hidx
    cases hidx
  · rw [hmoved, handedOut, hy]
  · exact fun panics e hp => by cases hd.symm.trans hp
  · exact fun panics n hp => by cases hd.symm.trans hp

/-! ## The two arenas -/

section Arenas

variable {fresh : Source σ} {a : Arena T} {st : Store T} {src : σ}

/-- A request on an arena does to the store it holds what the request does there.
Questions about handles are put aside, since the two may judge a handle that
was never issued differently. -/
theorem Arena.serve_served (hm : Arena.Models tgt a st)
    (hnew : ∀ s src', fresh src = (.ok s, src') → s ∉ st.marks)
    (hsrc : ∀ p src', fresh src = (.error p, src') → p = .stampSpaceExhausted) (req : Request T)
    (d : List T) :
    ∃ c', Arena.Refines tgt (left ((Arena.serve tgt fresh req).run ⟨a, src, d⟩)) c' ∧
      Store.Served tgt fresh req ⟨st, src, d⟩
        (ending ((Arena.serve tgt fresh req).run ⟨a, src, d⟩)) c' := by
  cases hasked : req.asked with
  | some idx =>
      refine ⟨⟨st, src, d⟩, ?_⟩
      cases req with
      | isValid idx' =>
          exact ⟨⟨hm, rfl, rfl⟩, .of_answer _ rfl rfl rfl rfl (fun _ he => by cases he) rfl⟩
      | tryGet idx' =>
          exact ⟨⟨hm, rfl, rfl⟩, .of_answer _ rfl rfl rfl rfl (fun _ he => by cases he) rfl⟩
      | _ => cases hasked
  | none =>
      have href := Arena.serve_refines hm hnew (fun idx hi => by cases hasked.symm.trans hi) d
      have hserved := Store.serve_served tgt (c := ⟨st, src, d⟩) hm.ok hsrc req
      refine ⟨_, href.left, ?_⟩
      have hend : ending ((Arena.serve tgt fresh req).run ⟨a, src, d⟩)
          = ending ((Store.serve tgt fresh req).run ⟨st, src, d⟩) := href.ending
      rwa [hend]

/-- And so does a request on a concurrent arena that nothing else is going on on. -/
theorem SharedArena.serve_served (hall : ∀ k, tgt.allocates k = true) {sh : SharedArena tgt T}
    (ha : Alike a sh) (hm : Arena.Models tgt a st)
    (hnew : ∀ s src', fresh src = (.ok s, src') → s ∉ st.marks)
    (hsrc : ∀ p src', fresh src = (.error p, src') → p = .stampSpaceExhausted) (req : Request T)
    (d : List T) :
    ∃ c a', Together a' (left ((SharedArena.serve fresh req).run ⟨sh, src, d⟩)) ∧
      Arena.Refines tgt a' c ∧
      Store.Served tgt fresh req ⟨st, src, d⟩
        (ending ((SharedArena.serve fresh req).run ⟨sh, src, d⟩)) c := by
  obtain ⟨c, href, hserved⟩ := Arena.serve_served hm hnew hsrc req d
  have halike := Alike.serve fresh hall req ⟨a, src, d⟩ ⟨sh, src, d⟩ ⟨ha, rfl, rfl⟩
  exact ⟨c, _, halike.left, href, hserved.of_alike (Alike.sameOutcome halike)⟩

end Arenas

end SafeBump
