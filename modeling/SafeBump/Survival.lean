import SafeBump.Failures
import SafeBump.Issuance

/-!
# Capabilities survive failures

Chunks that cannot be allocated, stamps and slots that run out and destructors that panic
leave a process in states no orderly run reaches.  A handle is as good there as anywhere,
until a boundary at or below its slot is begun (`World.handles_survive`).  Checkpoints of
several arenas can be rolled back in any order, interrupted or not, as long as nothing else
begins a boundary below one of them (`World.rollbacks_are_all_or_nothing`).
-/

namespace SafeBump

open Library.Unwind

variable {tgt : Target} {T : Type}

/-! ## Rollbacks of a store -/

namespace Store

/-- A prefix no boundary reached is the old one, as written to since. -/
theorem Extends.take_eq {st st' : Store T} {cs : List (Change T)} (h : st.Extends cs st') {n : Nat}
    (hn : n ≤ st.values.length) (hb : ∀ m ∈ Change.boundaries cs, n ≤ m) :
    st'.values.take n = (st.values.take n).mapIdx fun slot v => Change.rewritten slot cs v := by
  refine List.ext_getElem? fun slot => ?_
  rw [List.getElem?_mapIdx]
  rcases Nat.lt_or_ge slot n with hlt | hge
  · have hget := List.getElem?_eq_getElem (Nat.lt_of_lt_of_le hlt hn)
    have hkept := h.kept slot _ hget fun m hm => Nat.lt_of_lt_of_le hlt (hb m hm)
    rw [List.getElem?_take_of_lt hlt, List.getElem?_take_of_lt hlt, hkept, hget, Option.map_some]
  · rw [List.getElem?_take_eq_none hge, List.getElem?_take_eq_none hge, Option.map_none]

variable {σ : Type} {fresh : Source σ} {c : Ctx (Store T) σ T} {cp : Checkpoint} {panics : Dtor T}

/-- A rollback is refused for what its checkpoint is refused for. -/
theorem ending_tryRollback {err : CheckpointError} :
    ending ((serve tgt fresh (.tryRollback cp panics)).run c) = .ok (.verdict (.error err)) ↔
      c.arena.validateCheckpoint cp = .error err := by
  constructor
  · intro he
    cases hv : c.arena.validateCheckpoint cp with
    | error err' =>
        rw [run_serve_tryRollback_error hv] at he
        cases he
        rfl
    | ok u =>
        rw [run_serve_tryRollback_ok hv, ending_run_map] at he
        cases hcut : ending ((cutDown fresh panics cp.len).run c) with
        | ok u => rw [hcut] at he; cases he
        | error e => rw [hcut] at he; cases he
  · intro hv
    rw [run_serve_tryRollback_error hv, ending_ok]

/-- A rollback that goes through leaves the saved prefix. -/
theorem values_tryRollback
    (h : ending ((serve tgt fresh (.tryRollback cp panics)).run c) = .ok (.verdict (.ok ()))) :
    (left ((serve tgt fresh (.tryRollback cp panics)).run c)).arena.values
      = c.arena.values.take cp.len := by
  cases hv : c.arena.validateCheckpoint cp with
  | error err =>
      rw [run_serve_tryRollback_error hv] at h
      cases h
  | ok u =>
      obtain ⟨st, src, d⟩ := c
      rw [run_serve_tryRollback_ok hv] at h ⊢
      cases st with
      | unused => cases hv
      | live vs e =>
          rcases hf : fresh src with ⟨p | s, src'⟩
          · rw [run_map, run_cutDown_error hf] at h
            cases h
          · cases hp : lastPanic panics vs cp.len vs.length with
            | none =>
                rw [run_map, run_cutDown_ok hf hp]
                rfl
            | some k =>
                rw [run_map, run_cutDown_panic hf hp] at h
                cases h

end Store

/-! ## Processes -/

namespace World

/-! ## What survives -/

/-- On any machine and after any failures a handle is accepted by the arena that issued it, as
long as that arena has begun no boundary at or below its slot, and by no other.  It names the
value it was issued for, as written to since. -/
theorem handles_survive (es₁ es₂ : List (Event T)) (e : Event T) {o : Owner} {reply : Reply T}
    {idx : Idx} (hreply : ((initial : World tgt T).run es₁).reply e = some (o, reply))
    (hissued : idx ∈ reply.issued tgt) (b : Owner) (t : ThreadId) :
    let w₁ := ((initial : World tgt T).run es₁).step e
    let w := w₁.run es₂
    let cs := changesOver o w₁ es₂
    let good := b = o ∧ ∀ n ∈ Change.boundaries cs, idx.slot < n
    ∃ v, (w₁.contents o)[idx.slot]? = some v ∧
      (good → w.outcome t b (.isValid idx) = .ok (.valid true) ∧
        w.outcome t b (.tryGet idx) = .ok (.value (some (Change.rewritten idx.slot cs v)))) ∧
      (¬ good → w.outcome t b (.isValid idx) = .ok (.valid false) ∧
        w.outcome t b (.tryGet idx) = .ok (.value none)) := by
  intro w₁ w cs good
  obtain ⟨stores₁, h₁, -⟩ := (Shows.initial : (initial : World tgt T).Shows _).run es₁
  obtain ⟨stores₂, hm⟩ := h₁.moves e
  obtain ⟨stores₃, h₃, hext⟩ := hm.kept.run es₂
  have hvalid := (hm.issued o reply hreply).1 idx hissued
  have hsound : (stores₃ b).Sound idx :=
    h₃.sound_of_known ((Store.Known.of_isValid hvalid).later (hext o)) b
  have hiff : (stores₃ b).isValid idx = true ↔ good := by
    rcases eq_or_ne b o with rfl | hne
    · exact ((hext b).isValid_iff (h₃.ok b) hvalid).trans (and_iff_right rfl).symm
    · have hnot : idx.stamp ∉ (stores₃ b).marks := fun hs =>
        hne (h₃.apart hs ((hext o).marks_subset (Store.stamp_mem hvalid)))
      rw [Store.isValid_eq_false hnot]
      exact ⟨by intros; contradiction, fun hg => absurd hg.1 hne⟩
  have hget := List.getElem?_eq_getElem (Store.slot_lt hvalid)
  rw [h₃.outcome_isValid t b hsound, h₃.outcome_tryGet t b hsound]
  refine ⟨_, (congrArg (·[idx.slot]?) (hm.kept.contents_eq o)).trans hget, fun hg => ?_,
    fun hg => ?_⟩
  · have hnow := hiff.mpr hg
    obtain ⟨rfl, -⟩ := hg
    have hkept := (hext b).tryGet_eq (h₃.ok b) hvalid hnow
    rw [Store.tryGet_of_isValid hvalid, hget] at hkept
    rw [hnow, hkept]
    exact ⟨rfl, rfl⟩
  · have hnow : (stores₃ b).isValid idx = false := Bool.eq_false_iff.mpr fun hv => hg (hiff.mp hv)
    rw [hnow, Store.tryGet, hnow]
    exact ⟨rfl, rfl⟩

/-- The refused block leaves the handle of the value before it good, and a reset whose
destructor panics does not. -/
theorem handles_survive_refused :
    let e : Event Nat := .alone 0 0 (.alloc 7)
    let es : List (Event Nat) := [.alone 0 0 (.allocBlock ⟨[1, 2, 3], false⟩)]
    let w : World cramped Nat := (initial.step e).run es
    let w' : World cramped Nat := (initial.step e).run (es ++ [.alone 0 0 (.reset fun _ _ => true)])
    w.outcome 1 (.shared 0) (.tryGet ⟨.nth 0, 0⟩) = .ok (.value (some 7)) ∧
      w'.outcome 1 (.shared 0) (.isValid ⟨.nth 0, 0⟩) = .ok (.valid false) := by
  intro e es w w'
  have hreply : (initial : World cramped Nat).reply e = some (.shared 0, .idx ⟨.nth 0, 0⟩) := by
    decide +kernel
  obtain ⟨v, hv, hgood, -⟩ := @handles_survive cramped Nat [] es e _ _ _ hreply
    (List.mem_singleton_self _) (.shared 0) 1
  obtain ⟨-, -, -, hbad⟩ := @handles_survive cramped Nat []
    (es ++ [.alone 0 0 (.reset fun _ _ => true)]) e _ _ _ hreply (List.mem_singleton_self _)
    (.shared 0) 1
  have hnone : Change.boundaries (changesOver (.shared 0) ((initial : World cramped Nat).step e) es)
      = [] := by decide +kernel
  have hzero : Change.boundaries (changesOver (.shared 0) ((initial : World cramped Nat).step e)
      (es ++ [.alone 0 0 (.reset fun _ _ => true)])) = [0] := by decide +kernel
  have hseven : (((initial : World cramped Nat).step e).contents (.shared 0))[0]? = some 7 := by
    decide +kernel
  cases hseven.symm.trans hv
  have hkept :
    Change.rewritten 0 (changesOver (.shared 0) ((initial : World cramped Nat).step e) es) 7
      = 7 := by decide +kernel
  have hbelow : ∀ n ∈ Change.boundaries (changesOver (.shared 0)
      ((initial : World cramped Nat).step e) es), 0 < n := by
    rw [hnone]
    exact fun n hn => by cases hn
  refine ⟨(hgood ⟨rfl, hbelow⟩).2.trans
    (congrArg (fun v => Except.ok (Reply.value (some v))) hkept),
    (hbad fun hg => ?_).1⟩
  have hlt : ∀ n ∈ Change.boundaries (changesOver (.shared 0) ((initial : World cramped Nat).step e)
      (es ++ [.alone 0 0 (.reset fun _ _ => true)])), 0 < n := hg.2
  rw [hzero] at hlt
  exact Nat.lt_irrefl 0 (hlt 0 (List.mem_singleton_self 0))

/-- Checkpoints of several arenas that are all accepted can be rolled back in any order, with other
calls in between and failed attempts made again.  As long as nothing else begins a boundary below
one of them, none is refused and each restores the values that were there. -/
theorem rollbacks_are_all_or_nothing (es es' : List (Event T)) (t : ThreadId)
    {marks : List (Owner × Checkpoint)}
    (hvalid : ∀ m ∈ marks, ((initial : World tgt T).run es).Accepts t m.1 m.2)
    (hes' : ∀ e ∈ es', ∀ m ∈ marks, ∀ n, e.boundary m.1 = some n → m.2.len ≤ n) :
    let w := (initial : World tgt T).run es
    let w' := w.run es'
    ∀ m ∈ marks,
      let saved := ((w.contents m.1).take m.2.len).mapIdx fun slot v =>
        Change.rewritten slot (changesOver m.1 w es') v
      w'.Accepts t m.1 m.2 ∧ (w'.contents m.1).take m.2.len = saved ∧
        (w'.quiet m.1 = true → ∀ t' panics,
          (∀ err, w'.outcome t' m.1 (.tryRollback m.2 panics) ≠ .ok (.verdict (.error err))) ∧
          (w'.outcome t' m.1 (.tryRollback m.2 panics) = .ok (.verdict (.ok ())) →
            (w'.step (.request t' m.1 (.tryRollback m.2 panics))).contents m.1 = saved)) := by
  intro w w' m hm saved
  obtain ⟨stores, h, -⟩ := (Shows.initial : (initial : World tgt T).Shows _).run es
  obtain ⟨stores', h', hext⟩ := h.run es'
  have hv := (h.accepts_iff t m.1 m.2).mp (hvalid m hm)
  have hb : ∀ n ∈ Change.boundaries (changesOver m.1 w es'), m.2.len ≤ n := by
    intro n hn
    obtain ⟨e, he, hbound⟩ := boundary_of_mem_changesOver hn
    exact hes' e he m hm n hbound
  have hv' := ((hext m.1).validateCheckpoint_iff (h'.ok m.1) hv).mpr hb
  have hsaved : (w'.contents m.1).take m.2.len = saved := by
    rw [h'.contents_eq, (hext m.1).take_eq (Store.validateCheckpoint_ok hv) hb, ← h.contents_eq]
  refine ⟨(h'.accepts_iff t m.1 m.2).mpr hv', hsaved, fun hquiet t' panics => ?_⟩
  obtain ⟨hout, hleft, -⟩ := h'.outcome_plain hquiet t'
    (show (Request.tryRollback m.2 panics).stored = [] from rfl) (by intros; contradiction)
  refine ⟨fun err he => ?_, fun hdone => ?_⟩
  · rw [hout, Store.ending_tryRollback] at he
    cases he.symm.trans hv'
  · rw [hleft, ← hsaved, h'.contents_eq]
    exact Store.values_tryRollback (hout ▸ hdone)

/-- The rollback of one arena goes through, that of the other is interrupted and then made again. -/
theorem rollbacks_are_all_or_nothing_retried :
    let cp : Checkpoint := ⟨.nth 0, 1, some (.nth 0)⟩
    let cp' : Checkpoint := ⟨.nth 1, 1, some (.nth 1)⟩
    let w : World cramped Nat := initial.run [.single (.request 0 0 (.alloc 5)),
      .single (.request 0 0 .checkpoint), .alone 0 0 (.alloc 7), .alone 0 0 .checkpoint,
      .alone 0 0 (.alloc 8)]
    let w' : World cramped Nat := w.run [.single (.request 0 0 (.tryRollback cp fun _ _ => false)),
      .alone 0 0 (.tryRollback cp' fun _ _ => true)]
    w'.contents (.single 0) = [5] ∧
      (w'.step (.alone 0 0 (.tryRollback cp' fun _ _ => false))).contents (.shared 0) = [7] := by
  intro cp cp' w w'
  have hvalid : ∀ m ∈ [(Owner.single 0, cp), (Owner.shared 0, cp')], w.Accepts 0 m.1 m.2 := by
    intro m hm
    rcases List.mem_pair.mp hm with rfl | rfl
    · show w.outcome 0 _ _ = _
      decide +kernel
    · show w.outcome 0 _ _ = _
      decide +kernel
  have hbelow : ∀ e ∈ ([.single (.request 0 0 (.tryRollback cp fun _ _ => false)),
      .alone 0 0 (.tryRollback cp' fun _ _ => true)] : List (Event Nat)),
      ∀ m ∈ [(Owner.single 0, cp), (Owner.shared 0, cp')], ∀ n, e.boundary m.1 = some n →
        m.2.len ≤ n := by
    intro e he m hm n hn
    rcases List.mem_pair.mp he with rfl | rfl <;> rcases List.mem_pair.mp hm with rfl | rfl <;>
      cases hn <;> exact Nat.le_refl 1
  have hall := rollbacks_are_all_or_nothing _ _ 0 hvalid hbelow
  obtain ⟨-, hfive, -⟩ := hall _ (List.mem_cons_self ..)
  obtain ⟨-, -, hback⟩ := hall (.shared 0, cp') (List.mem_cons_of_mem _ (List.mem_singleton_self _))
  have hdone : w'.outcome 0 (.shared 0) (.tryRollback cp' fun _ _ => false)
      = .ok (.verdict (.ok ())) := by decide +kernel
  refine ⟨?_, ((hback (by decide +kernel) 0 _).2 hdone).trans (by decide +kernel)⟩
  refine Eq.trans ?_ (hfive.trans (by decide +kernel))
  exact (List.take_of_length_le (by decide +kernel)).symm

end World

end SafeBump
