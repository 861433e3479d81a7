import SafeBump.Issuance

/-!
# Indexed iteration

The indexed iterators work the stamps out again, slot by slot, where an allocation
took the stamp of its handle from the mirror and a check compares with the mirror
first.  On the store all three are one mark, so an iteration hands out the good
handles, each with its value, and no others (`World.indexed_iteration_is_exact`).
-/

namespace SafeBump

open Library.Unwind

variable {tgt : Target} {T : Type}

namespace Store

/-- One pair for each slot, in order. -/
theorem map_slot_indexed (st : Store T) :
    st.indexed.map (fun p => p.1.slot) = List.range st.values.length := by
  cases st with
  | unused => rfl
  | live vs e =>
      rw [indexed, List.map_map]
      exact (List.zipIdx_map_snd 0 vs).trans (List.range_eq_range' (n := vs.length)).symm

/-- The pair of a slot stands at that slot. -/
theorem getElem?_indexed {st : Store T} {p : Idx × T} (h : p ∈ st.indexed) :
    st.indexed[p.1.slot]? = some p := by
  obtain ⟨i, hi⟩ := List.mem_iff_getElem?.mp h
  have hslot : (st.indexed.map fun p => p.1.slot)[i]? = some p.1.slot := by
    rw [List.getElem?_map, hi, Option.map_some]
  rw [map_slot_indexed] at hslot
  obtain ⟨hlt, he⟩ := List.getElem?_eq_some_iff.mp hslot
  rw [List.getElem_range] at he
  rwa [← he]

/-- A good handle is that of one of the pairs. -/
theorem isValid_iff_mem_indexed {st : Store T} {idx : Idx} :
    st.isValid idx = true ↔ idx ∈ st.indexed.map Prod.fst := by
  constructor
  · intro h
    cases st with
    | unused => cases h
    | live vs e =>
        obtain ⟨hlt, hmark⟩ := isValid_live.mp h
        have hget : vs[idx.slot]? = some vs[idx.slot] := List.getElem?_eq_getElem hlt
        have hmem :=
          List.mem_map_of_mem (f := fun p : T × Nat => ((⟨e.markAt p.2, p.2⟩ : Idx), p.1))
          (List.mk_mem_zipIdx_iff_getElem?.mpr hget)
        refine List.mem_map.mpr ⟨_, hmem, ?_⟩
        rw [hmark]
  · intro h
    obtain ⟨⟨_, v⟩, hmem, rfl⟩ := List.mem_map.mp h
    exact (isValid_indexed hmem).1

theorem tryGet_indexed {st : Store T} {p : Idx × T} (h : p ∈ st.indexed) :
    st.tryGet p.1 = some p.2 := by
  obtain ⟨hv, hget⟩ := isValid_indexed h
  rw [tryGet_of_isValid hv, hget]

end Store

namespace World

section Iterators

variable {w : World tgt T} {stores : Owner → Store T}

theorem Shows.outcome_iterIndexed (h : w.Shows stores) (t : ThreadId) (o : Owner) :
    w.outcome t o .iterIndexed = .ok (.indexed (stores o).indexed) := by
  cases o with
  | single n =>
      have hi := Arena.iterIndexed_eq (h.singles n)
      rw [outcome, Process.outcome, Process.served, Arena.serve, Process.ctx]
      simp only [EStateM.run_bind, EStateM.run_get, hi, run_ofExcept_ok]
      rfl
  | shared n =>
      have hi := (h.shareds n).shown.run_iterIndexed (StampSpace.fresh t) w.process.stamps
        (w.shareds n).dropped
      rw [outcome, served, SharedArena.serve, ending_run_map, hi]
      rfl

/-- A pair that is handed out passes both checks. -/
theorem Shows.outcome_indexed (h : w.Shows stores) (t : ThreadId) {o : Owner} {p : Idx × T}
    (hp : p ∈ (stores o).indexed) : w.outcome t o (.isValid p.1) = .ok (.valid true) ∧
      w.outcome t o (.tryGet p.1) = .ok (.value (some p.2)) := by
  have hv := (Store.isValid_indexed hp).1
  have hsound := (Store.Known.of_isValid hv).sound (h.ok o)
  rw [h.outcome_isValid t o hsound, h.outcome_tryGet t o hsound, hv, Store.tryGet_indexed hp]
  exact ⟨rfl, rfl⟩

/-- Writing through the mutable iterator visits the same pairs, and their handles are
good for what was written. -/
theorem Shows.iterIndexedMut (h : w.Shows stores) (n : Nat) (f : Idx → T → T) :
    let e : Event T := .single (.write n (.iterIndexedMut f))
    w.reply e = some (.single n, .indexed (stores (.single n)).indexed) ∧
      (w.step e).contents (.single n) = (stores (.single n)).indexed.map (fun p => f p.1 p.2) ∧
      ∀ t, ∀ p ∈ (stores (.single n)).indexed,
        (w.step e).outcome t (.single n) (.isValid p.1) = .ok (.valid true) ∧
        (w.step e).outcome t (.single n) (.tryGet p.1) = .ok (.value (some (f p.1 p.2))) := by
  intro e
  have hi := Arena.iterIndexed_eq (h.singles n)
  refine ⟨?_, ?_, fun t p hp => ?_⟩
  · show Option.map _ (w.process.reply tgt (.write n (.iterIndexedMut f))) = _
    rw [Process.reply, hi]
    rfl
  · show ((w.process.step tgt (.write n (.iterIndexedMut f))).arenas n).items = _
    rw [Process.step, Process.arenas_put_self, Process.ctx, Arena.write]
    simp only [EStateM.run_bind, EStateM.run_get, hi, run_ofExcept_ok]
    rfl
  · obtain ⟨stores', hm, -⟩ := h.moves_single (.write n (.iterIndexedMut f))
    have hext := hm.extended (.single n)
    have hchanges : w.changes (.single n) e = (w.process.arenas n).changes (.iterIndexedMut f) :=
      if_pos rfl
    rw [hchanges] at hext
    obtain ⟨hv, -⟩ := Store.isValid_indexed hp
    have hok := hm.kept.ok (.single n)
    have hv' : (stores' (.single n)).isValid p.1 = true := by
      rw [hext.isValid_iff hok hv, Arena.boundaries_changes]
      exact List.forall_mem_nil _
    have hget := hext.tryGet_eq hok hv hv'
    rw [Store.tryGet_indexed hp, Option.map_some, Arena.changes, hi] at hget
    simp only [Change.rewritten, Store.getElem?_indexed hp] at hget
    have hsound := (Store.Known.of_isValid hv').sound hok
    rw [hm.kept.outcome_isValid t _ hsound, hm.kept.outcome_tryGet t _ hsound, hv', hget]
    exact ⟨rfl, rfl⟩

end Iterators

/-- An indexed iteration never panics, visits the slots in order, and pairs each value with a
handle that is good for it.  A handle handed out before is good exactly if it is one of these.
The mutable iterator visits the same pairs. -/
theorem indexed_iteration_is_exact (es : List (Event T)) :
    let w₀ : World tgt T := initial
    let w := w₀.run es
    ∀ o, ∃ pairs : List (Idx × T), pairs.map (fun p => p.1.slot) = List.range (w.len o) ∧
      pairs.map Prod.snd = w.contents o ∧
      (∀ t, w.outcome t o .iterIndexed = .ok (.indexed pairs) ∧
        (∀ p ∈ pairs, w.outcome t o (.isValid p.1) = .ok (.valid true) ∧
          w.outcome t o (.tryGet p.1) = .ok (.value (some p.2))) ∧
        ∀ b, ∀ idx ∈ issuedOver b w₀ es,
          w.outcome t o (.isValid idx) = .ok (.valid (decide (idx ∈ pairs.map Prod.fst)))) ∧
      ∀ n f, o = .single n →
        let e : Event T := .single (.write n (.iterIndexedMut f))
        w.reply e = some (o, .indexed pairs) ∧
        (w.step e).contents o = pairs.map (fun p => f p.1 p.2) ∧
        ∀ t, ∀ p ∈ pairs, (w.step e).outcome t o (.isValid p.1) = .ok (.valid true) ∧
          (w.step e).outcome t o (.tryGet p.1) = .ok (.value (some (f p.1 p.2))) := by
  intro w₀ w o
  obtain ⟨stores, h, hknown⟩ := exists_known es
  refine ⟨(stores o).indexed, ?_, ?_, fun t => ⟨h.outcome_iterIndexed t o,
    fun p hp => h.outcome_indexed t hp, fun b idx hidx => ?_⟩, ?_⟩
  · rw [Store.map_slot_indexed, h.len_eq]
  · rw [Store.map_snd_indexed, h.contents_eq]
  · rw [h.outcome_isValid t o (h.sound_of_known (hknown b idx hidx) o)]
    simp only [← Store.isValid_iff_mem_indexed, Bool.decide_eq_true]
  · rintro n f rfl
    exact h.iterIndexedMut n f

/-- A reset of a single-thread arena ends at the destructor of slot 1.  What is left is
visited under the new stamp. -/
theorem indexed_iteration_is_exact_interrupted :
    let tgt : Target := ⟨8, fun _ => true⟩
    let es : List (Event Nat) := [.single (.request 0 0 (.allocBlock ⟨[5, 6, 7], false⟩)),
      .single (.request 0 0 (.reset fun slot _ => slot == 1)),
      .single (.request 0 0 (.alloc 9))]
    let w : World tgt Nat := initial.run es
    ∃ pairs, w.outcome 0 (.single 0) .iterIndexed = .ok (.indexed pairs) ∧
      pairs.map (fun p => p.1.slot) = List.range 2 ∧ pairs.map Prod.snd = [5, 9] := by
  intro tgt es w
  obtain ⟨pairs, hslots, hvalues, h, -⟩ := @indexed_iteration_is_exact tgt Nat es (.single 0)
  have hlen : w.len (.single 0) = 2 := by decide +kernel
  have hcontents : w.contents (.single 0) = [5, 9] := by decide +kernel
  exact ⟨pairs, (h 0).1, hlen ▸ hslots, hcontents ▸ hvalues⟩

end World

end SafeBump
