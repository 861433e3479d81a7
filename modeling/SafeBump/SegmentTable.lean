import SafeBump.SharedIdentity

/-!
# The segment table refines a slot map

Any sequence of commits on a new identity, with boundaries in any order, stores
the history of these commits (`Identity.models_commitAll`), and the concurrent
identity that runs the same commits mirrors it
(`SharedIdentity.run_commitAll`).  So every lookup of either is the lookup in
the slot map that the commits build.
-/

namespace SafeBump

open Library (History SlotMap)

variable {σ : Type}

theorem Identity.commitAll_cons_ok {fresh : Source σ} {n : Nat} {ns : List Nat} {id id' : Identity}
    {src src' : σ} {drawn : List Stamp}
    (h : (commitAll fresh (n :: ns)).run (id, src) = .ok drawn (id', src')) :
    ∃ stamp src₁ rest, drawn = stamp :: rest ∧ fresh src = (.ok stamp, src₁) ∧
      (commitAll fresh ns).run (id.commitWith n stamp, src₁) = .ok rest (id', src') := by
  simp only [commitAll, EStateM.run_bind] at h
  cases hf : fresh src with
  | mk r src₁ =>
      cases r with
      | error p => simp [run_commit_error hf] at h
      | ok stamp =>
          rw [run_commit_ok hf] at h
          simp only [EStateM.run_get] at h
          cases hrest : (commitAll fresh ns).run (id.commitWith n stamp, src₁) with
          | error e c => simp [hrest] at h
          | ok rest c =>
              obtain ⟨hdrawn, hc⟩ : stamp :: rest = drawn ∧ c = (id', src') := by
                simpa only [hrest, EStateM.run_pure, EStateM.Result.ok.injEq,
                  current_commitWith] using h
              exact ⟨stamp, src₁, rest, hdrawn.symm, rfl, hc ▸ hrest⟩

/-- `fresh` hands out the stamps of the list, one after the other. -/
def Draws (fresh : Source σ) : σ → List Stamp → σ → Prop
  | src, [], src' => src = src'
  | src, stamp :: stamps, src' =>
      ∃ src₁, fresh src = (.ok stamp, src₁) ∧ Draws fresh src₁ stamps src'

theorem Identity.draws_commitAll {fresh : Source σ} :
    ∀ {ns : List Nat} {id id' : Identity} {src src' : σ} {drawn : List Stamp},
      (commitAll fresh ns).run (id, src) = .ok drawn (id', src') → Draws fresh src drawn src'
  | [], _, _, _, _, _, hrun => by
      obtain ⟨rfl, -, hsrc⟩ := by simpa [commitAll] using hrun
      exact hsrc
  | _ :: _, _, _, _, _, _, hrun => by
      obtain ⟨stamp, src₁, rest, rfl, hf, hrest⟩ := commitAll_cons_ok hrun
      exact ⟨src₁, hf, draws_commitAll hrest⟩

/-- A run of commits extends the stored history by the commits made. -/
theorem Identity.models_commitAll {fresh : Source σ} :
    ∀ {ns : List Nat} {id id' : Identity} {h : Epochs} {src src' : σ} {drawn : List Stamp},
      id.Models h → (commitAll fresh ns).run (id, src) = .ok drawn (id', src') →
      (drawn ++ h.marks).Nodup →
      drawn.length = ns.length ∧ id'.Models (h.extend (ns.zip drawn).reverse)
  | [], id, id', h, src, src', drawn, hm, hrun, _ => by
      obtain ⟨rfl, hid, rfl⟩ : [] = drawn ∧ id = id' ∧ src = src' := by
        simpa [commitAll] using hrun
      exact ⟨rfl, hid ▸ hm⟩
  | n :: ns, id, id', h, src, src', drawn, hm, hrun, hd => by
      obtain ⟨stamp, src₁, rest, rfl, _, hrest⟩ := commitAll_cons_ok hrun
      -- the stamp drawn first becomes a mark of the history
      have hd' : (rest ++ (h.commit n stamp).marks).Nodup := by
        rw [History.marks_commit, List.nodup_middle]
        exact hd
      have hnew : stamp ∉ h.marks :=
        fun hmem => (List.nodup_cons.mp hd).1 (List.mem_append_right _ hmem)
      obtain ⟨hlen, hmodels⟩ := models_commitAll (hm.commit hnew) hrest hd'
      refine ⟨by simp [hlen], ?_⟩
      have hext : (h.commit n stamp).extend (ns.zip rest).reverse
          = h.extend ((n :: ns).zip (stamp :: rest)).reverse := by
        simp [History.extend, History.commit]
      exact hext ▸ hmodels

/-- The concurrent identity makes the same run of commits. -/
theorem SharedIdentity.run_commitAll {fresh : Source σ} :
    ∀ {ns : List Nat} {sid : SharedIdentity} {id id' : Identity} {src src' : σ}
      {drawn : List Stamp},
      sid.Mirrors id → (Identity.commitAll fresh ns).run (id, src) = .ok drawn (id', src') →
      ∃ sid', (commitAll fresh ns).run (sid, src) = .ok (drawn.map Stamp.get) (sid', src') ∧
        sid'.Mirrors id'
  | [], sid, id, id', src, src', drawn, hm, hrun => by
      obtain ⟨rfl, hid, rfl⟩ : [] = drawn ∧ id = id' ∧ src = src' := by
        simpa [Identity.commitAll] using hrun
      exact ⟨sid, rfl, hid ▸ hm⟩
  | n :: ns, sid, id, id', src, src', drawn, hm, hrun => by
      obtain ⟨stamp, src₁, rest, rfl, hf, hrest⟩ := Identity.commitAll_cons_ok hrun
      obtain ⟨sid₁, hcommit, hm₁⟩ := hm.commit_ok hf n
      obtain ⟨sid', hall, hm'⟩ := run_commitAll hm₁ hrest
      refine ⟨sid', ?_, hm'⟩
      have hcur : sid₁.current = stamp.get := hm₁.current
      simp only [commitAll, EStateM.run_bind, hcommit, EStateM.run_get, hall, EStateM.run_pure,
        hcur, List.map_cons]

/-- Every lookup of an identity, and of the concurrent identity that makes the
same commits, is the lookup in the map that gives each slot the stamp of the
last commit that reached it.  The stamps are those `fresh` hands out to the commits. -/
theorem segment_table_refines_slot_map (fresh : Source σ) (birth : Stamp) (ns : List Nat)
    (src src' : σ) (drawn : List Stamp) (id : Identity)
    (hrun : (Identity.commitAll fresh ns).run (.new birth, src) = .ok drawn (id, src'))
    (hd : (birth :: drawn).Nodup) :
    let M : SlotMap Nat Stamp := SlotMap.commitAll (fun _ => birth) (ns.zip drawn)
    Draws fresh src drawn src' ∧ drawn.length = ns.length ∧
      (∀ i, id.stampOf i = M i) ∧
      (∀ i, i < id.currentStart → id.stampOfCold i = M i) ∧
      (0 < id.currentStart → id.prefixTail = id.stampOfCold (id.currentStart - 1)) ∧
      (∀ i s, id.matchesArchived i s = true ↔ i < id.currentStart ∧ M i = s) ∧
      ∃ sid : SharedIdentity,
        (SharedIdentity.commitAll fresh ns).run (.born birth, src)
            = .ok (drawn.map Stamp.get) (sid, src') ∧
          sid.currentStart = id.currentStart ∧
          (∀ i, (SharedIdentity.stampOf fresh i).run (sid, src') = .ok (M i) (sid, src')) ∧
          (∀ i, i < sid.currentStart →
            (SharedIdentity.stampOfCold fresh i).run (sid, src') = .ok (M i) (sid, src')) ∧
          (0 < sid.currentStart →
            (SharedIdentity.stampOfCold fresh (sid.currentStart - 1)).run (sid, src')
              = .ok sid.prefixTail (sid, src')) ∧
          ∀ i s, ∃ b, (SharedIdentity.matchesArchived fresh i s).run (sid, src')
              = .ok b (sid, src') ∧ (b = true ↔ i < sid.currentStart ∧ M i = s) := by
  intro M
  have hnodup : (drawn ++ (History.new birth : Epochs).marks).Nodup := by
    rw [History.marks_new, List.nodup_middle, List.append_nil]
    exact hd
  obtain ⟨hlen, hmodels⟩ := Identity.models_commitAll (.new birth) hrun hnodup
  have hM : ∀ i, ((History.new birth : Epochs).extend (ns.zip drawn).reverse).markAt i = M i := by
    intro i
    have hext : (History.new birth : Epochs).extend (ns.zip drawn).reverse
        = ⟨birth, (ns.zip drawn).reverse⟩ := by simp [History.extend, History.new]
    rw [hext, History.markAt_eq_commitAll]
  have hcold : ∀ i, i < id.currentStart → id.stampOfCold i = M i :=
    fun i hi => (hmodels.stampOfCold_eq hi).trans (hM i)
  have htail : 0 < id.currentStart → id.prefixTail = id.stampOfCold (id.currentStart - 1) := by
    intro hpos
    rw [hmodels.tail (hmodels.start ▸ hpos), ← hmodels.start,
      hmodels.stampOfCold_eq (Nat.sub_lt hpos Nat.one_pos)]
  have harch : ∀ i s, id.matchesArchived i s = true ↔ i < id.currentStart ∧ M i = s := by
    intro i s
    rw [hmodels.matchesArchived_iff, hmodels.start, hM]
  obtain ⟨sid, hsrun, hmirror⟩ := SharedIdentity.run_commitAll (.of_born birth) hrun
  refine ⟨Identity.draws_commitAll hrun, hlen, fun i => (hmodels.stampOf_eq i).trans (hM i), hcold,
    htail, harch, sid, hsrun, hmirror.start, ?_, ?_, ?_, ?_⟩
  · intro i
    rw [hmirror.run_stampOf, hmodels.stampOf_eq, hM]
  · intro i hi
    rw [hmirror.run_stampOfCold, hcold i (hmirror.start ▸ hi)]
  · intro hpos
    rw [hmirror.start] at hpos ⊢
    rw [hmirror.run_stampOfCold, hmirror.tail hpos, htail hpos]
  · intro i s
    refine ⟨_, hmirror.run_matchesArchived i s, ?_⟩
    rw [harch, hmirror.start]

/-- Boundaries that grow, shrink and grow past the first. -/
theorem segment_table_refines_slot_map_mixed :
    let id : Identity := ⟨.nth 0, .nth 4, 9, .nth 3, [(2, .nth 3)]⟩
    (Identity.commitAll script [3, 5, 2, 9]).run
        (.new (.nth 0), [.nth 1, .nth 2, .nth 3, .nth 4])
      = .ok [.nth 1, .nth 2, .nth 3, .nth 4] (id, []) ∧
    Draws script [.nth 1, .nth 2, .nth 3, .nth 4] [.nth 1, .nth 2, .nth 3, .nth 4] [] ∧
    id.stampOf 1 = .nth 0 ∧ id.stampOf 3 = .nth 3 ∧ id.stampOf 9 = .nth 4 := by
  intro id
  have hrun : (Identity.commitAll script [3, 5, 2, 9]).run
        (.new (.nth 0), [.nth 1, .nth 2, .nth 3, .nth 4])
      = .ok [.nth 1, .nth 2, .nth 3, .nth 4] (id, []) := rfl
  obtain ⟨hdraws, -, hlookup, -⟩ := segment_table_refines_slot_map script (.nth 0) [3, 5, 2, 9]
    [.nth 1, .nth 2, .nth 3, .nth 4] [] [.nth 1, .nth 2, .nth 3, .nth 4] id hrun (by decide)
  exact ⟨hrun, hdraws, hlookup 1, hlookup 3, hlookup 9⟩

end SafeBump
