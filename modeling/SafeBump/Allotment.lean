import SafeBump.Intact

/-!
# An allocation on its own

An allocation that no other call is under way beside gets as far as the slots let it
(`SharedArena.Allots`), which says how it ends and what it leaves in every case.  Before that
it may find no stamp or no slots, and leaves the slots as they were
(`SharedArena.serve_stored`).
-/

namespace SafeBump

open Library (stretch)
open Library.Unwind

variable {tgt : Target} {σ T : Type}

namespace SharedArena

section Alone

variable {a : SharedArena tgt T} {fresh : Source σ} {src : σ} {d : List T} {req : Request T}

/-- How far an allocation on its own gets that has a stamp, from the arena `a` to the arena
`a'`.  It fills its range up to the first slot that is not free, and if there is none it
publishes up to the first slot that is not filled. -/
structure Allots (a : SharedArena tgt T) (req : Request T) (r : Except Exit (Reply T))
    (a' : SharedArena tgt T) (lost : List T) : Prop where
  reserved : a'.reserved = a.reserved + req.stored.length
  laid : a.storage.Laid a.reserved
    (req.stored.take (stretch a.storage.free a.reserved req.stored.length)) a'.storage
  lost : lost = req.stored.drop (stretch a.storage.free a.reserved req.stored.length)
  refused : stretch a.storage.free a.reserved req.stored.length ≠ req.stored.length →
    a'.published = a.published ∧ r = .error (.unwinds (a.storage.refusal req.movedDtor
      (a.reserved + stretch a.storage.free a.reserved req.stored.length)
      req.stored[stretch a.storage.free a.reserved req.stored.length]?))
  stored : stretch a.storage.free a.reserved req.stored.length = req.stored.length →
    a'.published = a.published + stretch a'.storage.filled a.published
      (a'.reserved - a.published) ∧
    if a'.published = a'.reserved then
      ∃ stamp : Stamp, stamp.get = a'.identity.current ∧ r = .ok (handle req (stamp, a.reserved))
    else r = .error .spins

theorem allots_live (fresh : Source σ) (hw : a.Whole) {i : Identity} (hid : a.identity.Mirrors i)
    (hreq : req.stored ≠ []) (hfit : a.reserved + req.stored.length ≤ tgt.usizeMax) (src : σ)
    (d : List T) :
    let res := (serve fresh req).run ⟨a, src, d⟩
    ∃ lost, (left res).dropped = d ++ lost ∧ a.Allots req (ending res) (left res).arena lost := by
  intro res
  obtain ⟨st, -, hlaid, hrun⟩ := run_placing req.movedDtor fresh hw hid hreq hfit src d
  have hres : res = _ := (run_serve_placing hreq ⟨a, src, d⟩).trans (run_map ..)
  have hord := hw.ordered
  have hadd : a.published + (a.reserved + req.stored.length - a.published)
      = a.reserved + req.stored.length := by omega
  rw [hres, hrun]
  by_cases hk : stretch a.storage.free a.reserved req.stored.length = req.stored.length
  · rw [if_pos hk]
    have hnone : req.stored.drop (stretch a.storage.free a.reserved req.stored.length) = [] :=
      List.drop_eq_nil_of_le hk.ge
    by_cases hn : stretch st.filled a.published (a.reserved + req.stored.length - a.published)
        = a.reserved + req.stored.length - a.published
    · rw [if_pos hn]
      refine ⟨[], (List.append_nil d).symm, rfl, hlaid, hnone.symm, fun h => absurd hk h,
        fun _ => ⟨rfl, ?_⟩⟩
      rw [if_pos]
      · exact ⟨i.current, hid.current.symm, rfl⟩
      · exact (congrArg (a.published + ·) hn).trans hadd
    · rw [if_neg hn]
      refine ⟨[], (List.append_nil d).symm, rfl, hlaid, hnone.symm, fun h => absurd hk h,
        fun _ => ⟨rfl, ?_⟩⟩
      rw [if_neg]
      · rfl
      · intro h
        have h : a.published + _ = a.reserved + req.stored.length := h
        exact hn (by omega)
  · rw [if_neg hk]
    exact ⟨_, rfl, rfl, hlaid, rfl, fun _ => ⟨rfl, rfl⟩, fun h => absurd h hk⟩

/-- An allocation on its own: it has no stamp, or no slots, or it gets some way. -/
theorem serve_stored (fresh : Source σ) (hw : a.Whole) (hs : a.identity.Sane True)
    (hreq : req.stored ≠ []) (src : σ) (d : List T) :
    let res := (serve fresh req).run ⟨a, src, d⟩
    let ready := a.identity.current ≠ 0 ∨ (fresh src).1.isOk = true
    (¬ ready ∧ ∃ p src', fresh src = (.error p, src') ∧
      res = .error (.unwinds p) ⟨a, src', d ++ req.stored⟩) ∨
    (ready ∧ tgt.usizeMax < a.reserved + req.stored.length ∧ ∃ id src',
      res = .error (.unwinds .slotSpaceExhausted)
        ⟨{ a with identity := id }, src', d ++ req.stored⟩) ∨
    (ready ∧ a.reserved + req.stored.length ≤ tgt.usizeMax ∧ ∃ lost,
      (left res).dropped = d ++ lost ∧ a.Allots req (ending res) (left res).arena lost) := by
  intro res ready
  have hrun : res = _ := (run_serve_placing hreq ⟨a, src, d⟩).trans (run_map ..)
  rcases hs with ⟨hid, -⟩ | ⟨i, hid⟩
  · have hcur : a.identity.current = 0 := by
      rw [hid]
      rfl
    rcases hf : fresh src with ⟨p | s, src'⟩
    · refine .inl ⟨fun h => ?_, p, src', rfl, ?_⟩
      · rcases h with h | h
        · exact h hcur
        · rw [hf] at h
          cases h
      · rw [hrun, run_placing_error _ hf hid]
    · have hready : ready := .inr (by rw [hf]; rfl)
      have hrun' : res = (serve fresh req).run ⟨{ a with identity := .born s }, src', d⟩ := by
        rw [hrun, run_placing_new _ hf hid, run_serve_placing hreq, run_map]
      have hw' : ({ a with identity := .born s } : SharedArena tgt T).Whole :=
        ⟨hw.ordered, hw.fits, hw.set, hw.allocated⟩
      have hborn : ({ a with identity := .born s } : SharedArena tgt T).identity.Mirrors (.new s) :=
        .of_born s
      rcases Nat.lt_or_ge tgt.usizeMax (a.reserved + req.stored.length) with hfull | hfit
      · refine .inr (.inl ⟨hready, hfull, .born s, src', ?_⟩)
        rw [hrun, run_placing_new _ hf hid, run_placing_full _ hborn hreq hfull]
      · obtain ⟨lost, hd, hall⟩ := allots_live fresh hw' hborn hreq hfit src' d
        rw [hrun']
        exact .inr (.inr ⟨hready, hfit, lost, hd, hall.reserved, hall.laid, hall.lost, hall.refused,
          hall.stored⟩)
  · have hready : ready := .inl hid.current_ne_zero
    rcases Nat.lt_or_ge tgt.usizeMax (a.reserved + req.stored.length) with hfull | hfit
    · refine .inr (.inl ⟨hready, hfull, a.identity, src, ?_⟩)
      rw [hrun, run_placing_full _ hid hreq hfull]
    · exact .inr (.inr ⟨hready, hfit, allots_live fresh hw hid hreq hfit src d⟩)

/-- What can end a request early. -/
theorem serve_ending {A : σ → Prop} {E : Exit → Prop} (hx : Expects fresh A E) (hw : a.Whole)
    (hs : a.identity.Sane True) (hA : A src) {e : Exit}
    (he : ending ((serve fresh req).run ⟨a, src, d⟩) = .error e) :
    E e ∨ req.stored ≠ [] ∧
      (e = .unwinds .slotSpaceExhausted ∨ e = .spins ∨
        ∃ p : Panic, e = .unwinds p ∧ p.Refusal) := by
  by_cases hreq : req.stored = []
  · exact .inl ((safe_serve hx hw hreq ⟨a, src, d⟩ ⟨.refl hs, hA⟩).2 e he)
  · rcases serve_stored fresh hw hs hreq src d with
      ⟨-, p, src', hf, hres⟩ | ⟨-, -, id, src', hres⟩ | ⟨-, -, lost, -, hall⟩
    · rw [hres] at he
      cases he
      exact .inl (hx.fresh src p hA (by rw [hf]))
    · rw [hres] at he
      cases he
      exact .inr ⟨hreq, .inl rfl⟩
    · refine .inr ⟨hreq, .inr ?_⟩
      by_cases hk : stretch a.storage.free a.reserved req.stored.length = req.stored.length
      · have hstored := (hall.stored hk).2
        split at hstored
        · obtain ⟨stamp, -, hr⟩ := hstored
          cases hr.symm.trans he
        · cases hstored.symm.trans he
          exact .inl rfl
      · cases (hall.refused hk).2.symm.trans he
        exact .inr ⟨_, rfl, a.storage.refusal_isRefusal ..⟩

end Alone

end SharedArena

end SafeBump
