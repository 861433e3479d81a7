import SafeBump.Library.Cursor
import SafeBump.SlotArithmetic
import SafeBump.Survival

/-!
# Iterators are snapshots

An iterator over a concurrent arena borrows it, so that nothing begins a boundary while it
exists, but other threads may go on allocating.  It reads `published` once, when it is made,
and slots and stamps when it is asked for them.

Those are the ones it would have found at the start, since without a boundary a store only
grows (`Store.Extends.getElem?_indexed`).  So it yields what was published when it was made
and then nothing, whatever is published in between (`World.iterators_are_snapshots`).
-/

namespace SafeBump

open Library.Unwind

variable {tgt : Target} {σ T : Type}

/-- `SharedArenaIter::size_hint`, if the subtraction does not underflow. -/
def SharedArenaIter.sizeHint (it : SharedArenaIter tgt T) : Option (Nat × Option Nat) :=
  if it.pos ≤ it.len then some (it.len - it.pos, some (it.len - it.pos)) else none

/-- `SharedArenaIterIndexed::size_hint`, if the subtraction does not underflow. -/
def SharedArenaIterIndexed.sizeHint (it : SharedArenaIterIndexed) : Option (Nat × Option Nat) :=
  if it.pos ≤ it.len then some (it.len - it.pos, some (it.len - it.pos)) else none

namespace Store

/-- Without a boundary the pairs stay. -/
theorem Extends.getElem?_indexed {st st' : Store T} (h : st.Extends [] st') {slot : Nat}
    {p : Idx × T} (hp : st.indexed[slot]? = some p) : st'.indexed[slot]? = some p := by
  cases st with
  | unused => cases hp
  | live vs e =>
      obtain ⟨ds, hds, he⟩ := h.history e rfl
      obtain rfl : ds = [] := List.map_eq_nil_iff.mp hds
      rw [getElem?_indexed_live] at hp
      obtain ⟨v, hv, rfl⟩ := Option.map_eq_some_iff.mp hp
      have hkept := h.kept slot v hv fun n hn => by cases hn
      cases st' with
      | unused => cases he
      | live vs' e' =>
          cases he
          have hkept : vs'[slot]? = some v := hkept
          rw [getElem?_indexed_live, hkept]
          rfl

end Store

namespace World

/-- `next` on an iterator over the values of concurrent arena `n`, whose storage is now what it
is in `w`. -/
def nextValue (n : Nat) (w : World tgt T) (it : SharedArenaIter tgt T) :
    Except Panic (Option (T × SharedArenaIter tgt T)) :=
  ({ it with storage := (w.shareds n).arena.storage } : SharedArenaIter tgt T).next

/-- `next` on an indexed iterator over concurrent arena `n`, by thread `t`. -/
def nextIndexed (t : ThreadId) (n : Nat) (w : World tgt T) (it : SharedArenaIterIndexed) :
    Except Exit (Option ((Idx × T) × SharedArenaIterIndexed)) :=
  ending ((SharedArenaIterIndexed.next (StampSpace.fresh t) it).run
    ⟨(w.shareds n).arena, w.process.stamps, (w.shareds n).dropped⟩)

/-- The states in which the iterator is used: after each of the runs `ess`, one following the
other. -/
def moments : World tgt T → List (List (Event T)) → List (World tgt T)
  | _, [] => []
  | w, es :: ess => w.run es :: moments (w.run es) ess

theorem length_moments (w : World tgt T) (ess : List (List (Event T))) :
    (w.moments ess).length = ess.length := by
  induction ess generalizing w with
  | nil => rfl
  | cons es ess ih => exact congrArg Nat.succ (ih _)

/-- What is not meant to begin a boundary does nothing to a concurrent arena but add to it. -/
theorem changesOver_shared (w : World tgt T) {n : Nat} {es : List (Event T)}
    (h : ∀ e ∈ es, e.boundary (.shared n) = none) : changesOver (.shared n) w es = [] := by
  induction es generalizing w with
  | nil => rfl
  | cons e es ih =>
      rw [changesOver, ih _ fun e' he => h e' (List.mem_cons_of_mem _ he), List.append_nil]
      have he := h e (List.mem_cons_self ..)
      cases e with
      | alone t m req =>
          rw [changes]
          split
          · rename_i hq
            rw [Event.boundary, if_pos hq.1] at he
            rw [committed_of_boundary he]
            rfl
          · rfl
      | _ => rfl

namespace Shows

variable {w : World tgt T} {stores : Owner → Store T} {n : Nat}

/-- In every state an iterator is used in, its arena shows what it showed at first and more. -/
theorem moment (h : w.Shows stores) {ess : List (List (Event T))}
    (hess : ∀ es ∈ ess, ∀ e ∈ es, e.boundary (.shared n) = none) :
    ∀ w' ∈ w.moments ess, ∃ stores', w'.Shows stores' ∧
      (stores (.shared n)).Extends [] (stores' (.shared n)) := by
  induction ess generalizing w stores with
  | nil => exact fun _ hw => by cases hw
  | cons es ess ih =>
      intro w' hw'
      obtain ⟨stores₁, h₁, hext⟩ := h.run es
      have hext := hext (.shared n)
      rw [changesOver_shared w (hess es (List.mem_cons_self ..))] at hext
      rcases List.mem_cons.mp hw' with rfl | hw'
      · exact ⟨stores₁, h₁, hext⟩
      · obtain ⟨stores₂, h₂, hext₂⟩ :=
          ih h₁ (fun es hes => hess es (List.mem_cons_of_mem _ hes)) w' hw'
        exact ⟨stores₂, h₂, hext.trans hext₂⟩

end Shows

section Finds

variable {w : World tgt T} {stores : Owner → Store T} {n : Nat} {st : Store T}

theorem Shows.finds_value (h : w.Shows stores) (hext : st.Extends [] (stores (.shared n)))
    {len : Nat} (hlen : st.values.length = len) :
    Library.Finds (nextValue n) st.values (fun it pos => it.pos = pos ∧ it.len = len) w := by
  rintro it pos ⟨rfl, rfl⟩
  refine ⟨fun v hv => ?_, fun hend => if_pos (hend.trans hlen)⟩
  obtain ⟨hlt, -⟩ := List.getElem?_eq_some_iff.mp hv
  rw [← Store.map_snd_indexed, List.getElem?_map] at hv
  obtain ⟨p, hp, rfl⟩ := Option.map_eq_some_iff.mp hv
  have hnext := (h.shareds n).shown.next (hlen ▸ hlt) (hext.getElem?_indexed hp)
  exact ⟨_, hnext, rfl, rfl⟩

theorem Shows.finds_indexed (h : w.Shows stores) (hext : st.Extends [] (stores (.shared n)))
    {len : Nat} (hlen : st.values.length = len) (t : ThreadId) :
    Library.Finds (nextIndexed t n) st.indexed (fun it pos => it.pos = pos ∧ it.len = len) w := by
  rintro it pos ⟨rfl, rfl⟩
  rw [Store.length_indexed]
  refine ⟨fun p hp => ?_, fun hend => ?_⟩
  · obtain ⟨hlt, -⟩ := List.getElem?_eq_some_iff.mp hp
    rw [Store.length_indexed, hlen] at hlt
    have hnext := (h.shareds n).shown.run_next hlt (hext.getElem?_indexed hp) (StampSpace.fresh t)
      w.process.stamps (w.shareds n).dropped
    exact ⟨_, congrArg ending hnext, rfl, rfl⟩
  · rw [nextIndexed, SharedArenaIterIndexed.next, if_pos (hend.trans hlen)]
    rfl

end Finds

/-- An iterator over a concurrent arena yields what was published when it was made, in order, and
then nothing, whatever other threads do between the calls of `next` and whatever fails.  The
handles it yields are those an iteration at the start yields, and stay good.  It never panics,
and says how many values are left. -/
theorem iterators_are_snapshots (es : List (Event T)) (n : Nat) (t : ThreadId)
    {ess : List (List (Event T))} (hess : ∀ es ∈ ess, ∀ e ∈ es, e.boundary (.shared n) = none) :
    let w := (initial : World tgt T).run es
    let a := (w.shareds n).arena
    let ws := w.moments ess
    let vs := w.contents (.shared n)
    let rest := a.len - min ess.length a.len
    let r := Library.calls (nextValue n) (⟨a.storage, 0, a.len⟩ : SharedArenaIter tgt T) ws
    ∃ pairs, w.outcome t (.shared n) .iterIndexed = .ok (.indexed pairs) ∧
      pairs.map Prod.snd = vs ∧
      r.1 = (List.range ess.length).map (fun k => .ok vs[k]?) ∧
      r.2.sizeHint = some (rest, some rest) ∧
      (let r := Library.calls (nextIndexed t n) ⟨0, a.len⟩ ws
       r.1 = (List.range ess.length).map (fun k => .ok pairs[k]?) ∧
         r.2.sizeHint = some (rest, some rest)) ∧
      ∀ w' ∈ ws, ∀ p ∈ pairs, w'.outcome t (.shared n) (.isValid p.1) = .ok (.valid true) ∧
        w'.outcome t (.shared n) (.tryGet p.1) = .ok (.value (some p.2)) := by
  intro w a ws vs rest r
  obtain ⟨stores, h, -⟩ := (Shows.initial : (initial : World tgt T).Shows _).run es
  have hvs : vs = (stores (.shared n)).values := h.contents_eq _
  have hlen : (stores (.shared n)).values.length = a.len := (h.shareds n).shown.length_values
  have hws : ws.length = ess.length := w.length_moments ess
  have hlater := h.moment hess
  have hleft : a.len - min (0 + ws.length) a.len = rest := by rw [Nat.zero_add, hws]
  have hfinds : ∀ w' ∈ ws, Library.Finds (nextValue n) (stores (.shared n)).values
      (fun it pos => it.pos = pos ∧ it.len = a.len) w' := by
    intro w' hw'
    obtain ⟨stores', h', hext⟩ := hlater w' hw'
    exact h'.finds_value hext hlen
  have hfinds' : ∀ w' ∈ ws, Library.Finds (nextIndexed t n) (stores (.shared n)).indexed
      (fun it pos => it.pos = pos ∧ it.len = a.len) w' := by
    intro w' hw'
    obtain ⟨stores', h', hext⟩ := hlater w' hw'
    exact h'.finds_indexed hext hlen t
  obtain ⟨hvalues, hpos, hend⟩ := @Library.calls_of_finds _ _ _ _ _ _ _
    (⟨a.storage, 0, a.len⟩ : SharedArenaIter tgt T) 0 ws hfinds ⟨rfl, rfl⟩ (Nat.zero_le _)
  obtain ⟨hpairs, hpos', hend'⟩ := @Library.calls_of_finds _ _ _ _ _ _ _
    (⟨0, a.len⟩ : SharedArenaIterIndexed) 0 ws hfinds' ⟨rfl, rfl⟩ (Nat.zero_le _)
  refine ⟨(stores (.shared n)).indexed, ?_, ?_, ?_, ?_, ⟨?_, ?_⟩, ?_⟩
  · have hrun := (h.shareds n).shown.run_iterIndexed (StampSpace.fresh t) w.process.stamps
      (w.shareds n).dropped
    rw [outcome, served, SharedArena.serve, ending_run_map, hrun]
    rfl
  · rw [Store.map_snd_indexed, hvs]
  · rw [hvalues, hws, hvs, List.range_eq_range']
  · rw [SharedArenaIter.sizeHint, hpos, hend, hlen, if_pos (Nat.min_le_right _ _), hleft]
  · rw [hpairs, hws, List.range_eq_range']
  · rw [SharedArenaIterIndexed.sizeHint, hpos', hend', Store.length_indexed, hlen,
      if_pos (Nat.min_le_right _ _), hleft]
  · intro w' hw' p hp
    obtain ⟨stores', h', hext⟩ := hlater w' hw'
    obtain ⟨slot, hslot⟩ := List.mem_iff_getElem?.mp hp
    have hp' := List.mem_of_getElem? (hext.getElem?_indexed hslot)
    have hv := (Store.isValid_indexed hp').1
    have hsound := (Store.Known.of_isValid hv).sound (h'.ok (.shared n))
    rw [h'.outcome_isValid t _ hsound, h'.outcome_tryGet t _ hsound, hv, Store.tryGet_indexed hp']
    exact ⟨rfl, rfl⟩

/-- The value published after the first call of `next` is not yielded. -/
theorem iterators_are_snapshots_outrun :
    let w : World cramped Nat := initial.run [.alone 0 0 (.alloc 7)]
    let es : List (Event Nat) := .start 0 1 (.alloc 8) :: List.replicate 8 (.step 0 0 false)
    (w.run es).contents (.shared 0) = [7, 8] ∧
      (Library.calls (nextValue 0) ⟨(w.shareds 0).arena.storage, 0, (w.shareds 0).arena.len⟩
        (w.moments [[], es])).1 = [.ok (some 7), .ok none] := by
  intro w es
  have hess : ∀ es' ∈ [[], es], ∀ e ∈ es', e.boundary (.shared 0) = none := by
    intro es' hes' e he
    rcases List.mem_pair.mp hes' with rfl | rfl
    · cases he
    · rcases List.mem_cons.mp he with rfl | he
      · rfl
      · rw [List.eq_of_mem_replicate he]
        rfl
  have hvs : (initial.run [.alone 0 0 (.alloc 7)] : World cramped Nat).contents (.shared 0)
      = [7] := by
    decide +kernel
  obtain ⟨-, -, -, hvalues, -⟩ := iterators_are_snapshots [.alone 0 0 (.alloc 7)] 0 0 hess
  rw [hvs] at hvalues
  exact ⟨by decide +kernel, hvalues⟩

end World

end SafeBump
