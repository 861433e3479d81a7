import SafeBump.Issuance

/-!
# The reordered validation

The plain rule for a handle is that its slot is in use and carries its stamp.  The
code compares the stamp with the current one first and looks at the segments only
if they differ.  For arbitrary pairs of a stamp and a slot that is another rule: it
accepts any slot under the current stamp.  No such handle was ever issued, so
for the handles in existence the rules agree (`World.validation_is_plain`).
-/

namespace SafeBump

open Library.Unwind

variable {tgt : Target} {T : Type}

namespace World

section Rule

variable (w : World tgt T)

/-- The raw current stamp an arena compares with: its mirror, or `current`. -/
def currentRaw : Owner → Nat
  | .single n => (w.process.arenas n).current
  | .shared n => (w.shareds n).arena.identity.current

/-- Where the current segment of an arena starts. -/
def currentStart : Owner → Nat
  | .single n => ((w.process.arenas n).sidecar.map Identity.currentStart).getD 0
  | .shared n => (w.shareds n).arena.identity.currentStart

/-- `stamp_of`, where it has an answer without drawing a stamp. -/
def stampOf : Owner → Nat → Option Stamp
  | .single n, slot => (w.process.arenas n).sidecar.map fun id => id.stampOf slot
  | .shared n, slot =>
      (ending ((SharedIdentity.stampOf script slot).run
        ((w.shareds n).arena.identity, []))).toOption

/-- The plain rule. -/
def plainRule (o : Owner) (idx : Idx) : Bool :=
  decide (idx.slot < w.len o) && decide (w.stampOf o idx.slot = some idx.stamp)

end Rule

section Read

variable {w : World tgt T} {stores : Owner → Store T}

/-- The current stamp and the current segment are those of the store. -/
theorem Shows.of_currentRaw (h : w.Shows stores) {o : Owner} {s : Stamp}
    (hs : s.get = w.currentRaw o) :
    ∃ e, (stores o).epochs = some e ∧ s = e.current ∧ w.currentStart o = e.start := by
  cases o with
  | single n => exact (h.singles n).of_current hs
  | shared n =>
      have hs : s.get = (w.shareds n).arena.identity.current := hs
      obtain ⟨id, e, hid, hm, he⟩ := (h.shareds n).shown.view.of_current (hs ▸ s.ne_zero)
      refine ⟨e, he, ?_, hid.start.trans hm.start⟩
      exact (Stamp.get_inj.mp (hs.trans hid.current)).trans hm.current

/-- The stamps of the slots in use are those of the store. -/
theorem Shows.stampOf_eq (h : w.Shows stores) {o : Owner} {slot : Nat} (hlt : slot < w.len o) :
    ∃ e, (stores o).epochs = some e ∧ w.stampOf o slot = some (e.markAt slot) := by
  cases o with
  | single n =>
      have hm := h.singles n
      cases hst : stores (.single n) with
      | unused =>
          rw [h.len_eq, hst] at hlt
          exact absurd hlt (Nat.not_lt_zero slot)
      | live vs e =>
          rw [hst] at hm
          exact ⟨e, rfl, hm.stampOf slot⟩
  | shared n =>
      have hpos : (w.shareds n).arena.published ≠ 0 :=
        Nat.ne_of_gt (Nat.lt_of_le_of_lt (Nat.zero_le slot) hlt)
      obtain ⟨id, e, hid, hm, he⟩ := (h.shareds n).shown.mirrors hpos
      refine ⟨e, he, ?_⟩
      rw [stampOf, hid.run_stampOf slot, hm.stampOf_eq]
      rfl

/-- The store follows the plain rule, whatever the handle. -/
theorem Shows.plainRule_eq (h : w.Shows stores) (o : Owner) (idx : Idx) :
    w.plainRule o idx = (stores o).isValid idx := by
  rw [plainRule]
  rcases Nat.lt_or_ge idx.slot (w.len o) with hlt | hge
  · obtain ⟨e, he, hstamp⟩ := h.stampOf_eq hlt
    rw [hstamp, decide_eq_true hlt, Bool.true_and]
    rw [h.len_eq] at hlt
    cases hst : stores o with
    | unused =>
        rw [hst] at he
        cases he
    | live vs e' =>
        rw [hst] at he hlt
        cases he
        have hlt : idx.slot < vs.length := hlt
        rw [Store.isValid, decide_eq_true hlt, Bool.true_and, Bool.eq_iff_iff, decide_eq_true_iff,
          decide_eq_true_iff, Option.some.injEq]
  · rw [decide_eq_false (Nat.not_lt.mpr hge), Bool.false_and]
    rw [h.len_eq] at hge
    exact (Bool.eq_false_iff.mpr fun hv => Nat.not_lt.mpr hge (Store.slot_lt hv)).symm

end Read

/-- For a handle in existence the current stamp says that it is good and which arena
issued it, and each check, in whatever order it looks at the length and the stamp,
gives the answer of the plain rule.  The mirror of an arena is the current
stamp of its identity, and an arena with values has one. -/
theorem validation_is_plain (es : List (Event T)) :
    let w₀ : World tgt T := initial
    let w := w₀.run es
    (∀ o b, ∀ idx ∈ issuedOver b w₀ es,
      (idx.stamp.get = w.currentRaw o →
        b = o ∧ w.currentStart o ≤ idx.slot ∧ idx.slot < w.len o) ∧
      (∀ t, w.outcome t o (.isValid idx) = .ok (.valid (w.plainRule o idx)) ∧
        w.outcome t o (.tryGet idx)
          = .ok (.value (if w.plainRule o idx then (w.contents o)[idx.slot]? else none))) ∧
      ∀ n, o = .single n → (w.process.arenas n).tryGetMut idx
        = if w.plainRule o idx then (w.contents o)[idx.slot]? else none) ∧
    ∀ n, ((w.process.arenas n).current = 0 ↔ (w.process.arenas n).sidecar = none) ∧
      (∀ id, (w.process.arenas n).sidecar = some id →
        (w.process.arenas n).current = id.current.get) ∧
      ((w.process.arenas n).sidecar = none → (w.process.arenas n).items = []) := by
  intro w₀ w
  obtain ⟨stores, h, hknown⟩ := exists_known es
  refine ⟨fun o b idx hidx => ?_, fun n => ?_⟩
  · have hk := hknown b idx hidx
    have hsound := h.sound_of_known hk o
    have hplain := h.plainRule_eq o idx
    have hget : (stores o).tryGet idx
        = if w.plainRule o idx then (w.contents o)[idx.slot]? else none := by
      rw [hplain, h.contents_eq, Store.tryGet]
    refine ⟨fun hcur => ?_, fun t => ⟨?_, ?_⟩, ?_⟩
    · obtain ⟨e, he, hmark, hstart⟩ := h.of_currentRaw hcur
      have hmem : idx.stamp ∈ (stores o).marks := by
        rw [hmark]
        exact Store.mem_marks.mpr ⟨e, he, e.current_mem⟩
      obtain rfl : b = o := h.apart hk.stamp_mem hmem
      obtain ⟨hv, hge⟩ := hk.of_current (h.ok b) he hmark
      rw [hstart, h.len_eq]
      exact ⟨rfl, hge, Store.slot_lt hv⟩
    · rw [h.outcome_isValid t o hsound, hplain]
    · rw [h.outcome_tryGet t o hsound, hget]
    · rintro n rfl
      rw [Arena.tryGetMut_eq_tryGet, Arena.tryGet_eq (h.singles n) hsound, hget]
  · exact (h.singles n).mirror

/-- A reset ends at the destructor of slot 1.  The value of slot 0 stays under the new
stamp, so of its two handles the old one is refused. -/
theorem validation_is_plain_interrupted :
    let tgt : Target := ⟨8, fun _ => true⟩
    let es : List (Event Nat) := [.alone 0 0 (.allocBlock ⟨[5, 6, 7], false⟩),
      .alone 0 0 (.reset fun slot _ => slot == 1), .alone 0 0 .iterIndexed]
    let w : World tgt Nat := initial.run es
    w.outcome 1 (.shared 0) (.isValid ⟨.nth 0, 0⟩) = .ok (.valid false) ∧
      w.outcome 1 (.shared 0) (.tryGet ⟨.nth 1, 0⟩) = .ok (.value (some 5)) ∧
      w.currentStart (.shared 0) ≤ 0 := by
  intro tgt es w
  have hissued : issuedOver (.shared 0) (initial : World tgt Nat) es
      = [⟨.nth 0, 0⟩, ⟨.nth 0, 1⟩, ⟨.nth 0, 2⟩, ⟨.nth 1, 0⟩] := by decide +kernel
  have hcontents : w.contents (.shared 0) = [5] := by decide +kernel
  obtain ⟨-, hold, -⟩ := (@validation_is_plain tgt Nat es).1 (.shared 0) (.shared 0) ⟨.nth 0, 0⟩
    (hissued ▸ by decide)
  obtain ⟨hcur, hnew, -⟩ := (@validation_is_plain tgt Nat es).1 (.shared 0) (.shared 0) ⟨.nth 1, 0⟩
    (hissued ▸ by decide)
  have hfalse : w.plainRule (.shared 0) ⟨.nth 0, 0⟩ = false := by decide +kernel
  have htrue : w.plainRule (.shared 0) ⟨.nth 1, 0⟩ = true := by decide +kernel
  refine ⟨?_, ?_, (hcur (by decide +kernel)).2.1⟩
  · rw [(hold 1).1, hfalse]
  · rw [(hnew 1).2, htrue, hcontents]
    rfl

end World

end SafeBump
