import SafeBump.Custody
import SafeBump.WorldStores

/-!
# Values are conserved

Every value moved into an arena is in exactly one place from then on: in a slot,
in the frame of a call under way, dropped, or handed out by a drain.  The account
is kept in multisets.  One event balances it (`World.Stores.step_conserves`), so a
run does (`World.values_are_conserved`), wherever destructors panic on the way
and whether or not the caller tries again.

Writing to a value in place makes another value of it, so the account is of runs
without such writes.
-/

namespace SafeBump

variable {tgt : Target} {T : Type}

namespace World

/-- The event writes to the values of an arena in place. -/
def Event.Writes (o : Owner) : Event T → Prop
  | .single (.write n _) => o = .single n
  | _ => False

section Account

variable (w : World tgt T) (o : Owner)

/-- The values an event moves into an arena. -/
def moved : Event T → List T
  | .single (.request _ n req) => if o = .single n then req.moved else []
  | .start n _ ask => if o = .shared n then ask.values else []
  | .alone _ n req => if o = .shared n ∧ (w.shareds n).quiet then req.moved else []
  | _ => []

/-- The values an event hands out of an arena for good. -/
def yielded : Event T → List T
  | .single (.request t n req) => if o = .single n then handedOut (w.outcome t o req) else []
  | .alone t n req =>
      if o = .shared n ∧ (w.shareds n).quiet then handedOut (w.outcome t o req) else []
  | _ => []

end Account

/-- The values an arena and the calls under way on it have. -/
def holding (w : World tgt T) : Owner → List T
  | .single n => (w.process.arenas n).items
  | .shared n => (w.shareds n).arena.stored ++ (w.shareds n).owned

/-- The values a run moves into an arena. -/
def movedOver (o : Owner) : World tgt T → List (Event T) → List T
  | _, [] => []
  | w, e :: es => w.moved o e ++ movedOver o (w.step e) es

/-- The values a run hands out of an arena for good. -/
def yieldedOver (o : Owner) : World tgt T → List (Event T) → List T
  | _, [] => []
  | w, e :: es => w.yielded o e ++ yieldedOver o (w.step e) es

section Step

variable {w : World tgt T} {stores : Owner → Store T}

/-- Between calls the slots have all there is. -/
theorem Stores.holding_eq (h : w.Stores stores) {o : Owner} (hquiet : w.quiet o = true) :
    w.holding o = w.contents o := by
  cases o with
  | single n => rfl
  | shared n =>
      obtain ⟨items, hl⟩ := h.ordered n
      have howned : (w.shareds n).owned = [] := Shared.owned_of_quiet hquiet
      rw [holding, howned, List.append_nil, hl.stored_eq hquiet, contents]

/-- An event that is not about an arena changes nothing there. -/
theorem step_of_ne (w : World tgt T) {o : Owner} {e : Event T} (h : e.owner ≠ some o) :
    (w.step e).holding o = w.holding o ∧ (w.step e).dropped o = w.dropped o ∧
      w.moved o e = [] ∧ w.yielded o e = [] := by
  have hne : ∀ {o' : Owner}, some o' ≠ some o → o ≠ o' := fun h he => h (he ▸ rfl)
  have hnone : w.moved o e = [] ∧ w.yielded o e = [] := by
    cases e with
    | single e =>
        cases e with
        | request t n req => exact ⟨if_neg (hne h), if_neg (hne h)⟩
        | write n f => exact ⟨rfl, rfl⟩
        | draw t => exact ⟨rfl, rfl⟩
        | exit t => exact ⟨rfl, rfl⟩
    | start n t ask => exact ⟨if_neg (hne h), rfl⟩
    | step n i mishap => exact ⟨rfl, rfl⟩
    | alone t n req =>
        have hno : ¬ (o = .shared n ∧ (w.shareds n).quiet = true) := fun he => hne h he.1
        exact ⟨if_neg hno, if_neg hno⟩
  cases o with
  | single n =>
      obtain ⟨harena, hdropped⟩ := w.singles_step_of_ne h
      exact ⟨congrArg Arena.items harena, hdropped, hnone⟩
  | shared n =>
      have hs := w.shareds_step_of_ne h
      refine ⟨?_, congrArg Shared.dropped hs, hnone⟩
      rw [holding, holding, hs]

/-- A request balances the account of its arena. -/
theorem Stores.request_conserves (hall : ∀ k, tgt.allocates k = true) (h : w.Stores stores)
    (t : ThreadId) (o : Owner) (req : Request T) (hquiet : w.quiet o = true) :
    (w.holding o + w.dropped o + req.moved : Multiset T)
      = (w.step (.request t o req)).holding o + (w.step (.request t o req)).dropped o
        + handedOut (w.outcome t o req) := by
  obtain ⟨stores', hf⟩ := h.follows hall (.request t o req)
  have hconserved := (hf.served t o req rfl hquiet).conserved
  rw [h.holding_eq hquiet, h.contents_eq, hf.stores.holding_eq (w.quiet_step_request t req hquiet),
    hf.kept.contents_eq]
  simpa only [Multiset.coe_add] using Multiset.coe_eq_coe.mpr hconserved

theorem start_conserves (w : World tgt T) (n : Nat) (t : ThreadId) (ask : Ask T) :
    (w.holding (.shared n) + w.dropped (.shared n) + ask.values : Multiset T)
      = (w.step (.start n t ask)).holding (.shared n)
        + (w.step (.start n t ask)).dropped (.shared n) := by
  rw [World.step, holding, holding, dropped_put_self, shareds_put_self, Shared.owned_start,
    show ((w.shareds n).start t ask).arena = (w.shareds n).arena from rfl,
    show ((w.shareds n).start t ask).dropped = w.dropped (.shared n) from rfl]
  simp only [← Multiset.coe_add]
  abel

theorem Stores.call_conserves (hall : ∀ k, tgt.allocates k = true) (h : w.Stores stores) {n : Nat}
    (hbare : (w.shareds n).Bare) (i : Nat) (mishap : Bool) :
    (w.holding (.shared n) + w.dropped (.shared n) : Multiset T)
      = (w.step (.step n i mishap)).holding (.shared n)
        + (w.step (.step n i mishap)).dropped (.shared n) := by
  rw [World.step]
  split
  · rfl
  · rename_i c hc
    obtain ⟨items, hl⟩ := h.ordered n
    have hcall := hl.step_conserves hall hbare i (w.answer c).1 mishap
    rw [holding, holding, dropped_put_self, shareds_put_self, dropped, ← Multiset.coe_add,
      ← Multiset.coe_add]
    exact hcall

/-- An event moves values in, moves them about and hands them out. -/
theorem Stores.step_conserves (hall : ∀ k, tgt.allocates k = true) (h : w.Stores stores)
    (hbare : ∀ n, (w.shareds n).Bare) (o : Owner) {e : Event T} (hw : ¬ e.Writes o) :
    (w.holding o + w.dropped o + w.moved o e : Multiset T)
      = (w.step e).holding o + (w.step e).dropped o + w.yielded o e := by
  have hsame : w.step e = w → w.moved o e = [] → w.yielded o e = [] →
      (w.holding o + w.dropped o + w.moved o e : Multiset T)
        = (w.step e).holding o + (w.step e).dropped o + w.yielded o e := by
    intro hs hm hy
    rw [hs, hm, hy]
  by_cases howner : e.owner = some o
  · cases e with
    | single e =>
        cases e with
        | request t n req =>
            cases howner
            have hm : w.moved (.single n) (.single (.request t n req)) = req.moved := if_pos rfl
            have hy : w.yielded (.single n) (.single (.request t n req))
                = handedOut (w.outcome t (.single n) req) := if_pos rfl
            rw [hm, hy]
            exact h.request_conserves hall t (.single n) req rfl
        | write n f =>
            cases howner
            exact absurd rfl hw
        | draw t => cases howner
        | exit t => cases howner
    | start n t ask =>
        cases howner
        have hm : w.moved (.shared n) (.start n t ask) = ask.values := if_pos rfl
        have hy : w.yielded (.shared n) (.start n t ask) = [] := rfl
        rw [hm, hy, Multiset.coe_nil, add_zero]
        exact w.start_conserves n t ask
    | step n i mishap =>
        cases howner
        have hm : w.moved (.shared n) (.step n i mishap) = [] := rfl
        have hy : w.yielded (.shared n) (.step n i mishap) = [] := rfl
        rw [hm, hy, Multiset.coe_nil, add_zero, add_zero]
        exact h.call_conserves hall (hbare n) i mishap
    | alone t n req =>
        cases howner
        rcases Bool.eq_false_or_eq_true (w.shareds n).quiet with hquiet | hbusy
        · have hm : w.moved (.shared n) (.alone t n req) = req.moved := if_pos ⟨rfl, hquiet⟩
          have hy : w.yielded (.shared n) (.alone t n req)
              = handedOut (w.outcome t (.shared n) req) := if_pos ⟨rfl, hquiet⟩
          rw [hm, hy]
          exact h.request_conserves hall t (.shared n) req hquiet
        · have hno : ¬ (Owner.shared n = .shared n ∧ (w.shareds n).quiet = true) := fun he =>
            Bool.false_ne_true (hbusy.symm.trans he.2)
          refine hsame ?_ (if_neg hno) (if_neg hno)
          rw [World.step, if_neg (Bool.eq_false_iff.mp hbusy)]
  · obtain ⟨hholding, hdropped, hmoved, hyielded⟩ := w.step_of_ne howner
    rw [hholding, hdropped, hmoved, hyielded]

/-- What is dropped stays dropped. -/
theorem Stores.dropped_step (hall : ∀ k, tgt.allocates k = true) (h : w.Stores stores) (o : Owner)
    (e : Event T) : w.dropped o <+: (w.step e).dropped o := by
  have hrequest : ∀ (t : ThreadId) (req : Request T), w.quiet o = true →
      w.dropped o <+: (w.step (.request t o req)).dropped o := by
    intro t req hquiet
    obtain ⟨stores', hf⟩ := h.follows hall (.request t o req)
    exact (hf.served t o req rfl hquiet).grown
  by_cases howner : e.owner = some o
  · cases e with
    | single e =>
        cases e with
        | request t n req =>
            cases howner
            exact hrequest t req rfl
        | write n f =>
            cases howner
            have hframe := (Arena.write_frame f (w.process.ctx n)).2
            have hdropped : (w.step (.single (.write n f))).dropped (.single n)
              = w.dropped (.single n) :=
              (w.process.dropped_put_self n _).trans hframe
            rw [hdropped]
        | draw t => cases howner
        | exit t => cases howner
    | start n t ask =>
        cases howner
        rw [World.step, dropped_put_self]
        exact List.prefix_refl _
    | step n i mishap =>
        cases howner
        rw [World.step]
        split
        · exact List.prefix_refl _
        · rename_i c hc
          rw [dropped_put_self, Shared.dropped_step hc]
          exact List.prefix_append _ _
    | alone t n req =>
        cases howner
        rcases Bool.eq_false_or_eq_true (w.shareds n).quiet with hquiet | hbusy
        · exact hrequest t req hquiet
        · rw [World.step, if_neg (Bool.eq_false_iff.mp hbusy)]
  · rw [(w.step_of_ne howner).2.1]

theorem bare_step (h : ∀ n, (w.shareds n).Bare) (e : Event T) (n : Nat) :
    ((w.step e).shareds n).Bare :=
  w.forall_calls_step (fun ask => ask.start_bare.1)
    (fun _ answer mishap a _ hb => Ask.move_bare answer mishap a hb) h e n

/-- A run balances the account of every arena it writes to only through requests. -/
theorem Stores.run_conserves (hall : ∀ k, tgt.allocates k = true) (h : w.Stores stores)
    (hbare : ∀ n, (w.shareds n).Bare) (o : Owner) {es : List (Event T)}
    (hes : ∀ e ∈ es, ¬ e.Writes o) :
    (w.holding o + w.dropped o + movedOver o w es : Multiset T)
      = (w.run es).holding o + (w.run es).dropped o + yieldedOver o w es := by
  induction es generalizing w stores with
  | nil => rfl
  | cons e es ih =>
      obtain ⟨he, hes⟩ := List.forall_mem_cons.mp hes
      obtain ⟨stores', hf⟩ := h.follows hall e
      have hstep := h.step_conserves hall hbare o he
      have hrest := ih hf.stores (bare_step hbare e) hes
      rw [movedOver, yieldedOver, run_cons, ← Multiset.coe_add, ← Multiset.coe_add]
      calc (w.holding o + w.dropped o + (w.moved o e + movedOver o (w.step e) es) : Multiset T)
          = (w.holding o + w.dropped o + w.moved o e) + movedOver o (w.step e) es := by abel
        _ = ((w.step e).holding o + (w.step e).dropped o + movedOver o (w.step e) es)
              + w.yielded o e := by
            rw [hstep]
            abel
        _ = _ := by
            rw [hrest]
            abel

end Step

/-- Every value moved into an arena is in one place: with the arena and the calls
under way on it, dropped, or handed out.  Between calls the arena has the values of
its slots and counts exactly them, and whatever is going on no slot beyond those
reserved holds a value. -/
theorem values_are_conserved (hall : ∀ k, tgt.allocates k = true) (o : Owner) (es : List (Event T))
    (hes : ∀ e ∈ es, ¬ e.Writes o) :
    let w₀ : World tgt T := initial
    let w := w₀.run es
    (movedOver o w₀ es : Multiset T) = w.holding o + w.dropped o + yieldedOver o w₀ es ∧
      (w.quiet o = true →
        (movedOver o w₀ es : Multiset T) = w.contents o + w.dropped o + yieldedOver o w₀ es ∧
        w.len o = (w.contents o).length) ∧
      ∀ n, o = .shared n →
        (∀ slot, (w.shareds n).arena.reserved ≤ slot →
          (w.shareds n).arena.storage.slots slot = none) ∧
        (w.quiet o = true → (w.shareds n).arena.reserved = (w.contents o).length ∧
          ∀ slot, (w.shareds n).arena.storage.slots slot = (w.contents o)[slot]?) := by
  intro w₀ w
  have h₀ : w₀.Stores fun _ => .unused := Stores.initial
  have hrun := h₀.run_conserves hall (fun n c hc => by cases hc) o hes
  have hstart : w₀.holding o = [] ∧ w₀.dropped o = [] := by
    cases o <;> exact ⟨rfl, rfl⟩
  rw [hstart.1, hstart.2, Multiset.coe_nil, zero_add, zero_add] at hrun
  obtain ⟨stores, h, -⟩ := h₀.run hall es
  refine ⟨hrun, fun hquiet => ⟨?_, ?_⟩, ?_⟩
  · rw [← h.holding_eq hquiet]
    exact hrun
  · rw [h.contents_eq]
    exact h.len_eq o
  · rintro n rfl
    obtain ⟨items, hl⟩ := h.ordered n
    refine ⟨hl.above, fun hquiet => ?_⟩
    have hholds := (hl.holds hquiet).1
    exact ⟨hholds.reserved, hholds.filled⟩

/-- The reset drops the two highest of three values and ends early.  Nobody tries
again: a call puts a value in, and a drain hands out what is there. -/
theorem values_are_conserved_interrupted :
    let tgt : Target := ⟨8, fun _ => true⟩
    let w₀ : World tgt Nat := initial
    let es : List (Event Nat) := [.alone 0 0 (.allocBlock ⟨[5, 6, 7], false⟩),
        .alone 0 0 (.reset fun slot _ => slot == 1), .start 0 1 (.alloc 8)] ++
      List.replicate 7 (.step 0 0 false) ++ [.alone 0 0 .drain, .alone 0 0 (.alloc 9)]
    (w₀.run es).dropped (.shared 0) = [7, 6] ∧ yieldedOver (.shared 0) w₀ es = [5, 8] ∧
      (([5, 6, 7, 8, 9] : List Nat) : Multiset Nat) = (w₀.run es).contents (.shared 0)
        + (w₀.run es).dropped (.shared 0) + yieldedOver (.shared 0) w₀ es := by
  intro tgt w₀ es
  have hes : ∀ e ∈ es, ¬ e.Writes (.shared 0) := by
    intro e he
    simp only [es, List.mem_append, List.mem_cons, List.mem_replicate, List.not_mem_nil,
      or_false] at he
    rcases he with ((rfl | rfl | rfl) | ⟨-, rfl⟩) | (rfl | rfl) <;> exact id
  have hmoved : movedOver (.shared 0) w₀ es = [5, 6, 7, 8, 9] := by decide +kernel
  have hquiet : (w₀.run es).quiet (.shared 0) = true := by decide +kernel
  have h := ((values_are_conserved (fun _ => rfl) (.shared 0) es hes).2.1 hquiet).1
  rw [hmoved] at h
  exact ⟨by decide +kernel, by decide +kernel, h⟩

end World

end SafeBump
