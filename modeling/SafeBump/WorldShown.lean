import SafeBump.Capabilities
import SafeBump.SharedShown
import SafeBump.World

/-!
# What the arenas of a process show

A run is followed by one store for each arena of either kind (`World.Shows`), on any machine
and whatever fails on the way.  A stamp belongs to the store it marks, or to the arena one of
whose calls has just drawn it, and to no other.  One event extends the stores by what it is
meant to do (`World.Shows.moves`), and so does a run (`World.Shows.run`).
-/

namespace SafeBump

open Library.Unwind

variable {tgt : Target} {T : Type}

namespace World

/-- The stamps of an arena. -/
def marks (w : World tgt T) (stores : Owner → Store T) : Owner → List Stamp
  | .single n => (stores (.single n)).marks
  | .shared n => (stores (.shared n)).marks ++ (w.shareds n).held

/-- What the arenas of a process show. -/
structure Shows (w : World tgt T) (stores : Owner → Store T) : Prop where
  intact : w.Intact
  shares : w.process.stamps.Shares (w.marks stores)
  singles : ∀ n, Arena.Models tgt (w.process.arenas n) (stores (.single n))
  shareds : ∀ n, (w.shareds n).Shows (stores (.shared n))

/-- The event `e` moves on what is shown, and what it delivers is good.  A request that has
nothing to store does to what is shown what it does to a store. -/
structure Moves (w : World tgt T) (stores : Owner → Store T) (e : Event T)
    (stores' : Owner → Store T) : Prop where
  kept : (w.step e).Shows stores'
  extended : ∀ o, (stores o).Extends (w.changes o e) (stores' o)
  issued : ∀ o reply, w.reply e = some (o, reply) →
    (∀ idx ∈ reply.issued tgt, (stores' o).isValid idx = true) ∧
      ∀ cp, reply = .checkpoint cp → (stores' o).validateCheckpoint cp = .ok ()
  plain : ∀ t o req, e = .request t o req → w.quiet o = true → req.stored = [] →
    Store.Served tgt (StampSpace.fresh t) req ⟨stores o, w.process.stamps, w.dropped o⟩
      (w.outcome t o req) ⟨stores' o, (w.step e).process.stamps, (w.step e).dropped o⟩

theorem marks_subset (w : World tgt T) (stores : Owner → Store T) (o : Owner) {s : Stamp}
    (hs : s ∈ (stores o).marks) : s ∈ w.marks stores o := by
  cases o with
  | single n => exact hs
  | shared n => exact List.mem_append_left _ hs

/-- New stores for the single-thread arenas. -/
def withSingles (stores : Owner → Store T) (new : Nat → Store T) : Owner → Store T
  | .single n => new n
  | .shared n => stores (.shared n)

theorem extends_update {stores : Owner → Store T} (cs : Owner → List (Change T)) {n : Nat}
    {st : Store T}
    (hst : (stores (.shared n)).Extends (cs (.shared n)) st)
    (hother : ∀ o, o ≠ .shared n → cs o = []) (o : Owner) :
    (stores o).Extends (cs o) (Function.update stores (.shared n) st o) := by
  rcases eq_or_ne o (.shared n) with rfl | hne
  · rwa [Function.update_self]
  · rw [Function.update_of_ne hne, hother o hne]
    exact .refl _

namespace Shows

theorem initial : (initial : World tgt T).Shows fun _ => .unused where
  intact := .initial
  shares := by
    have hmarks : (World.initial : World tgt T).marks (fun _ => .unused) = fun _ => [] := by
      funext o
      cases o <;> rfl
    rw [hmarks]
    exact .initial
  singles := fun _ => .unused
  shareds := fun _ => .idle_new

variable {w : World tgt T} {stores : Owner → Store T}

theorem ok (h : w.Shows stores) (o : Owner) : (stores o).Ok := by
  cases o with
  | single n => exact (h.singles n).ok
  | shared n => exact (h.shareds n).shown.ok

/-- No stamp marks two stores. -/
theorem apart (h : w.Shows stores) {o o' : Owner} {s : Stamp} (hs : s ∈ (stores o).marks)
    (hs' : s ∈ (stores o').marks) : o = o' :=
  h.shares.apart o o' s (w.marks_subset stores o hs) (w.marks_subset stores o' hs')

/-- Only the concurrent arena an event is about has to be looked at. -/
theorem put (h : w.Shows stores) {n : Nat} {stamps : StampSpace} {s : Shared tgt T}
    {st : Store T} (hi : (w.put n stamps s).Intact) (hs : s.Shows st) {drawn : Option Stamp}
    (hspends : w.process.stamps.Spends drawn stamps)
    (hmarks : ∀ x ∈ st.marks ++ s.held, x ∈ w.marks stores (.shared n) ∨ drawn = some x) :
    (w.put n stamps s).Shows (Function.update stores (.shared n) st) where
  intact := hi
  shares := by
    refine h.shares.spends hspends (.shared n) fun o x hx => ?_
    cases o with
    | single m => exact .inl hx
    | shared m =>
        rcases eq_or_ne m n with rfl | hne
        · rw [marks, Function.update_self, shareds_put_self] at hx
          exact (hmarks x hx).imp_right fun hd => ⟨rfl, hd⟩
        · have hne' : Owner.shared m ≠ .shared n := fun he => hne (Owner.shared.inj he)
          rw [marks, Function.update_of_ne hne', w.shareds_put_of_ne hne] at hx
          exact .inl hx
  singles := h.singles
  shareds := by
    intro m
    rcases eq_or_ne m n with rfl | hne
    · rwa [Function.update_self, shareds_put_self]
    · have hne' : Owner.shared m ≠ .shared n := fun he => hne (Owner.shared.inj he)
      rw [Function.update_of_ne hne', w.shareds_put_of_ne hne]
      exact h.shareds m

/-! ### Events -/

/-- A single-thread arena serves every request as its store does. -/
theorem moves_single (h : w.Shows stores) (e : SafeBump.Event T) :
    ∃ stores', w.Moves stores (.single e) stores' ∧ ∀ t n req, e = .request t n req →
      Store.Served tgt (StampSpace.fresh t) req
        ⟨stores (.single n), w.process.stamps, w.dropped (.single n)⟩
        (w.outcome t (.single n) req) ⟨stores' (.single n), (w.step (.single e)).process.stamps,
          (w.step (.single e)).dropped (.single n)⟩ := by
  obtain ⟨new, hf⟩ := Process.exists_follows h.singles h.shares.ok
    (fun n => h.shares.used (.single n)) e
  obtain ⟨drawn, n₀, hspends, hmarks⟩ := hf.marks
  refine ⟨withSingles stores new,
    ⟨⟨h.intact.step _, ?_, hf.models, h.shareds⟩, fun o => ?_, ?_, ?_⟩,
    fun t n req he => ?_⟩
  · refine h.shares.spends hspends (.single n₀) fun o s hs => ?_
    cases o with
    | single n => exact (hmarks n s hs).imp_right fun hd => ⟨congrArg _ hd.1, hd.2⟩
    | shared n => exact .inl hs
  · cases o with
    | single n => exact hf.extended n
    | shared n => exact .refl _
  · intro o r hr
    obtain ⟨⟨n, r'⟩, hr', he⟩ := Option.map_eq_some_iff.mp hr
    cases he
    exact ⟨hf.issued n r' hr', fun cp hcp => hf.captured n cp (hcp ▸ hr')⟩
  · intro t o req he _ _
    cases o with
    | single n =>
        cases he
        exact hf.served t n req rfl
    | shared n => cases he
  · cases he
    exact hf.served t n req rfl

theorem moves_start (h : w.Shows stores) (n : Nat) (t : ThreadId) (ask : Ask T) :
    ∃ stores', w.Moves stores (.start n t ask) stores' := by
  refine ⟨_, h.put (h.intact.step (.start n t ask)) ((h.shareds n).start t ask)
    (.refl h.shares.ok) (fun x hx => ?_), ?_, by intros; contradiction, fun t o req he => ?_⟩
  · rw [Shared.held_start] at hx
    exact .inl hx
  · exact extends_update (fun _ => []) (.refl _) fun _ _ => rfl
  · cases o <;> cases he

theorem moves_step (h : w.Shows stores) (n i : Nat) (mishap : Bool) :
    ∃ stores', w.Moves stores (.step n i mishap) stores' := by
  have hi := h.intact.step (.step n i mishap)
  cases hc : (w.shareds n).calls[i]? with
  | none =>
      have hstep : w.step (.step n i mishap) = w := by rw [World.step, hc]
      have hreply : w.reply (.step n i mishap) = none := by rw [World.reply, hstep, hc]
      refine ⟨stores, ?_, fun o => .refl _, fun o r hr => ?_, fun t o req he => ?_⟩
      · rwa [hstep]
      · cases hreply.symm.trans hr
      · cases o <;> cases he
  | some c =>
      obtain ⟨hspends, hans⟩ := answer_spends h.shares.ok c
      obtain ⟨st, hst, hg, hmarks, hheld⟩ := (h.shareds n).step i hans mishap
      have hstep : w.step (.step n i mishap)
          = w.put n (w.answer c).2 ((w.shareds n).step i (w.answer c).1 mishap) := by
        rw [World.step, hc]
      rw [hstep] at hi
      have hput := h.put hi hst hspends fun x hx => by
        rcases List.mem_append.mp hx with hx | hx
        · exact .inl (List.mem_append.mpr (hmarks x hx))
        · rcases hheld x hx with hx | hx
          · exact .inl (List.mem_append_right _ hx)
          · exact .inr (by rw [hx]; rfl)
      refine ⟨Function.update stores (.shared n) st, ?_, ?_, fun o r hr => ?_,
        fun t o req he => ?_⟩
      · rw [hstep]
        exact hput
      · exact extends_update (fun _ => []) hg.extends fun _ _ => rfl
      · rw [World.reply, hstep, shareds_put_self] at hr
        split at hr
        · rename_i hcall
          cases hr
          rw [Function.update_self]
          exact hst.returned hcall rfl
        · cases hr
      · cases o <;> cases he

/-- A read is answered while calls are under way, and changes nothing. -/
theorem moves_busy (h : w.Shows stores) (t : ThreadId) {n : Nat} (req : Request T)
    (hbusy : (w.shareds n).quiet = false) : w.Moves stores (.alone t n req) stores := by
  have hstep : w.step (.alone t n req) = w := by
    rw [World.step, hbusy]
    rfl
  refine ⟨?_, fun o => ?_, fun o r hr => ?_, fun t' o req' he hquiet => ?_⟩
  · rw [hstep]
    exact h
  · have hnone : w.changes o (.alone t n req) = [] := by
      rw [changes, hbusy]
      exact if_neg fun hq => by cases hq.2
    rw [hnone]
    exact .refl _
  · obtain ⟨hquiet | hreads, rfl, ho⟩ := reply_alone hr
    · cases hbusy.symm.trans hquiet
    · exact (h.shareds n).shown.read hreads (eq_ok_of_ending ho)
  · cases o with
    | single m => cases he
    | shared m =>
        cases he
        cases hbusy.symm.trans hquiet

/-- Between calls a request moves on what its arena shows as it moves on the store `st`. -/
theorem moves_of_alone (h : w.Shows stores) {t : ThreadId} {n : Nat} {req : Request T}
    (hquiet : (w.shareds n).quiet = true) {st : Store T}
    (hmove : Store.Step (StampSpace.fresh t) (stores (.shared n), w.process.stamps)
      (committed req (w.outcome t (.shared n) req)) (st, (left (w.served t n req)).source))
    (hst : (left (w.served t n req)).arena.Shows st)
    (hok : ∀ reply, w.outcome t (.shared n) req = .ok reply →
      (∀ idx ∈ reply.issued tgt, st.isValid idx = true) ∧
        ∀ cp, reply = .checkpoint cp → st.validateCheckpoint cp = .ok ())
    (hplain : req.stored = [] → Store.Served tgt (StampSpace.fresh t) req
      ⟨stores (.shared n), w.process.stamps, w.dropped (.shared n)⟩ (w.outcome t (.shared n) req)
      ⟨st, (left (w.served t n req)).source, (left (w.served t n req)).dropped⟩) :
    w.Moves stores (.alone t n req) (Function.update stores (.shared n) st) := by
  have hi := h.intact.step (.alone t n req)
  obtain ⟨drawn, hspends, hmarks⟩ := hmove.spends h.shares.ok
  have hstep : w.step (.alone t n req) = w.put n (left (w.served t n req)).source
      ⟨(left (w.served t n req)).arena, [], (left (w.served t n req)).dropped⟩ := by
    rw [World.step, hquiet]
    rfl
  rw [hstep] at hi
  have hshared := hi.shareds n
  rw [shareds_put_self] at hshared
  have hput := h.put hi (.of_shown hshared hst) hspends fun x hx => by
    rw [show Shared.held _ = [] from rfl, List.append_nil] at hx
    exact (hmarks x hx).imp_left fun hx => w.marks_subset stores _ hx
  refine ⟨?_, ?_, fun o r hr => ?_, fun t' o req' he _ hnil => ?_⟩
  · rw [hstep]
    exact hput
  · refine extends_update (fun o => w.changes o (.alone t n req)) ?_ fun o ho => ?_
    · rw [changes, if_pos ⟨rfl, hquiet⟩]
      exact .of_step hmove
    · exact if_neg fun hq => ho hq.1
  · obtain ⟨-, rfl, ho⟩ := reply_alone hr
    rw [Function.update_self]
    exact hok r ho
  · cases o with
    | single m => cases he
    | shared m =>
        cases he
        rw [Function.update_self, hstep, dropped_put_self]
        exact hplain hnil

theorem moves_alone (h : w.Shows stores) (t : ThreadId) (n : Nat) (req : Request T) :
    ∃ stores', w.Moves stores (.alone t n req) stores' := by
  cases hquiet : (w.shareds n).quiet with
  | false => exact ⟨stores, h.moves_busy t req hquiet⟩
  | true =>
      have hnew : ∀ s sp, w.process.stamps.fresh t = (.ok s, sp) → s ∉ (stores (.shared n)).marks :=
        fun s sp hf hs => h.shares.fresh_notMem hf (.shared n) (w.marks_subset stores _ hs)
      have hsrc : ∀ p sp, w.process.stamps.fresh t = (.error p, sp) → p = .stampSpaceExhausted :=
        fun p sp hf => (StampSpace.fresh_error h.shares.ok hf).1
      obtain ⟨st, hmove, hst, hok, hplain⟩ := (h.shareds n).shown.request
        ((h.intact.shareds n).sane hquiet) hnew hsrc req (w.shareds n).dropped
      exact ⟨_, h.moves_of_alone hquiet hmove hst hok hplain⟩

/-- Every event moves on what is shown. -/
theorem moves (h : w.Shows stores) (e : Event T) : ∃ stores', w.Moves stores e stores' := by
  cases e with
  | single e =>
      obtain ⟨stores', hm, -⟩ := h.moves_single e
      exact ⟨stores', hm⟩
  | start n t ask => exact h.moves_start n t ask
  | step n i mishap => exact h.moves_step n i mishap
  | alone t n req => exact h.moves_alone t n req

/-- A run extends what each arena shows by what it did to that arena. -/
theorem run (h : w.Shows stores) (es : List (Event T)) :
    ∃ stores', (w.run es).Shows stores' ∧
      ∀ o, (stores o).Extends (changesOver o w es) (stores' o) := by
  induction es generalizing w stores with
  | nil => exact ⟨stores, h, fun o => .refl _⟩
  | cons e es ih =>
      obtain ⟨stores₁, hm⟩ := h.moves e
      obtain ⟨stores₂, h₂, hext⟩ := ih hm.kept
      exact ⟨stores₂, h₂, fun o => (hm.extended o).trans (hext o)⟩

/-! ### What is asked of the arenas -/

theorem contents_eq (h : w.Shows stores) (o : Owner) : w.contents o = (stores o).values := by
  cases o with
  | single n => exact (h.singles n).items
  | shared n => exact (h.shareds n).shown.values.symm

theorem len_eq (h : w.Shows stores) (o : Owner) : w.len o = (stores o).values.length := by
  cases o with
  | single n => exact congrArg List.length (h.singles n).items
  | shared n => exact (h.shareds n).shown.length_values.symm

theorem outcome_isValid (h : w.Shows stores) (t : ThreadId) (o : Owner) {idx : Idx}
    (hs : (stores o).Sound idx) :
    w.outcome t o (.isValid idx) = .ok (.valid ((stores o).isValid idx)) := by
  cases o with
  | single n =>
      have hv := Arena.isValid_eq (h.singles n) hs
      exact congrArg (fun v => Except.ok (Reply.valid v)) hv
  | shared n =>
      obtain ⟨b, hrun, -, hb⟩ := (h.shareds n).shown.run_isValid (StampSpace.fresh t) idx
        w.process.stamps (w.shareds n).dropped
      rw [outcome, served, SharedArena.serve, ending_run_map, hrun, hb hs]
      rfl

theorem outcome_tryGet (h : w.Shows stores) (t : ThreadId) (o : Owner) {idx : Idx}
    (hs : (stores o).Sound idx) :
    w.outcome t o (.tryGet idx) = .ok (.value ((stores o).tryGet idx)) := by
  cases o with
  | single n =>
      have hv := Arena.tryGet_eq (h.singles n) hs
      exact congrArg (fun v => Except.ok (Reply.value v)) hv
  | shared n =>
      obtain ⟨v, hrun, hv⟩ := (h.shareds n).shown.run_tryGet (StampSpace.fresh t) idx
        w.process.stamps (w.shareds n).dropped
      rw [outcome, served, SharedArena.serve, ending_run_map, hrun, hv hs]
      rfl

/-- A request to a single-thread arena is served as by the store. -/
theorem outcome_single (h : w.Shows stores) (t : ThreadId) {n : Nat} {req : Request T}
    (hs : ∀ idx, req.asked = some idx → (stores (.single n)).Sound idx) :
    let r := (Store.serve tgt (StampSpace.fresh t) req).run
      ⟨stores (.single n), w.process.stamps, w.dropped (.single n)⟩
    w.outcome t (.single n) req = ending r ∧
      (w.step (.request t (.single n) req)).contents (.single n) = (left r).arena.values ∧
      (w.step (.request t (.single n) req)).dropped (.single n) = (left r).dropped := by
  intro r
  have hnew : ∀ s sp, w.process.stamps.fresh t = (.ok s, sp) → s ∉ (stores (.single n)).marks :=
    fun s sp hf hs => h.shares.fresh_notMem hf (.single n) (w.marks_subset stores _ hs)
  have href := Arena.serve_refines (h.singles n) hnew hs (w.process.dropped n)
  obtain ⟨hm, -, hd⟩ := href.left
  refine ⟨href.ending, ?_, ?_⟩
  · refine Eq.trans ?_ hm.items
    show ((w.process.put n _).arenas n).items = _
    rw [Process.arenas_put_self]
    rfl
  · refine Eq.trans ?_ hd
    show (w.process.put n _).dropped n = _
    rw [Process.dropped_put_self]
    rfl

/-- Between calls a request that has nothing to store is served as by the store, on any
machine. -/
theorem outcome_plain (h : w.Shows stores) {o : Owner} (hquiet : w.quiet o = true) (t : ThreadId)
    {req : Request T} (hreq : req.stored = [])
    (hs : ∀ idx, req.asked = some idx → (stores o).Sound idx) :
    let r := (Store.serve tgt (StampSpace.fresh t) req).run
      ⟨stores o, w.process.stamps, w.dropped o⟩
    w.outcome t o req = ending r ∧
      (w.step (.request t o req)).contents o = (left r).arena.values ∧
      (w.step (.request t o req)).dropped o = (left r).dropped := by
  intro r
  cases o with
  | single n => exact h.outcome_single t hs
  | shared n =>
      have hnew : ∀ s sp, w.process.stamps.fresh t = (.ok s, sp) → s ∉ (stores (.shared n)).marks :=
        fun s sp hf hs => h.shares.fresh_notMem hf (.shared n) (w.marks_subset stores _ hs)
      have hsim := (h.shareds n).shown.serve ((h.intact.shareds n).sane hquiet) hnew hreq hs
        (w.shareds n).dropped
      obtain ⟨hm, -, -, hd⟩ := hsim.left
      have hstep : w.step (.request t (.shared n) req) = w.put n (left (w.served t n req)).source
          ⟨(left (w.served t n req)).arena, [], (left (w.served t n req)).dropped⟩ := if_pos hquiet
      rw [hstep, contents, dropped_put_self, shareds_put_self]
      exact ⟨hsim.ending, hm.values.symm, hd⟩

end Shows

end World

end SafeBump
