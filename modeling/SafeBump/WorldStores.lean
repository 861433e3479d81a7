import SafeBump.WorldShown

/-!
# What the arenas of a process hold

Where there is memory for every chunk a concurrent arena holds no more than its calls account
for: what is published and what they have reserved, in one piece (`Shared.Layout`).  Between
calls it is then like a single-thread arena that holds the same (`World.Stores.exists_alike`),
so a request that has values to store is served as by the store too (`World.Follows`).
-/

namespace SafeBump

open Library.Unwind

variable {tgt : Target} {T : Type}

/-! ## Arenas that are like a single-thread one -/

theorem Shared.exists_layout {a : Arena T} {sh : SharedArena tgt T} (ha : Alike a sh)
    (d : List T) : ∃ items, Layout items ⟨sh, [], d⟩ := by
  have hl := Layout.idle ha.holds
  exact ⟨_, hl.base, hl.ordered, hl.fits, hl.old, hl.above, hl.set, hl.placed, hl.apart, hl.cover,
    hl.sound⟩

/-- What a concurrent arena shows is what the single-thread one it is like models. -/
theorem SharedArena.Shows.of_alike {a : Arena T} {sh : SharedArena tgt T} {st : Store T}
    (ha : Alike a sh) (hm : Arena.Models tgt a st) (hw : sh.Whole) : sh.Shows st := by
  cases ha with
  | unassigned hh hid =>
      cases hm with
      | unused =>
          exact ⟨hw, hid ▸ .unborn, hh.contents_eq.symm, fun hpos => absurd hh.published hpos,
            by intros; contradiction⟩
  | assigned hh hid =>
      cases hm with
      | live hmodels hstart hfit =>
          refine ⟨hw, .assigned hid hmodels, hh.contents_eq.symm, fun _ => hid.current_ne_zero, ?_⟩
          intro e he
          cases he
          exact hh.published.symm ▸ hstart

/-- An arena that shows a store and holds nothing else is like one that models it. -/
theorem SharedArena.Shows.exists_alike {sh : SharedArena tgt T} {st : Store T} (h : sh.Shows st)
    (hs : sh.identity.Sane True) (hh : sh.Holds sh.contents) :
    ∃ a, Alike a sh ∧ Arena.Models tgt a st := by
  have hvalues := h.values
  rcases h.settled hs with ⟨rfl, hid, -⟩ | ⟨vs, e, id, rfl, hid, hm⟩
  · have hnil : sh.contents = [] := hvalues.symm
    exact ⟨.new, .unassigned (hnil ▸ hh) hid, .unused⟩
  · have hvs : vs = sh.contents := hvalues
    refine ⟨.holding vs id, .assigned (hvs ▸ hh) hid, .live hm ?_ (hvs ▸ hh.fits)⟩
    rw [hvs, ← hh.published]
    exact h.started e rfl

/-! ## Processes -/

namespace World

/-- What the arenas hold. -/
structure Stores (w : World tgt T) (stores : Owner → Store T) : Prop extends w.Shows stores where
  ordered : ∀ n, ∃ items, (w.shareds n).Layout items

/-- The event `e` moves the stores on. -/
structure Follows (w : World tgt T) (stores : Owner → Store T) (e : Event T)
    (stores' : Owner → Store T) : Prop extends w.Moves stores e stores' where
  ordered : ∀ n, ∃ items, ((w.step e).shareds n).Layout items
  served : ∀ t o req, e = .request t o req → w.quiet o = true →
    Store.Served tgt (StampSpace.fresh t) req ⟨stores o, w.process.stamps, w.dropped o⟩
      (w.outcome t o req) ⟨stores' o, (w.step e).process.stamps, (w.step e).dropped o⟩

theorem Follows.stores {w : World tgt T} {stores stores' : Owner → Store T} {e : Event T}
    (h : w.Follows stores e stores') : (w.step e).Stores stores' :=
  ⟨h.kept, h.ordered⟩

namespace Stores

theorem initial : (initial : World tgt T).Stores fun _ => .unused :=
  ⟨.initial, fun _ => Shared.exists_layout .new []⟩

variable {w : World tgt T} {stores : Owner → Store T}

/-- Only the concurrent arena an event is about has to be looked at. -/
theorem ordered_put (h : w.Stores stores) {n : Nat} (stamps : StampSpace) {s : Shared tgt T}
    (hs : ∃ items, s.Layout items) (m : Nat) :
    ∃ items, ((w.put n stamps s).shareds m).Layout items := by
  rcases eq_or_ne m n with rfl | hne
  · rwa [shareds_put_self]
  · rw [w.shareds_put_of_ne hne]
    exact h.ordered m

/-- Once no call is under way a concurrent arena is like a single-thread one. -/
theorem exists_alike (h : w.Stores stores) {n : Nat} (hquiet : (w.shareds n).quiet = true) :
    ∃ a, Alike a (w.shareds n).arena ∧ Arena.Models tgt a (stores (.shared n)) := by
  obtain ⟨items, hl⟩ := h.ordered n
  exact (h.shareds n).shown.exists_alike ((h.intact.shareds n).sane hquiet) (hl.holds hquiet).1

theorem follows_single (h : w.Stores stores) (e : SafeBump.Event T) :
    ∃ stores', w.Follows stores (.single e) stores' := by
  obtain ⟨stores', hm, hserved⟩ := h.moves_single e
  refine ⟨stores', hm, h.ordered, ?_⟩
  intro t o req he _
  cases o with
  | single n =>
      cases he
      exact hserved t n req rfl
  | shared n => cases he

theorem follows_start (h : w.Stores stores) (n : Nat) (t : ThreadId) (ask : Ask T) :
    ∃ stores', w.Follows stores (.start n t ask) stores' := by
  obtain ⟨stores', hm⟩ := h.moves_start n t ask
  obtain ⟨items, hl⟩ := h.ordered n
  refine ⟨stores', hm, h.ordered_put _ ⟨items, hl.start t ask⟩, fun t o req he => ?_⟩
  cases o <;> cases he

theorem follows_step (hall : ∀ k, tgt.allocates k = true) (h : w.Stores stores) (n i : Nat)
    (mishap : Bool) : ∃ stores', w.Follows stores (.step n i mishap) stores' := by
  obtain ⟨stores', hm⟩ := h.moves_step n i mishap
  refine ⟨stores', hm, ?_, fun t o req he => by cases o <;> cases he⟩
  rw [World.step]
  split
  · exact h.ordered
  · rename_i c hc
    obtain ⟨items, hl⟩ := h.ordered n
    obtain ⟨-, hans⟩ := answer_spends h.shares.ok c
    exact h.ordered_put _ ⟨items, hl.step i hans mishap (tgt.affords_all hall _)⟩

theorem follows_alone (hall : ∀ k, tgt.allocates k = true) (h : w.Stores stores) (t : ThreadId)
    (n : Nat) (req : Request T) : ∃ stores', w.Follows stores (.alone t n req) stores' := by
  cases hquiet : (w.shareds n).quiet with
  | false =>
      refine ⟨stores, h.moves_busy t req hquiet, ?_, fun t' o req' he hq => ?_⟩
      · rw [World.step, hquiet]
        exact h.ordered
      · cases o with
        | single m => cases he
        | shared m =>
            cases he
            cases hquiet.symm.trans hq
  | true =>
      obtain ⟨a, ha, hm⟩ := h.exists_alike hquiet
      have hnew : ∀ s sp, w.process.stamps.fresh t = (.ok s, sp) → s ∉ (stores (.shared n)).marks :=
        fun s sp hf hs => h.shares.fresh_notMem hf (.shared n) (w.marks_subset stores _ hs)
      have hsrc : ∀ p sp, w.process.stamps.fresh t = (.error p, sp) → p = .stampSpaceExhausted :=
        fun p sp hf => (StampSpace.fresh_error h.shares.ok hf).1
      obtain ⟨⟨st, sp, d⟩, ⟨a', _, _⟩, ⟨ha', rfl, rfl⟩, ⟨hm', rfl, rfl⟩, hserved⟩ :=
        SharedArena.serve_served hall ha hm hnew hsrc req (w.shareds n).dropped
      have hw : (left (w.served t n req)).arena.Whole :=
        (SharedArena.serve_next (h.shareds n).shown.whole
          ((h.intact.shareds n).sane hquiet) req w.process.stamps (w.shareds n).dropped).whole
      have hmoves := h.moves_of_alone hquiet hserved.step (.of_alike ha' hm' hw)
        (fun reply hr => ⟨hserved.issued reply hr, fun cp hcp => hserved.captured cp (hcp ▸ hr)⟩)
        fun _ => hserved
      have hstep : w.step (.alone t n req) = w.put n (left (w.served t n req)).source
          ⟨(left (w.served t n req)).arena, [], (left (w.served t n req)).dropped⟩ := by
        rw [World.step, hquiet]
        rfl
      refine ⟨_, hmoves, ?_, fun t' o req' he _ => ?_⟩
      · rw [hstep]
        exact h.ordered_put _ (Shared.exists_layout ha' _)
      · cases o with
        | single m => cases he
        | shared m =>
            cases he
            rw [Function.update_self, hstep, dropped_put_self]
            exact hserved

/-- Every event keeps the stores in order and moves them on as it says. -/
theorem follows (hall : ∀ k, tgt.allocates k = true) (h : w.Stores stores) (e : Event T) :
    ∃ stores', w.Follows stores e stores' := by
  cases e with
  | single e => exact h.follows_single e
  | start n t ask => exact h.follows_start n t ask
  | step n i mishap => exact h.follows_step hall n i mishap
  | alone t n req => exact h.follows_alone hall t n req

/-- Between calls a request ends as on the store, but for the panic where the slots run out. -/
theorem outcome_same (hall : ∀ k, tgt.allocates k = true) (h : w.Stores stores) {o : Owner}
    (hquiet : w.quiet o = true) (t : ThreadId) {req : Request T}
    (hasked : ∀ idx, req.asked = some idx → (stores o).Sound idx) :
    Alike.SameOutcome (ending ((Store.serve tgt (StampSpace.fresh t) req).run
      ⟨stores o, w.process.stamps, w.dropped o⟩)) (w.outcome t o req) := by
  have hnew : ∀ s sp, w.process.stamps.fresh t = (.ok s, sp) → s ∉ (stores o).marks :=
    fun s sp hf hs => h.shares.fresh_notMem hf o (w.marks_subset stores o hs)
  cases o with
  | single n =>
      have href := Arena.serve_refines (h.singles n) hnew hasked (w.process.dropped n)
      have hend : w.outcome t (.single n) req = _ := href.ending
      rw [hend]
      exact .refl _
  | shared n =>
      obtain ⟨a, ha, hm⟩ := h.exists_alike hquiet
      have href := Arena.serve_refines hm hnew hasked (w.shareds n).dropped
      have halike := Alike.serve (StampSpace.fresh t) hall req
        ⟨a, w.process.stamps, (w.shareds n).dropped⟩
        ⟨(w.shareds n).arena, w.process.stamps, (w.shareds n).dropped⟩ ⟨ha, rfl, rfl⟩
      have hsame := Alike.sameOutcome halike
      rwa [href.ending] at hsame

/-- A run extends every store by what it did to that arena. -/
theorem run (hall : ∀ k, tgt.allocates k = true) (h : w.Stores stores) (es : List (Event T)) :
    ∃ stores', (w.run es).Stores stores' ∧
      ∀ o, (stores o).Extends (changesOver o w es) (stores' o) := by
  induction es generalizing w stores with
  | nil => exact ⟨stores, h, fun o => .refl _⟩
  | cons e es ih =>
      obtain ⟨stores₁, hf⟩ := h.follows hall e
      obtain ⟨stores₂, h₂, hext⟩ := ih hf.stores
      exact ⟨stores₂, h₂, fun o => (hf.extended o).trans (hext o)⟩

/-- After a run the arenas hold no more than they show. -/
theorem of_shows (hall : ∀ k, tgt.allocates k = true) {es : List (Event T)}
    (h : ((World.initial : World tgt T).run es).Shows stores) :
    ((World.initial : World tgt T).run es).Stores stores := by
  obtain ⟨_, hrun, -⟩ := (initial : (World.initial : World tgt T).Stores _).run hall es
  exact ⟨h, hrun.ordered⟩

end Stores

end World

end SafeBump
