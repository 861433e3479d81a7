import SafeBump.Deliveries
import SafeBump.Shown

/-!
# What a concurrent arena shows while calls are under way

At any moment, whether calls are under way or not and whatever has failed, a concurrent
arena shows a store and its calls find out about that store (`Shared.Shows`).  A step of a
call grows it (`Shared.Shows.step`).
-/

namespace SafeBump

variable {tgt : Target} {T : Type}

namespace Store

/-- The store with the history `eo` and the values `vs`. -/
theorem exists_of_parts (eo : Option Epochs) {vs : List T} (hnone : eo = none → vs = []) :
    ∃ st : Store T, st.epochs = eo ∧ st.values = vs := by
  cases eo with
  | none => exact ⟨.unused, rfl, (hnone rfl).symm⟩
  | some e => exact ⟨.live vs e, rfl, rfl⟩

theorem mem_marks {st : Store T} {x : Stamp} :
    x ∈ st.marks ↔ ∃ e, st.epochs = some e ∧ x ∈ e.marks := by
  cases st with
  | unused => exact ⟨(fun hx => by cases hx), by rintro ⟨_, ⟨⟩, _⟩⟩
  | live vs e =>
      refine ⟨fun hx => ⟨e, rfl, hx⟩, ?_⟩
      rintro ⟨_, ⟨⟩, hx⟩
      exact hx

end Store

/-- The identity after a move stands for the same history, or for a new one that begins with
the stamp the call held. -/
theorem Ask.move_views {a : SharedArena tgt T} {eo : Option Epochs}
    (hview : a.identity.Views eo) (ask : Ask T) (answer : Except Panic Stamp) (mishap : Bool)
    {pc : Pc T} (hag : pc.Agrees a.identity) :
    ∃ eo', (ask.move answer mishap a pc).1.identity.Views eo' ∧
      (eo' = eo ∨ eo = none ∧ ∃ s, pc.held = some s ∧ eo' = some (.new s)) := by
  rcases ask.move_identity answer mishap a pc with
    ⟨hid, -, -⟩ | ⟨use, fresh, rfl, hzero, hmove⟩ | ⟨use, fresh, rfl, hmove⟩
  · exact ⟨eo, hid ▸ hview, .inl rfl⟩
  · obtain ⟨hnew, rfl⟩ := hview.of_birth_zero hzero
    rw [hmove, hnew]
    exact ⟨_, .elected fresh, .inr ⟨rfl, fresh, rfl, rfl⟩⟩
  · obtain ⟨hel, rfl⟩ := hview.of_elected hag.1 hag.2
    rw [hmove, hel]
    exact ⟨_, .assigned (.of_born fresh) (.new fresh), .inl rfl⟩

namespace Shared

/-- A concurrent arena shows a store, and its calls find out about that store. -/
structure Shows (s : Shared tgt T) (st : Store T) : Prop where
  intact : s.Intact
  shown : s.arena.Shows st
  /-- A range was reserved in the current epoch. -/
  ranges : ∀ (k : Nat) (c : Call T), s.calls[k]? = some c →
    ∀ r ∈ c.pc.range c.ask.values.length, ∀ e, st.epochs = some e → e.start ≤ r.1
  delivers : ∀ (k : Nat) (c : Call T), s.calls[k]? = some c → c.pc.Delivers tgt st

namespace Shows

variable {s : Shared tgt T} {st : Store T}

theorem idle_new : (Shared.idle (.new : SharedArena tgt T)).Shows .unused where
  intact := .idle_new
  shown := .new
  ranges := fun _ _ hc => by cases hc
  delivers := fun _ _ hc => by cases hc

theorem start (h : s.Shows st) (t : ThreadId) (ask : Ask T) : (s.start t ask).Shows st where
  intact := h.intact.start t ask
  shown := h.shown
  ranges := by
    intro k c hk
    rw [getElem?_start] at hk
    split at hk
    · cases hk
      rw [(ask.start_sound s.arena).1]
      exact fun _ hr => by cases hr
    · exact h.ranges k c hk
  delivers := by
    intro k c hk
    rw [getElem?_start] at hk
    split at hk
    · cases hk
      cases ask with
      | alloc value => trivial
      | checkpoint => trivial
      | allocBlock values =>
          cases values with
          | nil => exact ⟨by intros; contradiction, by intros; contradiction⟩
          | cons v values => trivial
    · exact h.delivers k c hk

/-- A step of a call adds to what is shown.  A new mark was held, and a stamp held now was
held before or has just been drawn. -/
theorem step (h : s.Shows st) (i : Nat) {answer : Except Panic Stamp}
    (hans : ∀ p, answer = .error p → p = .stampSpaceExhausted) (mishap : Bool) :
    ∃ st', (s.step i answer mishap).Shows st' ∧ st.Grown st' ∧
      (∀ x ∈ st'.marks, x ∈ st.marks ∨ x ∈ s.held) ∧
      ∀ x ∈ (s.step i answer mishap).held, x ∈ s.held ∨ answer = .ok x := by
  cases hc : s.calls[i]? with
  | none =>
      rw [step_of_none hc]
      exact ⟨st, h, .refl st, fun _ hx => .inl hx, fun _ hx => .inl hx⟩
  | some c =>
      have hi := h.intact.step (i := i) hans mishap
      have hext := h.intact.extends_step (i := i) hans mishap
      obtain ⟨eo, hview, heo⟩ :=
        Ask.move_views h.shown.view c.ask answer mishap (h.intact.assigned.agree i c hc)
      rw [← arena_step hc] at hview
      -- without an identity nothing is published
      have hnone : eo = none → (s.step i answer mishap).arena.contents = [] := by
        rintro rfl
        have hcur : (s.step i answer mishap).arena.identity.current = 0 := by
          refine Nat.eq_zero_of_not_pos fun hpos => ?_
          obtain ⟨_, _, -, -, he⟩ := hview.of_current (Nat.ne_of_gt hpos)
          cases he
        have hres : (s.step i answer mishap).arena.reserved = 0 :=
          Nat.eq_zero_of_not_pos fun hpos => hi.assigned.issued (Nat.ne_of_gt hpos) hcur
        refine List.eq_nil_of_length_eq_zero ?_
        rw [SharedArena.length_contents hi.whole.set]
        exact Nat.le_zero.mp (hres ▸ hi.whole.ordered)
      obtain ⟨st', rfl, hvalues⟩ := Store.exists_of_parts eo hnone
      have hstart : ∀ n, (∀ e, st.epochs = some e → e.start ≤ n) →
          ∀ e, st'.epochs = some e → e.start ≤ n := by
        intro n hn e he
        rcases heo with hsame | ⟨-, x, -, hnew⟩
        · exact hn e (hsame ▸ he)
        · cases hnew.symm.trans he
          exact Nat.zero_le n
      have hshown : (s.step i answer mishap).arena.Shows st' := by
        refine ⟨hi.whole, hview, hvalues, fun hpub => hi.assigned.issued ?_,
          hstart _ fun e he => ?_⟩
        · exact Nat.ne_of_gt (Nat.lt_of_lt_of_le (Nat.pos_of_ne_zero hpub) hi.whole.ordered)
        · exact Nat.le_trans (h.shown.started e he) hext.published
      have hg : st.Grown st' := by
        refine ⟨heo.imp_right fun hnew => ?_, ?_⟩
        · obtain ⟨hn, x, -, he⟩ := hnew
          exact ⟨hn, x, he⟩
        · rw [h.shown.values, hvalues]
          exact hext.contents_prefix h.intact.whole
      have hself : (c.ask.move answer mishap s.arena c.pc).2.Delivers tgt st := by
        rcases h.intact.knows i c hc with hsound | ⟨p, hp, -⟩
        · exact Ask.move_delivers h.shown.view h.shown.length_values h.shown.issued answer mishap
            (h.intact.assigned.agree i c hc) hsound (h.ranges i c hc) (h.delivers i c hc)
        · rw [hp]
          trivial
      refine ⟨st', ⟨hi, hshown, fun k d hk r hr => ?_, fun k d hk => ?_⟩, hg, fun x hx => ?_,
        fun x hx => ?_⟩
      · rw [getElem?_step hc] at hk
        split at hk
        · cases hk
          rcases Ask.move_range answer hans mishap h.intact.whole (h.intact.knows i c hc)
            (h.intact.backed i c hc) hr with hr | ⟨q, hq, hr⟩
          · exact hstart _ fun e he =>
              hr ▸ Nat.le_trans (h.shown.started e he) h.intact.whole.ordered
          · exact hstart _ fun e he => hr ▸ h.ranges i c hc q hq e he
        · exact hstart _ (h.ranges k d hk r hr)
      · rw [getElem?_step hc] at hk
        split at hk
        · cases hk
          exact hself.grown hg hshown.ok
        · exact (h.delivers k d hk).grown hg hshown.ok
      · obtain ⟨e, he, hx⟩ := Store.mem_marks.mp hx
        rcases heo with hsame | ⟨-, y, hheld, hnew⟩
        · exact .inl (Store.mem_marks.mpr ⟨e, hsame.symm.trans he, hx⟩)
        · cases hnew.symm.trans he
          rw [List.mem_singleton.mp hx]
          exact .inr (mem_held.mpr ⟨i, c, hc, hheld⟩)
      · obtain ⟨k, d, hk, hheld⟩ := mem_held.mp hx
        rw [getElem?_step hc] at hk
        split at hk
        · cases hk
          obtain ⟨use, -, hanswer⟩ := Ask.move_held hheld
          exact .inr hanswer
        · exact .inl (mem_held.mpr ⟨k, d, hk, hheld⟩)

/-- What a call returned is good. -/
theorem returned (h : s.Shows st) {k : Nat} {c : Call T} (hc : s.calls[k]? = some c)
    {reply : Reply T} (hr : c.pc = .returned reply) :
    (∀ idx ∈ reply.issued tgt, st.isValid idx = true) ∧
      ∀ cp, reply = .checkpoint cp → st.validateCheckpoint cp = .ok () := by
  have hd := h.delivers k c hc
  rwa [hr] at hd

/-- An arena that no call is on record of. -/
theorem of_shown {a : SharedArena tgt T} {d : List T} (hi : Intact ⟨a, [], d⟩) (ha : a.Shows st) :
    Shows ⟨a, [], d⟩ st where
  intact := hi
  shown := ha
  ranges := fun _ _ hc => by cases hc
  delivers := fun _ _ hc => by cases hc

end Shows

end Shared

end SafeBump
