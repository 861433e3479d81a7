import SafeBump.Failures

/-!
# Reservations

A call reserves its range before it fills it, and nothing takes a reservation back
when storing a value panics.  The chunk of a slot may be more than the machine can
allocate, and then the call that was to fill the slot is refused (`World.panic`).

Where no call was refused the arena is tidy: a slot reserved and not filled is one
that a running call is going to fill, so between calls everything reserved is
published (`World.orderly_arena_is_tidy`).  A refusal leaves a slot behind that
nobody can fill.  Publication stops there, and no call that reserves later returns,
until the slots are given up with the values below them (`World.refusal_blocks`).
That a panic leaves no reservation behind therefore holds while the chunks of the
slots a call is about to fill can be allocated (`World.panics_leave_no_reservation`).
-/

namespace SafeBump

open Library (stretch stretch_le stretch_fails stretch_eq_iff)
open Library.Unwind
open ChunkedStorage (free filled refusal)

variable {tgt : Target} {σ T : Type}

/-! ## Slots on their way -/

namespace Shared

/-- Call `k` has the slot in its range and is going to fill it. -/
def Awaits (s : Shared tgt T) (k slot : Nat) : Prop :=
  ∃ (c : Call T) (stamp : Stamp) (start offset : Nat), s.calls[k]? = some c ∧
    c.pc = .set stamp start offset ∧ start + offset ≤ slot ∧ slot < start + c.ask.values.length

section Layout

variable {items : List T} {s : Shared tgt T} {slot : Nat}

/-- What is reserved and not filled is on its way. -/
theorem Layout.awaited (h : s.Layout items) (hpub : s.arena.published ≤ slot)
    (hres : slot < s.arena.reserved) (hempty : s.arena.storage.slots slot = none) :
    ∃! k, s.Awaits k slot := by
  obtain ⟨k, vs, r, hr, hle, hlt⟩ := h.cover slot (Nat.le_trans h.base hpub) hres
  obtain ⟨c, hc, rfl, hrange⟩ := hr
  have hplaced := (h.placed k _ r ⟨c, hc, rfl, hrange⟩).2.2 (slot - r.1) (by omega)
  rw [Nat.add_sub_cancel' hle, hempty] at hplaced
  have hge : r.2 ≤ slot - r.1 := by
    refine Nat.le_of_not_lt fun hin => ?_
    rw [if_pos hin, List.getElem?_eq_getElem (by omega)] at hplaced
    cases hplaced
  refine ⟨k, ?_, fun j hj => ?_⟩
  · -- the other places of a call have their whole range filled
    have hfull : r.2 ≠ c.ask.values.length := by omega
    cases hpc : c.pc with
    | set stamp start offset =>
        rw [hpc] at hrange
        cases hrange
        exact ⟨c, stamp, start, offset, hc, hpc, by omega, hlt⟩
    | returned reply =>
        rw [hpc] at hrange
        cases reply with
        | idx i => cases hrange; exact absurd rfl hfull
        | block b =>
            obtain ⟨stamp, -, he⟩ := Option.map_eq_some_iff.mp hrange
            cases he
            exact absurd rfl hfull
        | _ => cases hrange
    | _ =>
        rw [hpc] at hrange
        cases hrange <;> exact absurd rfl hfull
  · obtain ⟨d, stamp, start, offset, hd, hpc, hfrom, hto⟩ := hj
    refine Classical.not_not.mp fun hne => ?_
    have hq : s.Reserved j d.ask.values (start, offset) := ⟨d, hd, rfl, by rw [hpc]; rfl⟩
    have hapart := h.apart j k _ _ _ _ hq ⟨c, hc, rfl, hrange⟩ hne
    simp only at hapart
    omega

end Layout

end Shared

/-! ## A request on a tidy arena -/

namespace SharedArena

section Serve

variable {a : SharedArena tgt T} {items : List T} {fresh : Source σ}

/-- An arena that calls left in order is like a single-thread one. -/
theorem Holds.exists_alike (hh : a.Holds items) (hs : a.identity.Sane True)
    (hissued : a.reserved ≠ 0 → a.identity.current ≠ 0) : ∃ a₀ : Arena T, Alike a₀ a := by
  rcases hs with ⟨hid, -⟩ | ⟨i, hid⟩
  · have hzero : a.reserved = 0 := by
      refine Classical.not_not.mp fun hne => hissued hne ?_
      rw [hid]
      rfl
    have hnil : items = [] := List.eq_nil_of_length_eq_zero (hh.reserved ▸ hzero)
    exact ⟨.new, .unassigned (hnil ▸ hh) hid⟩
  · exact ⟨.holding items i, .assigned hh hid⟩

/-- A range with a slot without memory is refused there. -/
theorem Holds.refused (fresh : Source σ) (panics : Dtor T) (hh : a.Holds items) (hw : a.Whole)
    {i : Identity}
    (hid : a.identity.Mirrors i) {values : List T} (hne : values ≠ [])
    (hfit : a.reserved + values.length ≤ tgt.usizeMax)
    (hmem : ¬ tgt.Affords (slotRange a.reserved values.length)) (src : σ) (d : List T) :
    ending ((placing fresh panics values).run ⟨a, src, d⟩)
      = .error (.unwinds .capacityOverflow) := by
  obtain ⟨st, -, -, hrun⟩ := run_placing panics fresh hw hid hne hfit src d
  have hempty : ∀ slot, a.reserved ≤ slot → a.storage.slots slot = none := fun slot hle =>
    (hh.filled slot).trans (List.getElem?_eq_none (hh.reserved ▸ hle))
  have hk : stretch a.storage.free a.reserved values.length ≠ values.length := by
    refine fun hk => hmem fun slot hslot => ?_
    obtain ⟨o, ho, rfl⟩ := List.mem_map.mp hslot
    exact (ChunkedStorage.free_iff.mp (stretch_eq_iff.mp hk o (List.mem_range.mp ho))).2
  rw [hrun, if_neg hk, refusal, if_neg]
  · rfl
  · rw [ChunkedStorage.filled_false_iff.mpr (hempty _ (Nat.le_add_right _ _))]
    exact Bool.false_ne_true

/-- With memory for its slots a request leaves a tidy arena tidy. -/
theorem Holds.after_serve (hh : a.Holds items) (hs : a.identity.Sane True)
    (hissued : a.reserved ≠ 0 → a.identity.current ≠ 0) {req : Request T} {src : σ}
    (hmem : tgt.Affords (a.filling fresh src req)) (d : List T) :
    ∃ items', (left ((serve fresh req).run ⟨a, src, d⟩)).arena.Holds items' := by
  obtain ⟨a₀, ha⟩ := hh.exists_alike hs hissued
  have htogether : Together (⟨a₀, src, d⟩ : Ctx (Arena T) σ T) ⟨a, src, d⟩ := ⟨ha, rfl, rfl⟩
  obtain ⟨hlike, -, -⟩ := (Alike.serve_of_affords fresh req htogether hmem).left
  generalize (left ((Arena.serve tgt fresh req).run ⟨a₀, src, d⟩)).arena = a₁ at hlike
  cases hlike with
  | unassigned hh' => exact ⟨_, hh'⟩
  | assigned hh' => exact ⟨_, hh'⟩

/-- Without memory it is refused. -/
theorem Holds.serve_refused (hh : a.Holds items) (hw : a.Whole) (hs : a.identity.Sane True)
    {req : Request T} {src : σ} (hmem : ¬ tgt.Affords (a.filling fresh src req)) (d : List T) :
    ending ((serve fresh req).run ⟨a, src, d⟩) = .error (.unwinds .capacityOverflow) := by
  rw [filling] at hmem
  split at hmem
  · rename_i hready
    have hne : req.stored ≠ [] := by
      intro hnil
      rw [hnil] at hmem
      exact hmem fun _ hslot => by cases hslot
    rw [run_serve_placing hne, ending_run_map]
    rcases hs with ⟨hid, -⟩ | ⟨i, hid⟩
    · have hcur : a.identity.current = 0 := by
        rw [hid]
        rfl
      rcases hf : fresh src with ⟨p | s, src'⟩
      · rw [hf] at hready
        exact (hready.1.elim (fun h => h hcur) fun h => by cases h).elim
      · rw [run_placing_new _ hf hid]
        have hborn := Holds.refused fresh req.movedDtor (a := { a with identity := .born s })
          ⟨hh.published, hh.reserved, hh.filled, hh.fits⟩
          ⟨hw.ordered, hw.fits, hw.set, hw.allocated⟩ (.of_born s) hne hready.2 hmem src' d
        rw [hborn]
        rfl
    · rw [hh.refused fresh req.movedDtor hw hid hne hready.2 hmem src d]
      rfl
  · exact absurd (fun _ hslot => by cases hslot) hmem

end Serve

end SharedArena

/-- On a tidy arena an allocation that gets some way comes back, or finds no memory. -/
theorem SharedArena.Allots.ending_of_tidy {a a' : SharedArena tgt T} {req : Request T}
    {r : Except Exit (Reply T)} {lost : List T} (h : a.Allots req r a' lost)
    (hpub : a.published = a.reserved)
    (habove : ∀ slot, a.reserved ≤ slot → a.storage.slots slot = none) :
    (∃ reply, r = .ok reply) ∨ r = .error (.unwinds .capacityOverflow) := by
  by_cases hk : stretch a.storage.free a.reserved req.stored.length = req.stored.length
  · obtain ⟨hgrown, hend⟩ := h.stored hk
    have hlaid := h.laid
    rw [hk, List.take_length] at hlaid
    have hfilled : stretch a'.storage.filled a.published (a'.reserved - a.published)
        = a'.reserved - a.published := by
      refine stretch_eq_iff.mpr fun i hi => ChunkedStorage.filled_iff.mpr ?_
      have hi : i < req.stored.length := by
        have hres := h.reserved
        omega
      rw [hpub, hlaid.value hi, List.getElem?_eq_getElem hi]
      exact Option.some_ne_none _
    have hreached : a'.published = a'.reserved := by
      have hres := h.reserved
      omega
    rw [if_pos hreached] at hend
    obtain ⟨stamp, -, hr⟩ := hend
    exact .inl ⟨_, hr⟩
  · right
    have hempty := habove (a.reserved + stretch a.storage.free a.reserved req.stored.length)
      (Nat.le_add_right _ _)
    rw [(h.refused hk).2, refusal, ChunkedStorage.filled_false_iff.mpr hempty,
      if_neg Bool.false_ne_true]

/-! ## Refusals -/

namespace Shared

section Refused

variable {s : Shared tgt T} {i : Nat} {c : Call T}

/-- A call that is to fill a slot without memory panics. -/
theorem Intact.refused (h : s.Intact) (hc : s.calls[i]? = some c)
    (hmem : ¬ tgt.Affords c.pc.filling) (answer : Except Panic Stamp) (mishap : Bool) :
    c.pc.running = true ∧
      (c.ask.move answer mishap s.arena c.pc).2 = .unwound .capacityOverflow := by
  have hknows := h.knows i c hc
  have hbacked := h.backed i c hc
  cases hpc : c.pc with
  | set stamp start offset =>
      rw [hpc] at hmem hknows hbacked
      have hlt : offset < c.ask.values.length := hknows.of_running rfl
      obtain ⟨st, -, -, hmove⟩ :=
        c.ask.move_set answer mishap stamp h.whole hlt (hbacked (start, offset) rfl).1
      have hall : tgt.allocates (start + offset + 1).log2 ≠ true :=
        fun ha => hmem (List.forall_mem_singleton.mpr ha)
      have hfilled : s.arena.storage.filled (start + offset) ≠ true := fun hf =>
        hall (h.whole.allocated.of_slots (ChunkedStorage.filled_iff.mp hf))
      rw [if_neg fun hf => hall (ChunkedStorage.free_iff.mp hf).2, refusal, if_neg hfilled] at hmove
      exact ⟨rfl, hmove.2⟩
  | _ =>
      rw [hpc] at hmem
      exact absurd (fun _ hslot => by cases hslot) hmem

end Refused

end Shared

namespace World

section Panic

variable (w : World tgt T)

/-- The panic that ends a call on concurrent arena `n` in an event. -/
def panic (n : Nat) : Event T → Option Panic
  | .step m i mishap =>
      if m = n then
        match (w.shareds n).calls[i]?, ((w.step (.step n i mishap)).shareds n).calls[i]? with
        | some c, some ⟨_, _, .unwound p⟩ => if c.pc.running then some p else none
        | _, _ => none
      else none
  | .alone t m req =>
      if m = n ∧ (w.shareds n).quiet then
        match w.outcome t (.shared n) req with
        | .error (.unwinds p) => some p
        | _ => none
      else none
  | _ => none

/-- The panics that end the calls on concurrent arena `n` in a run. -/
def panics (n : Nat) : World tgt T → List (Event T) → List Panic
  | _, [] => []
  | w, e :: es => (w.panic n e).toList ++ panics n (w.step e) es

/-- The slots of concurrent arena `n` that are to be filled in an event. -/
def filling (n : Nat) : Event T → List Nat
  | .step m i _ => if m = n then (w.shareds n).filling i else []
  | .alone t m req =>
      if m = n ∧ (w.shareds n).quiet then
        (w.shareds n).arena.filling (StampSpace.fresh t) w.process.stamps req
      else []
  | _ => []

/-- The slots of concurrent arena `n` that are to be filled in a run. -/
def fillings (n : Nat) : World tgt T → List (Event T) → List Nat
  | _, [] => []
  | w, e :: es => w.filling n e ++ fillings n (w.step e) es

end Panic

section Tidy

variable {w : World tgt T} {n : Nat}

theorem panic_step {i : Nat} {c : Call T} {p : Panic} (mishap : Bool)
    (hc : (w.shareds n).calls[i]? = some c) (hrun : c.pc.running = true)
    (hmove : (c.ask.move (w.answer c).1 mishap (w.shareds n).arena c.pc).2 = .unwound p) :
    w.panic n (.step n i mishap) = some p := by
  have hafter : ((w.step (.step n i mishap)).shareds n).calls[i]?
      = some { c with pc := .unwound p } := by
    rw [step, hc]
    simp only [shareds_put_self]
    rw [Shared.getElem?_step hc, if_pos rfl, hmove]
  rw [panic, if_pos rfl, hc, hafter]
  exact if_pos hrun

theorem panic_alone {t : ThreadId} {req : Request T} {p : Panic}
    (hquiet : (w.shareds n).quiet = true)
    (hout : w.outcome t (.shared n) req = .error (.unwinds p)) :
    w.panic n (.alone t n req) = some p := by
  rw [panic, if_pos ⟨rfl, hquiet⟩, hout]

/-- The slots of concurrent arena `n` are as the calls on it are to have them. -/
def Tidy (w : World tgt T) (n : Nat) : Prop := ∃ items, (w.shareds n).Layout items

theorem Tidy.initial : (initial : World tgt T).Tidy n := ⟨[], Shared.Layout.idle .new⟩

theorem Tidy.step (h : w.Tidy n) (hi : w.Intact) {e : Event T}
    (hmem : tgt.Affords (w.filling n e)) : (w.step e).Tidy n := by
  obtain ⟨items, hl⟩ := h
  by_cases howner : e.owner = some (.shared n)
  · cases e with
    | single e => exact ⟨items, hl⟩
    | start m t ask =>
        cases howner
        rw [World.step, Tidy, shareds_put_self]
        exact ⟨items, hl.start t ask⟩
    | step m i mishap =>
        cases howner
        cases hc : (w.shareds n).calls[i]? with
        | none =>
            rw [World.step, hc]
            exact ⟨items, hl⟩
        | some c =>
            rw [filling, if_pos rfl] at hmem
            rw [World.step, hc, Tidy]
            simp only [shareds_put_self]
            exact ⟨items, hl.step i (answer_spends hi.traced.drawn.space c).2 mishap hmem⟩
    | alone t m req =>
        cases howner
        by_cases hquiet : (w.shareds n).quiet = true
        · have hn := hi.shareds n
          rw [filling, if_pos ⟨rfl, hquiet⟩] at hmem
          obtain ⟨items', hh⟩ :=
            (hl.holds hquiet).1.after_serve (hn.sane hquiet) hn.assigned.issued hmem
            (w.shareds n).dropped
          rw [World.step, if_pos hquiet, Tidy, shareds_put_self]
          have hl' := Shared.Layout.idle hh
          exact ⟨items', hl'.base, hl'.ordered, hl'.fits, hl'.old, hl'.above, hl'.set, hl'.placed,
            hl'.apart, hl'.cover, hl'.sound⟩
        · rw [World.step, if_neg hquiet]
          exact ⟨items, hl⟩
  · rw [Tidy, w.shareds_step_of_ne howner]
    exact ⟨items, hl⟩

/-- Only a call that is refused memory was to fill a slot without. -/
theorem Tidy.panic_eq (h : w.Tidy n) (hi : w.Intact) {e : Event T}
    (hmem : ¬ tgt.Affords (w.filling n e)) : w.panic n e = some .capacityOverflow := by
  have hnil : ¬ tgt.Affords [] → False := fun h => h fun _ hslot => by cases hslot
  obtain ⟨items, hl⟩ := h
  cases e with
  | single e => exact (hnil hmem).elim
  | start m t ask => exact (hnil hmem).elim
  | step m i mishap =>
      rw [filling] at hmem
      split at hmem
      · rename_i hm
        subst hm
        cases hc : (w.shareds m).calls[i]? with
        | none =>
            rw [Shared.filling, hc] at hmem
            exact (hnil hmem).elim
        | some c =>
            rw [Shared.filling_of_call hc] at hmem
            obtain ⟨hrun, hmove⟩ := (hi.shareds m).refused hc hmem (w.answer c).1 mishap
            exact panic_step mishap hc hrun hmove
      · exact (hnil hmem).elim
  | alone t m req =>
      rw [filling] at hmem
      split at hmem
      · rename_i hm
        obtain ⟨rfl, hquiet⟩ := hm
        have hn := hi.shareds m
        exact panic_alone hquiet
          ((hl.holds hquiet).1.serve_refused hn.whole (hn.sane hquiet) hmem _)
      · exact (hnil hmem).elim

theorem Tidy.run (h : w.Tidy n) (hi : w.Intact) {es : List (Event T)}
    (hmem : tgt.Affords (fillings n w es)) : (w.run es).Tidy n := by
  induction es generalizing w with
  | nil => exact h
  | cons e es ih =>
      obtain ⟨hfirst, hrest⟩ := List.forall_mem_append.mp hmem
      exact ih (h.step hi hfirst) (hi.step e) hrest

/-- A run in which no call is refused memory has it for every slot. -/
theorem Tidy.affords_fillings (h : w.Tidy n) (hi : w.Intact) {es : List (Event T)}
    (hp : Panic.capacityOverflow ∉ panics n w es) : tgt.Affords (fillings n w es) := by
  induction es generalizing w with
  | nil => exact fun _ hslot => by cases hslot
  | cons e es ih =>
      have hcons := List.mem_append.not.mp hp
      rw [not_or] at hcons
      have hfirst : tgt.Affords (w.filling n e) := by
        refine Classical.not_not.mp fun hmem => hcons.1 ?_
        exact Option.mem_toList.mpr (h.panic_eq hi hmem)
      exact List.forall_mem_append.mpr ⟨hfirst, ih (h.step hi hfirst) (hi.step e) hcons.2⟩

/-- A call on a tidy arena panics for want of stamps or slots. -/
theorem Tidy.unwound (h : w.Tidy n) {c : Call T} (hc : c ∈ (w.shareds n).calls) {p : Panic}
    (hpc : c.pc = .unwound p) : p = .slotSpaceExhausted ∨ p = .stampSpaceExhausted := by
  obtain ⟨items, hl⟩ := h
  obtain ⟨k, hk⟩ := List.mem_iff_getElem?.mp hc
  have hsound := hl.sound k c hk
  rwa [hpc] at hsound

/-- An allocation on a tidy arena comes back, or finds no stamps, no slots or no memory. -/
theorem Tidy.outcome (h : w.Tidy n) (hi : w.Intact) (hquiet : (w.shareds n).quiet = true)
    (t : ThreadId) {req : Request T} (hreq : req.stored ≠ []) :
    (∃ reply, w.outcome t (.shared n) req = .ok reply) ∨
      ∃ p, w.outcome t (.shared n) req = .error (.unwinds p) ∧
        (p = .slotSpaceExhausted ∨ p = .stampSpaceExhausted ∨ p = .capacityOverflow) := by
  obtain ⟨items, hl⟩ := h
  rcases SharedArena.serve_stored (StampSpace.fresh t) (hi.shareds n).whole
    ((hi.shareds n).sane hquiet) hreq w.process.stamps (w.shareds n).dropped with
      ⟨-, p, sp, hf, hres⟩ | ⟨-, -, id, sp, hres⟩ | ⟨-, -, lost, -, hall⟩
  · refine .inr ⟨p, congrArg ending hres, .inr (.inl ?_)⟩
    exact (StampSpace.fresh_error hi.traced.drawn.space hf).1
  · exact .inr ⟨_, congrArg ending hres, .inl rfl⟩
  · rcases hall.ending_of_tidy (hl.published_eq hquiet) hl.above with hok | herr
    · exact .inl hok
    · exact .inr ⟨_, herr, .inr (.inr rfl)⟩

/-- No request on a tidy arena waits forever or finds a slot occupied. -/
theorem Tidy.ends (h : w.Tidy n) (hi : w.Intact) (hquiet : (w.shareds n).quiet = true)
    (t : ThreadId) (req : Request T) : w.outcome t (.shared n) req ≠ .error .spins ∧
      ∀ slot, w.outcome t (.shared n) req ≠ .error (.unwinds (.slotOccupied slot)) := by
  by_cases hreq : req.stored = []
  · have hexternal : ∀ e, w.outcome t (.shared n) req = .error e → External e := by
      intro e he
      rcases SharedArena.serve_ending (expects_external t) (hi.shareds n).whole
        ((hi.shareds n).sane hquiet) hi.traced.drawn.space he with hext | hr
      · exact hext
      · exact absurd hreq hr.1
    refine ⟨fun he => ?_, fun slot he => ?_⟩
    · rcases hexternal _ he with he | he | he <;> cases he
    · rcases hexternal _ he with he | he | he <;> cases he
  · rcases h.outcome hi hquiet t hreq with ⟨reply, hr⟩ | ⟨p, hr, hp⟩
    · rw [hr]
      exact ⟨(fun he => by cases he), fun slot he => by cases he⟩
    · rw [hr]
      refine ⟨(fun he => by cases he), fun slot he => ?_⟩
      cases he
      rcases hp with hp | hp | hp <;> cases hp

end Tidy

end World

/-- The write is refused for want of memory. -/
theorem ChunkedStorage.not_allocates_of_refusal {st : ChunkedStorage tgt T} {panics : Dtor T}
    {slot : Nat} {value : Option T} (hfree : st.free slot = false)
    (h : st.refusal panics slot value = .capacityOverflow) :
    tgt.allocates (slot + 1).log2 = false := by
  rw [refusal] at h
  split at h
  · split at h <;> cases h
  · rename_i hfilled
    have hnone : st.slots slot = none :=
      ChunkedStorage.filled_false_iff.mp (Bool.not_eq_true _ ▸ hfilled)
    rwa [free, hnone, Option.isNone_none, Bool.true_and] at hfree

/-- A call that is refused for want of memory was to fill a slot it has reserved. -/
theorem Shared.Intact.slot_of_refused {s : Shared tgt T} (h : s.Intact) {i : Nat} {c : Call T}
    (hc : s.calls[i]? = some c) (hrun : c.pc.running = true) {answer : Except Panic Stamp}
    (hans : ∀ p, answer = .error p → p = .stampSpaceExhausted) {mishap : Bool}
    (hmove : (c.ask.move answer mishap s.arena c.pc).2 = .unwound .capacityOverflow) :
    ∃ stamp start offset, c.pc = .set stamp start offset ∧ offset < c.ask.values.length ∧
      tgt.allocates (start + offset + 1).log2 = false := by
  have hsound := (h.knows i c hc).of_running hrun
  have hbacked := h.backed i c hc
  by_cases hpc : c.pc.filling = []
  · have hs := (c.ask.move_elsewhere answer hans mishap hpc hsound (fun q hq => (hbacked q hq).1)
      h.whole.fits).2
    rw [hmove] at hs
    rcases hs with hs | hs <;> cases hs
  · cases hp : c.pc with
    | set stamp start offset =>
        rw [hp] at hsound hbacked hmove
        have hlt : offset < c.ask.values.length := hsound
        have hbelow := (hbacked (start, offset) rfl).1
        obtain ⟨st, -, -, hmove'⟩ := c.ask.move_set answer mishap stamp h.whole hlt hbelow
        rw [hmove] at hmove'
        split at hmove'
        · -- a call that stored its value has its range
          have hnext := (fillPc_sound s.arena stamp (Nat.zero_lt_of_lt hlt) hlt
            (Nat.le_trans hbelow h.whole.fits)).1
          rw [← hmove'.2] at hnext
          cases hnext
        · have hrefusal := Pc.unwound.inj hmove'.2
          refine ⟨stamp, start, offset, rfl, hlt, ?_⟩
          exact ChunkedStorage.not_allocates_of_refusal (Bool.not_eq_true _ ▸ ‹¬ _›) hrefusal.symm
    | _ => exact absurd (by rw [hp]; rfl) hpc

/-- An allocation that is refused for want of memory was to fill a slot it has reserved. -/
theorem SharedArena.Allots.slot_of_refused {a a' : SharedArena tgt T} {req : Request T}
    {lost : List T} (h : a.Allots req (.error (.unwinds .capacityOverflow)) a' lost) :
    let offset := stretch a.storage.free a.reserved req.stored.length
    offset < req.stored.length ∧ tgt.allocates (a.reserved + offset + 1).log2 = false := by
  intro offset
  have hk : stretch a.storage.free a.reserved req.stored.length ≠ req.stored.length := by
    intro hk
    have hstored := (h.stored hk).2
    split at hstored
    · obtain ⟨stamp, -, hr⟩ := hstored
      cases hr
    · cases hstored
  have hlt := Nat.lt_of_le_of_ne (stretch_le _ _ _) hk
  have hrefusal := Exit.unwinds.inj (Except.error.inj (h.refused hk).2)
  exact ⟨hlt, ChunkedStorage.not_allocates_of_refusal (stretch_fails hlt) hrefusal.symm⟩

/-- The slots of the range that were free before the first one that was not have the values. -/
theorem SharedArena.Allots.filled {a a' : SharedArena tgt T} {req : Request T}
    {r : Except Exit (Reply T)} {lost : List T} (h : a.Allots req r a' lost) {o : Nat}
    (ho : o < stretch a.storage.free a.reserved req.stored.length) :
    a'.storage.slots (a.reserved + o) = req.stored[o]? := by
  have hlen := stretch_le a.storage.free a.reserved req.stored.length
  rw [h.laid.value (by rw [List.length_take]; omega), List.getElem?_take_of_lt ho]

/-- What comes back is published. -/
theorem SharedArena.Allots.published_eq {a a' : SharedArena tgt T} {req : Request T}
    {reply : Reply T} {lost : List T} (h : a.Allots req (.ok reply) a' lost) :
    a'.published = a'.reserved := by
  by_cases hk : stretch a.storage.free a.reserved req.stored.length = req.stored.length
  · have hstored := (h.stored hk).2
    split at hstored
    · assumption
    · cases hstored
  · cases (h.refused hk).2

namespace World

section Stuck

variable {w : World tgt T} {n slot : Nat}

theorem call_of_panic {m i : Nat} {mishap : Bool} {p : Panic}
    (h : w.panic n (.step m i mishap) = some p) : m = n ∧ ∃ c, (w.shareds n).calls[i]? = some c ∧
      c.pc.running = true ∧
      (c.ask.move (w.answer c).1 mishap (w.shareds n).arena c.pc).2 = .unwound p := by
  rw [panic] at h
  split at h
  · rename_i hm
    subst hm
    cases hc : (w.shareds m).calls[i]? with
    | none =>
        rw [hc] at h
        cases h
    | some c =>
        rw [shareds_step hc, Shared.getElem?_step hc, if_pos rfl, hc] at h
        refine ⟨rfl, c, rfl, ?_⟩
        generalize (c.ask.move (w.answer c).1 mishap (w.shareds m).arena c.pc).2 = pc at h
        cases pc with
        | unwound q =>
            have h : (if c.pc.running then some q else none) = some p := h
            split at h
            · cases h
              exact ⟨‹_›, rfl⟩
            · cases h
        | _ => cases h
  · cases h

/-- The values an event stores on concurrent arena `n`, the first slot reserved for them, and how
many of them were stored before the next one.  An allocation on its own stores as many as there
are free slots from there on. -/
def storing (w : World tgt T) (n : Nat) : Event T → Option (List T × Nat × Nat)
  | .step m i _ =>
      if m = n then (w.shareds n).calls[i]?.bind fun c =>
        (c.pc.range c.ask.values.length).map fun q => (c.ask.values, q.1, q.2)
      else none
  | .alone _ m req =>
      if m = n ∧ (w.shareds n).quiet then
        let a := (w.shareds n).arena
        some (req.stored, a.reserved, stretch a.storage.free a.reserved req.stored.length)
      else none
  | _ => none

/-- The range of `values` from slot `start` on is reserved and filled as far as `offset`, where
there is no memory for the slot. -/
structure Abandoned (w : World tgt T) (n : Nat) (values : List T) (start offset : Nat) : Prop where
  inside : offset < values.length
  reserved : start + values.length ≤ (w.shareds n).arena.reserved
  filled : ∀ o < offset, (w.shareds n).arena.storage.slots (start + o) = values[o]?
  barred : tgt.allocates (start + offset + 1).log2 = false

/-- A refused call leaves its range behind. -/
theorem Intact.abandoned (h : w.Intact) {e : Event T} (hp : w.panic n e = some .capacityOverflow) :
    ∃ values start offset, w.storing n e = some (values, start, offset) ∧
      (w.step e).Abandoned n values start offset := by
  cases e with
  | single e => cases hp
  | start m t ask => cases hp
  | step m i mishap =>
      obtain ⟨rfl, c, hc, hrun, hmove⟩ := call_of_panic hp
      obtain ⟨stamp, start, offset, hpc, hlt, hmem⟩ := (h.shareds m).slot_of_refused hc hrun
        (answer_spends h.traced.drawn.space c).2 hmove
      have hbacked := (h.shareds m).backed i c hc
      rw [hpc] at hbacked
      obtain ⟨hbelow, hvalues⟩ := hbacked (start, offset) rfl
      have hext := h.extends_step m i mishap
      refine ⟨c.ask.values, start, offset, ?_, hlt, Nat.le_trans hbelow hext.reserved,
        fun o ho => ?_, hmem⟩
      · rw [storing, if_pos rfl, hc, Option.bind_some, hpc]
        rfl
      · obtain ⟨v, hv, hslot⟩ := hvalues o ho
        rw [hext.kept _ (hslot ▸ Option.some_ne_none v), hv]
        exact hslot
  | alone t m req =>
      rw [panic] at hp
      split at hp
      · rename_i hm
        obtain ⟨rfl, hquiet⟩ := hm
        split at hp
        · rename_i p hout
          cases hp
          have hw := (h.shareds m).whole
          have hs := (h.shareds m).sane hquiet
          have hreq : req.stored ≠ [] := by
            rcases SharedArena.serve_ending (expects_external t) hw hs
              h.traced.drawn.space hout with
              (he | he | he) | hr
            · cases he
            · cases he
            · cases he
            · exact hr.1
          have hafter : ((w.step (.alone t m req)).shareds m).arena
              = (left (w.served t m req)).arena := by
            rw [World.step, if_pos hquiet, shareds_put_self]
          have hend : ending (w.served t m req) = .error (.unwinds .capacityOverflow) := hout
          rcases SharedArena.serve_stored (StampSpace.fresh t) hw hs hreq w.process.stamps
            (w.shareds m).dropped with ⟨-, p, sp, hf, hres⟩ | ⟨-, -, id, sp, hres⟩ |
              ⟨-, -, lost, -, hall⟩
          · cases (StampSpace.fresh_error h.traced.drawn.space hf).1
            cases (congrArg ending hres).symm.trans hend
          · cases (congrArg ending hres).symm.trans hend
          · have hall : SharedArena.Allots _ req (ending (w.served t m req))
                (left (w.served t m req)).arena lost := hall
            rw [hend] at hall
            obtain ⟨hlt, hmem⟩ := hall.slot_of_refused
            refine ⟨req.stored, _, _, if_pos ⟨rfl, hquiet⟩, hlt, ?_, fun o ho => ?_, hmem⟩
            · rw [hafter, hall.reserved]
            · rw [hafter]
              exact hall.filled ho
        · cases hp
      · cases hp

section Abandoned

variable {values : List T} {start offset : Nat}

theorem Abandoned.extends {w' : World tgt T} (h : w.Abandoned n values start offset)
    (hext : (w.shareds n).arena.Extends (w'.shareds n).arena) :
    w'.Abandoned n values start offset where
  inside := h.inside
  reserved := Nat.le_trans h.reserved hext.reserved
  filled := by
    intro o ho
    have hslot := h.filled o ho
    have hsome : values[o]? ≠ none := by
      rw [List.getElem?_eq_getElem (Nat.lt_trans ho h.inside)]
      exact Option.some_ne_none _
    exact (hext.kept _ (hslot ▸ hsome)).trans hslot
  barred := h.barred

/-- Nothing from the slot without memory on is published, and nobody fills it. -/
theorem Abandoned.blocked (h : w.Abandoned n values start offset) (hi : w.Intact) :
    (w.shareds n).arena.published ≤ start + offset ∧
      (w.shareds n).arena.storage.slots (start + offset) = none := by
  have hw := (hi.shareds n).whole
  refine ⟨hw.published_le h.barred, Classical.not_not.mp fun hslot => ?_⟩
  cases h.barred.symm.trans (hw.allocated.of_slots hslot)

/-- While a slot without memory is reserved no allocation comes back. -/
theorem Abandoned.outcome (h : w.Abandoned n values start offset) (hi : w.Intact)
    (hquiet : (w.shareds n).quiet = true)
    (t : ThreadId) {req : Request T} (hreq : req.stored ≠ []) :
    ∃ e, w.outcome t (.shared n) req = .error e := by
  cases hout : w.outcome t (.shared n) req with
  | error e => exact ⟨e, rfl⟩
  | ok reply =>
      have hend : ending (w.served t n req) = .ok reply := hout
      have hw := (hi.shareds n).whole
      have hs := (hi.shareds n).sane hquiet
      have hafter : (left (w.served t n req)).arena.Whole :=
        (SharedArena.serve_next hw hs req w.process.stamps (w.shareds n).dropped).whole
      rcases SharedArena.serve_stored (StampSpace.fresh t) hw hs hreq w.process.stamps
        (w.shareds n).dropped with
          ⟨-, p, sp, -, hres⟩ | ⟨-, -, id, sp, hres⟩ | ⟨-, -, lost, -, hall⟩
      · cases (congrArg ending hres).symm.trans hend
      · cases (congrArg ending hres).symm.trans hend
      · have hall : SharedArena.Allots _ req (ending (w.served t n req))
            (left (w.served t n req)).arena lost := hall
        rw [hend] at hall
        have hle := hafter.published_le h.barred
        have hin := h.inside
        have hbelow := h.reserved
        have hres := hall.reserved
        have hpub := hall.published_eq
        have : False := by omega
        exact this.elim

end Abandoned

end Stuck

/-- While no call is refused for want of memory, a slot reserved and not filled is on its way
to be filled by one call, and none is left when the calls are over. -/
theorem orderly_arena_is_tidy (es : List (Event T)) (n : Nat)
    (hp : Panic.capacityOverflow ∉ panics n (initial : World tgt T) es) :
    let w := (initial : World tgt T).run es
    let s := w.shareds n
    (∀ slot, s.arena.published ≤ slot → slot < s.arena.reserved →
      s.arena.storage.slots slot = none → ∃! k, s.Awaits k slot) ∧
    (∀ slot, s.arena.reserved ≤ slot → s.arena.storage.slots slot = none) ∧
    (∀ c ∈ s.calls, ∀ p, c.pc = .unwound p → p = .slotSpaceExhausted ∨ p = .stampSpaceExhausted) ∧
    (s.quiet = true → s.arena.reserved = s.arena.published ∧
      ∀ t req, req.stored ≠ [] → (∃ reply, w.outcome t (.shared n) req = .ok reply) ∨
        ∃ p, w.outcome t (.shared n) req = .error (.unwinds p) ∧
          (p = .slotSpaceExhausted ∨ p = .stampSpaceExhausted ∨ p = .capacityOverflow)) := by
  intro w s
  have hi : w.Intact := Intact.initial.run es
  have htidy : w.Tidy n := Tidy.initial.run .initial (Tidy.initial.affords_fillings .initial hp)
  obtain ⟨items, hl⟩ := id htidy
  refine ⟨fun slot => hl.awaited, hl.above, fun c hc p hpc => htidy.unwound hc hpc,
    fun hquiet => ⟨(hl.published_eq hquiet).symm, ?_⟩⟩
  exact fun t req hreq => htidy.outcome hi hquiet t hreq

/-- The slots of the block are on their way when it has reserved them. -/
theorem orderly_arena_is_tidy_block :
    let es : List (Event Nat) := [.alone 0 0 (.alloc 7), .start 0 1 (.allocBlock [1, 2])] ++
      List.replicate 3 (.step 0 0 false)
    ∃! k, (((initial : World cramped Nat).run es).shareds 0).Awaits k 2 := by
  intro es
  have hp : Panic.capacityOverflow ∉ panics 0 (initial : World cramped Nat) es := by decide +kernel
  exact (orderly_arena_is_tidy es 0 hp).1 2 (by decide +kernel) (by decide +kernel)
    (by decide +kernel)

/-- A call refused for want of memory leaves its range behind, with the values it had stored and a
slot that nobody can fill.  As long as no value is taken from the arena nothing from that slot on is
published, so no call returns whose range goes beyond it, and no allocation on its own that has a
value to store. -/
theorem refusal_blocks (es : List (Event T)) (n : Nat) (e : Event T)
    (hp : ((initial : World tgt T).run es).panic n e = some .capacityOverflow) :
    ∃ values start offset,
      ((initial : World tgt T).run es).storing n e = some (values, start, offset) ∧
      ∀ es', (∀ e ∈ es', e.boundary (.shared n) = none) →
        let w := (((initial : World tgt T).run es).step e).run es'
        let s := w.shareds n
        w.Abandoned n values start offset ∧
        s.arena.published ≤ start + offset ∧ s.arena.storage.slots (start + offset) = none ∧
        (∀ c ∈ s.calls, ∀ reply, c.pc = .returned reply →
          (∀ q, c.pc.range c.ask.values.length = some q →
            q.1 + c.ask.values.length ≤ start + offset) ∧
          ∀ idx ∈ reply.issued tgt, idx.slot < start + offset) ∧
        (s.quiet = true → ∀ t req, req.stored ≠ [] →
          ∃ e, w.outcome t (.shared n) req = .error e) := by
  have hi : ((initial : World tgt T).run es).Intact := Intact.initial.run es
  obtain ⟨values, start, offset, hstoring, habandoned⟩ := hi.abandoned hp
  refine ⟨values, start, offset, hstoring, fun es' hb => ?_⟩
  intro w s
  have hi' : w.Intact := (hi.step e).run es'
  have hleft : w.Abandoned n values start offset :=
    habandoned.extends ((hi.step e).extends_run hb)
  obtain ⟨hpub, hnone⟩ := hleft.blocked hi'
  refine ⟨hleft, hpub, hnone, fun c hc reply hpc => ?_, fun hquiet t req hreq =>
    hleft.outcome hi' hquiet t hreq⟩
  obtain ⟨k, hk⟩ := List.mem_iff_getElem?.mp hc
  have hsound := (hi'.shareds n).sound_of_returned hk hpc
  have hnames : w.Named := ((Named.initial.run es).step e).run es'
  have hn := hnames n c hc
  rw [hpc] at hn ⊢
  refine ⟨fun q hq => Nat.le_trans (hsound q hq).2 hpub, fun idx hidx => ?_⟩
  obtain ⟨-, q, hq, -, hlt⟩ := hn.issued hsound hidx
  exact Nat.lt_of_lt_of_le hlt (Nat.le_trans (hsound q hq).2 hpub)

/-- The block was refused its third slot.  Whatever happens, its first two values stay where they
are and slot 3 stays reserved, and empty. -/
theorem refusal_blocks_block :
    let w : World cramped Nat := (initial : World cramped Nat).run [.alone 0 0 (.alloc 7)]
    let e : Event Nat := .alone 0 0 (.allocBlock ⟨[1, 2, 3], false⟩)
    w.storing 0 e = some ([1, 2, 3], 1, 2) ∧
      ∀ es', (∀ e ∈ es', e.boundary (.shared 0) = none) →
        let a := (((w.step e).run es').shareds 0).arena
        a.published ≤ 3 ∧ 4 ≤ a.reserved ∧ a.storage.slots 1 = some 1 ∧
          a.storage.slots 2 = some 2 ∧ a.storage.slots 3 = none := by
  intro w e
  have hp : w.panic 0 e = some .capacityOverflow := by decide +kernel
  have hstoring : w.storing 0 e = some ([1, 2, 3], 1, 2) := by decide +kernel
  obtain ⟨values, start, offset, hsame, hblocked⟩ := refusal_blocks [.alone 0 0 (.alloc 7)] 0 e hp
  cases hstoring.symm.trans hsame
  refine ⟨hstoring, fun es' hb => ?_⟩
  obtain ⟨hleft, hpub, hnone, -⟩ := hblocked es' hb
  exact ⟨hpub, hleft.reserved, hleft.filled 0 (by decide), hleft.filled 1 (by decide), hnone⟩

end World

end SafeBump
