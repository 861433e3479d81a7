import SafeBump.Allotment
import SafeBump.BlockIndices
import SafeBump.Checkpoints
import SafeBump.Issuance

/-!
# Batches

The block an `alloc_block` returns names the slots its values went to.  All
allocations of an epoch carry one stamp, so that no two of them ever name the same
slot has to do with the slots: an exclusive allocation takes slots beyond all that are
good (`Store.serve_beyond`), and a range stays clear of the handles issued while its
call was under way (`Shared.Clear`).
-/

namespace SafeBump

open Library (History stretch)
open Library.Unwind

variable {tgt : Target} {σ T : Type}

/-- The request is an `alloc` or an `alloc_block`. -/
def Request.allocates : Request T → Bool
  | .alloc _ _ | .allocBlock _ _ => true
  | _ => false

theorem Request.asked_of_allocates {req : Request T} (h : req.allocates = true) :
    req.asked = none ∧ req.reads = false := by
  cases req with
  | alloc value => exact ⟨rfl, rfl⟩
  | allocBlock input => exact ⟨rfl, rfl⟩
  | _ => cases h

/-- The block names the slots of `contents` that have `values`. -/
structure Block.Places (tgt : Target) (b : Block) (values contents : List T) : Prop where
  fits : b.Fits tgt
  len : b.len = values.length
  slots : ∀ i < b.len, contents[b.start + i]? = values[i]?

theorem Block.Places.empty (contents : List T) : Block.empty.Places tgt [] contents where
  fits := .inl rfl
  len := rfl
  slots := fun i hi => absurd hi (Nat.not_lt_zero i)

/-! ## Allocations on the store -/

namespace Store

section Allocate

variable {fresh : Source σ} {c c' : Ctx (Store T) σ T}

/-- An insertion goes to the end. -/
theorem insert_end {values : List T} {stamp : Stamp} {slot : Nat}
    (h : (insert tgt fresh values).run c = .ok (stamp, slot) c') :
    slot = c.arena.values.length ∧ c'.arena.values = c.arena.values ++ values ∧
      slot + values.length ≤ tgt.usizeMax := by
  have hlive : ∀ (vs : List T) (e : Epochs) (src : σ) (d : List T),
      (insert tgt fresh values).run ⟨live vs e, src, d⟩ = .ok (stamp, slot) c' →
      slot = vs.length ∧ c'.arena.values = vs ++ values ∧ slot + values.length ≤ tgt.usizeMax := by
    intro vs e src d hrun
    rcases Nat.lt_or_ge tgt.usizeMax (vs.length + values.length) with hfull | hfit
    · rw [run_insert_full hfull] at hrun
      cases hrun
    · rw [run_insert_live hfit] at hrun
      cases hrun
      exact ⟨rfl, rfl, hfit⟩
  obtain ⟨st, src, d⟩ := c
  cases st with
  | live vs e => exact hlive vs e src d h
  | unused =>
      rcases hf : fresh src with ⟨p | s, src'⟩
      · rw [run_insert_error hf] at h
        cases h
      · rw [run_insert_ok hf] at h
        exact hlive [] (.new s) src' d h

/-- A block of values is where `alloc_block` says. -/
theorem allocBlock_places {input : Input T} {b : Block}
    (h : (allocBlock tgt fresh input).run c = .ok b c') :
    b.Places tgt input.values c'.arena.values := by
  obtain ⟨values, panics⟩ := input
  cases panics with
  | true => cases h
  | false =>
      cases values with
      | nil =>
          cases h
          exact .empty _
      | cons v values =>
          rw [run_allocBlock_cons] at h
          obtain ⟨⟨stamp, start⟩, hins, rfl⟩ := run_map_ok h
          obtain ⟨rfl, hvalues, hfit⟩ := insert_end hins
          refine ⟨.inr ⟨stamp, rfl, hfit⟩, rfl, fun i hi => ?_⟩
          rw [hvalues, List.getElem?_append_right (Nat.le_add_right ..), Nat.add_sub_cancel_left]

/-- The handles of an allocation name slots beyond those there were. -/
theorem serve_beyond {req : Request T} {reply : Reply T} (hreq : req.allocates = true)
    (h : (serve tgt fresh req).run c = .ok reply c') {idx : Idx} (hi : idx ∈ reply.issued tgt) :
    c.arena.values.length ≤ idx.slot := by
  cases req with
  | alloc value =>
      obtain ⟨i, hr, rfl⟩ := run_map_ok h
      obtain ⟨⟨stamp, slot⟩, hins, rfl⟩ := run_map_ok hr
      obtain ⟨rfl, -, -⟩ := insert_end hins
      cases List.mem_singleton.mp hi
      exact Nat.le_refl _
  | allocBlock input =>
      obtain ⟨block, hr, rfl⟩ := run_map_ok h
      obtain ⟨values, panics⟩ := input
      cases panics with
      | true => cases hr
      | false =>
          cases values with
          | nil =>
              cases hr
              cases hi
          | cons v values =>
              rw [run_allocBlock_cons] at hr
              obtain ⟨⟨stamp, start⟩, hins, rfl⟩ := run_map_ok hr
              obtain ⟨rfl, -, -⟩ := insert_end hins
              obtain ⟨offset, -, -, rfl⟩ := Block.mem_idxs.mp hi
              exact Nat.le_add_right ..
  | _ => cases hreq

end Allocate

/-- A handle that has become good without a boundary, to a slot beyond those there were, was not
known before: it carries the current mark. -/
theorem Known.not_of_beyond {st st' : Store T} {cs : List (Change T)} (hext : st.Extends cs st')
    (hcs : Change.boundaries cs = []) (hok : st.Ok) {idx : Idx} (hv : st'.isValid idx = true)
    (hge : st.values.length ≤ idx.slot) : ¬ st.Known idx := by
  intro hk
  cases st with
  | unused => cases hk.stamp_mem
  | live vs e =>
      obtain ⟨ds, hds, he⟩ := hext.history e rfl
      rw [hcs] at hds
      obtain rfl : ds = [] := List.map_eq_nil_iff.mp hds
      have hstart : e.start ≤ idx.slot := Nat.le_trans hok.2 hge
      have hcur : idx.stamp = e.current := by
        cases st' with
        | unused => cases he
        | live vs' e' =>
            cases he
            obtain ⟨-, hmark⟩ := isValid_live.mp hv
            exact hmark.symm.trans (History.markAt_of_start_le hstart)
      exact Nat.not_lt.mpr hge (slot_lt (hk.of_current hok rfl hcur).1)

end Store

/-! ## Allocations on a concurrent arena -/

namespace SharedArena

variable {a : SharedArena tgt T} {fresh : Source σ}

theorem le_slot_of_handle {req : Request T} {stamp : Stamp} {start : Nat} {idx : Idx}
    (hi : idx ∈ (handle req (stamp, start)).issued tgt) : start ≤ idx.slot := by
  cases req with
  | alloc v => rw [List.mem_singleton.mp hi]
  | allocBlock input =>
      obtain ⟨offset, -, -, rfl⟩ := Block.mem_idxs.mp hi
      exact Nat.le_add_right ..
  | _ => cases hi

/-- Between calls an allocation that returns has put its values in the slots its handle names. -/
theorem serve_placed (hw : a.Whole) (hs : a.identity.Sane True) {req : Request T}
    (hreq : req.stored ≠ []) {src : σ} {d : List T} {reply : Reply T}
    {c' : Ctx (SharedArena tgt T) σ T} (h : (serve fresh req).run ⟨a, src, d⟩ = .ok reply c') :
    (∃ stamp, reply = handle req (stamp, a.reserved)) ∧
      a.reserved + req.stored.length ≤ tgt.usizeMax ∧
      ∀ i < req.stored.length, c'.arena.contents[a.reserved + i]? = req.stored[i]? := by
  have hw' : c'.arena.Whole := by
    have hnext : a.Next (left ((serve fresh req).run ⟨a, src, d⟩)).arena :=
      serve_next hw hs req src d
    rw [h] at hnext
    exact hnext.whole
  rcases serve_stored fresh hw hs hreq src d with
    ⟨-, p, src', -, hres⟩ | ⟨-, -, id, src', hres⟩ | ⟨-, hfit, lost, -, hall⟩
  · cases hres.symm.trans h
  · cases hres.symm.trans h
  · rw [h] at hall
    by_cases hk : stretch a.storage.free a.reserved req.stored.length = req.stored.length
    · obtain ⟨-, hend⟩ := hall.stored hk
      split at hend
      · rename_i hpub
        obtain ⟨stamp, -, hr⟩ := hend
        refine ⟨⟨stamp, Except.ok.inj hr⟩, hfit, fun i hi => ?_⟩
        have hlaid := hall.laid (a.reserved + i)
        rw [hk, List.take_length, if_pos ⟨Nat.le_add_right .., Nat.add_lt_add_left hi _⟩,
          Nat.add_sub_cancel_left] at hlaid
        have hpub : c'.arena.published = c'.arena.reserved := hpub
        have hreserved : c'.arena.reserved = a.reserved + req.stored.length := hall.reserved
        rw [getElem?_contents hw'.set, if_pos (by omega)]
        exact hlaid
      · cases hend
    · cases (hall.refused hk).2

end SharedArena

/-! ## Allocations that share the arena -/

/-- What a call that brought `len` values may return. -/
def Reply.Names (len : Nat) : Reply T → Prop
  | .idx _ => True
  | .block b => b.len = len ∧ (b = .empty ∨ b.stamp.isSome = true)
  | .checkpoint _ => True
  | _ => False

/-- If the call has returned, it returned what it may. -/
def Pc.Names (len : Nat) : Pc T → Prop
  | .returned reply => reply.Names len
  | _ => True

section Move

variable {a : SharedArena tgt T} {len : Nat}

theorem Use.resume_names (use : Use) (stamp : Stamp) : (use.resume stamp : Pc T).Names len := by
  cases use <;> trivial

theorem SharedIdentity.tailPc_names (id : SharedIdentity) (n : Nat) :
    (id.tailPc n : Pc T).Names len := by
  cases n with
  | zero => trivial
  | succ slot =>
      rw [tailPc]
      split
      · trivial
      · split
        · trivial
        · split
          · trivial
          · split <;> trivial

theorem fillPc_names (values : List T) (stamp : Stamp) (start offset : Nat) :
    (fillPc tgt values stamp start offset).Names len := by
  rw [fillPc]
  split
  · trivial
  · split <;> trivial

theorem Ask.finish_names (ask : Ask T) (stamp : Stamp) (start : Nat) :
    (ask.finish tgt stamp start).Names ask.values.length := by
  cases ask with
  | alloc value => trivial
  | checkpoint => trivial
  | allocBlock values =>
      rw [Ask.finish]
      cases hb : Block.new tgt stamp start values.length with
      | error p => trivial
      | ok block =>
          cases Block.of_new hb
          exact ⟨rfl, .inr rfl⟩

theorem Ask.start_names (ask : Ask T) : ask.start.Names ask.values.length := by
  cases ask with
  | alloc value => trivial
  | checkpoint => trivial
  | allocBlock values =>
      cases values with
      | nil => exact ⟨rfl, .inl rfl⟩
      | cons v values => trivial

theorem Ask.move_names (ask : Ask T) (answer : Except Panic Stamp) (mishap : Bool) {pc : Pc T}
    (h : pc.Names ask.values.length) :
    (ask.move answer mishap a pc).2.Names ask.values.length := by
  cases pc with
  | loadLen => exact a.identity.tailPc_names a.published
  | load use =>
      rw [Ask.move]
      split
      · trivial
      · exact use.resume_names _
  | draw use => cases answer <;> trivial
  | exchangeBirth use fresh => rw [Ask.move]; split <;> trivial
  | storeCurrent use fresh => trivial
  | reread use =>
      rw [Ask.move]
      split
      · trivial
      · exact use.resume_names _
  | reserve stamp =>
      rw [Ask.move]
      split
      · trivial
      · exact fillPc_names _ _ _ _
  | set stamp start offset =>
      rw [Ask.move]
      split
      · exact fillPc_names _ _ _ _
      · split
        · trivial
        · split
          · trivial
          · trivial
          · exact fillPc_names _ _ _ _
  | loadPublished stamp start last =>
      rw [Ask.move]
      split
      · exact ask.finish_names stamp start
      · trivial
  | isSet stamp start last published => rw [Ask.move]; split <;> trivial
  | advance stamp start last published => rw [Ask.move]; split <;> trivial
  | returned reply => exact h
  | unwound p => trivial

/-- A call that is over stays over. -/
theorem Ask.running_of_move {ask : Ask T} {answer : Except Panic Stamp} {mishap : Bool} {pc : Pc T}
    (h : (ask.move answer mishap a pc).2.running = true) : pc.running = true := by
  cases pc with
  | returned reply => cases h
  | unwound p => cases h
  | _ => rfl

/-- A handle returned names a slot of the range, under the stamp of the reply. -/
theorem Reply.Names.issued {reply : Reply T} (h : reply.Names len)
    (hs : (Pc.returned reply).Sound len a) {idx : Idx} (hi : idx ∈ reply.issued tgt) :
    idx.stamp ∈ reply.stamps ∧ ∃ q, (Pc.returned reply).range len = some q ∧ q.1 ≤ idx.slot ∧
      idx.slot < q.1 + len := by
  cases reply with
  | idx i =>
      cases List.mem_singleton.mp hi
      have hpos := (hs _ rfl).1
      exact ⟨List.mem_singleton_self _, _, rfl, Nat.le_refl _, Nat.lt_add_of_pos_right hpos⟩
  | block b =>
      obtain ⟨stamp, start, n⟩ := b
      obtain ⟨hlen, he | hsome⟩ := h
      · cases he
        cases hi
      · obtain ⟨s, rfl⟩ : ∃ s, stamp = some s := Option.isSome_iff_exists.mp hsome
        obtain rfl : n = len := hlen
        obtain ⟨offset, hlt, -, rfl⟩ := Block.mem_idxs.mp hi
        exact ⟨List.mem_singleton_self _, _, rfl, Nat.le_add_right .., Nat.add_lt_add_left hlt _⟩
  | checkpoint cp => cases hi
  | _ => exact h.elim

end Move

namespace Shared

/-- No range of a call under way has the slot of the handle, if the handle carries the
current stamp. -/
def Clear (s : Shared tgt T) (idx : Idx) : Prop :=
  idx.stamp.get = s.arena.identity.current → ∀ (k : Nat) (c : Call T), s.calls[k]? = some c →
    c.pc.running = true → ∀ q, c.pc.range c.ask.values.length = some q →
    idx.slot < q.1 ∨ q.1 + c.ask.values.length ≤ idx.slot

section Clear

variable {s : Shared tgt T} {idx : Idx}

theorem Clear.of_calls_nil (h : s.calls = []) : s.Clear idx := by
  intro _ k c hc
  rw [h] at hc
  cases hc

theorem Clear.start (h : s.Clear idx) (t : ThreadId) (ask : Ask T) : (s.start t ask).Clear idx := by
  intro hcur k c hc hrun q hq
  rw [getElem?_start] at hc
  split at hc
  · cases hc
    cases (ask.start_sound s.arena).1.symm.trans hq
  · exact h hcur k c hc hrun q hq

section Step

variable {i : Nat} {answer : Except Panic Stamp} {mishap : Bool} {c : Call T}

/-- A handle that is published under the current stamp carried it before the step, and its slot
was reserved. -/
theorem Intact.current_step (h : s.Intact)
    (hans : ∀ p, answer = .error p → p = .stampSpaceExhausted) (hc : s.calls[i]? = some c)
    (hslot : idx.slot < (s.step i answer mishap).arena.published) :
    (s.step i answer mishap).arena.identity.current = s.arena.identity.current ∧
      idx.slot < s.arena.reserved := by
  have hle := Ask.move_published answer hans mishap h.whole (h.knows i c hc) (h.backed i c hc)
  rw [arena_step hc] at hslot ⊢
  have hlt := Nat.lt_of_lt_of_le hslot hle
  have hcur : s.arena.identity.current ≠ 0 :=
    h.assigned.issued (Nat.ne_of_gt (Nat.zero_lt_of_lt hlt))
  exact ⟨(c.ask.move_grows answer mishap (h.assigned.agree i c hc)).current hcur, hlt⟩

/-- The range of the call that moves stays clear of the handle. -/
theorem Clear.range_step (hclear : s.Clear idx) (h : s.Intact)
    (hans : ∀ p, answer = .error p → p = .stampSpaceExhausted) (hc : s.calls[i]? = some c)
    (hrun : c.pc.running = true)
    (hcur : idx.stamp.get = (s.step i answer mishap).arena.identity.current)
    (hslot : idx.slot < (s.step i answer mishap).arena.published) {q : Nat × Nat}
    (hq : (c.ask.move answer mishap s.arena c.pc).2.range c.ask.values.length = some q) :
    idx.slot < q.1 ∨ q.1 + c.ask.values.length ≤ idx.slot := by
  obtain ⟨hsame, hlt⟩ := h.current_step hans hc hslot
  rcases Ask.move_range answer hans mishap h.whole (h.knows i c hc) (h.backed i c hc) hq with
    hnew | ⟨q', hq', hstart⟩
  · exact .inl (hnew ▸ hlt)
  · exact hstart ▸ hclear (hcur.trans hsame) i c hc hrun q' hq'

theorem Clear.step (hclear : s.Clear idx) (h : s.Intact)
    (hans : ∀ p, answer = .error p → p = .stampSpaceExhausted)
    (hpub : idx.stamp.get = (s.step i answer mishap).arena.identity.current →
      idx.slot < (s.step i answer mishap).arena.published) :
    (s.step i answer mishap).Clear idx := by
  cases hc : s.calls[i]? with
  | none => rwa [step_of_none hc]
  | some c =>
      intro hcur k d hd hrun q hq
      have hslot := hpub hcur
      rw [getElem?_step hc] at hd
      split at hd
      · cases hd
        exact hclear.range_step h hans hc (Ask.running_of_move hrun) hcur hslot hq
      · exact hclear (hcur.trans (h.current_step hans hc hslot).1) k d hd hrun q hq

end Step

/-- What a call that returned knows. -/
theorem Intact.sound_of_returned (h : s.Intact) {k : Nat} {c : Call T} (hc : s.calls[k]? = some c)
    {reply : Reply T} (hr : c.pc = .returned reply) :
    (Pc.returned reply).Sound c.ask.values.length s.arena := by
  rcases h.knows k c hc with hsound | ⟨p, hp, -⟩
  · exact hr ▸ hsound
  · cases hr.symm.trans hp

/-- A handle that was just returned is clear: its slot is in the range of a call that is over. -/
theorem Intact.clear (h : s.Intact) {k : Nat} {c : Call T} (hc : s.calls[k]? = some c)
    {reply : Reply T} (hr : c.pc = .returned reply) (hn : reply.Names c.ask.values.length)
    (hi : idx ∈ reply.issued tgt) : s.Clear idx := by
  intro _ j d hd hrun q hq
  obtain ⟨-, r, hrange, hge, hlt⟩ := hn.issued (h.sound_of_returned hc hr) hi
  have hne : j ≠ k := by
    rintro rfl
    cases hc.symm.trans hd
    rw [hr] at hrun
    cases hrun
  have hapart := h.apart j k d c hd hc hne q r hq (hr ▸ hrange)
  omega

end Clear

/-- A known handle under the current stamp names a published slot. -/
theorem Shows.published_of_current {s : Shared tgt T} {st : Store T}
    (h : s.Shows st) {idx : Idx} (hk : st.Known idx)
    (hcur : idx.stamp.get = s.arena.identity.current) : idx.slot < s.arena.published := by
  obtain ⟨id, e, hid, hm, he⟩ := h.shown.view.of_current (hcur ▸ idx.stamp.ne_zero)
  have hstamp : idx.stamp = e.current := by
    rw [← hm.current, ← Stamp.get_inj, ← hid.current, hcur]
  rw [← h.shown.length_values]
  exact Store.slot_lt (hk.of_current h.shown.ok he hstamp).1

end Shared

/-! ## Runs -/

namespace World

/-- The values of the `alloc_block` whose result an event may deliver. -/
def batch (w : World tgt T) : Event T → Option (List T)
  | .single (.request _ _ (.allocBlock input _)) => some input.values
  | .step n i _ =>
      match (w.shareds n).calls[i]? with
      | some ⟨_, .allocBlock values, _⟩ => some values
      | _ => none
  | .alone _ _ (.allocBlock input _) => some input.values
  | _ => none

/-- If the event delivers a result of `alloc` or `alloc_block`, it is where the call ends. -/
def completes (w : World tgt T) : Event T → Bool
  | .single (.request _ _ req) => req.allocates
  | .step n i _ => (w.shareds n).calls[i]?.any fun c => c.pc.running
  | .alone _ _ req => req.allocates
  | _ => false

/-- Calls return what they may. -/
def Named (w : World tgt T) : Prop :=
  ∀ n, ∀ c ∈ (w.shareds n).calls, c.pc.Names c.ask.values.length

section Event

variable {w : World tgt T} {stores : Owner → Store T}

theorem shareds_step {n i : Nat} {c : Call T} (hc : (w.shareds n).calls[i]? = some c)
    (mishap : Bool) : (w.step (.step n i mishap)).shareds n
      = (w.shareds n).step i (w.answer c).1 mishap := by
  rw [World.step, hc, shareds_put_self]

theorem shareds_alone {n : Nat} (hquiet : (w.shareds n).quiet = true) (t : ThreadId)
    (req : Request T) : ((w.step (.alone t n req)).shareds n).calls = [] := by
  rw [World.step, if_pos hquiet, shareds_put_self]

/-- A step delivers what its call returned. -/
theorem reply_step {n i : Nat} {mishap : Bool} {o : Owner} {r : Reply T}
    (h : w.reply (.step n i mishap) = some (o, r)) : o = .shared n ∧
      ∃ c, (w.shareds n).calls[i]? = some c ∧
        (c.ask.move (w.answer c).1 mishap (w.shareds n).arena c.pc).2 = .returned r := by
  rw [World.reply] at h
  split at h
  · rename_i hcall
    cases h
    refine ⟨rfl, ?_⟩
    cases hc : (w.shareds n).calls[i]? with
    | none =>
        rw [World.step, hc] at hcall
        cases hc.symm.trans hcall
    | some c =>
        rw [shareds_step hc, Shared.getElem?_step hc, if_pos rfl] at hcall
        exact ⟨c, rfl, congrArg Call.pc (Option.some.inj hcall)⟩
  · cases h

theorem Named.initial : (initial : World tgt T).Named := fun n c hc => by cases hc

theorem Named.step (h : w.Named) (e : Event T) : (w.step e).Named :=
  w.forall_calls_step Ask.start_names
    (fun ask answer mishap _ _ hn => ask.move_names answer mishap hn)
    h e

theorem Named.run (h : w.Named) (es : List (Event T)) : (w.run es).Named :=
  forall_calls_run Ask.start_names (fun ask answer mishap _ _ hn => ask.move_names answer mishap hn)
    h es

/-- An allocation begins no boundary. -/
theorem Event.boundary_of_allocates {w : World tgt T} {e : Event T} (h : w.completes e = true)
    {o : Owner} : e.boundary o = none := by
  have hreq : ∀ {req : Request T}, req.allocates = true → req.boundary = none := by
    intro req hreq
    cases req <;> first | rfl | cases hreq
  cases e with
  | single e =>
      cases e with
      | request t n req =>
          rw [Event.boundary, hreq h]
          split <;> rfl
      | _ => rfl
  | alone t n req =>
      rw [Event.boundary, hreq h]
      split <;> rfl
  | _ => rfl

/-! ### Requests -/

/-- A request is served as by the store, unless it stores values in a concurrent arena. -/
theorem Shows.outcome_or_stored (h : w.Shows stores) {o : Owner} (hquiet : w.quiet o = true)
    (t : ThreadId) {req : Request T} (hasked : req.asked = none) :
    (∃ r, r = (Store.serve tgt (StampSpace.fresh t) req).run
        ⟨stores o, w.process.stamps, w.dropped o⟩ ∧
      w.outcome t o req = ending r ∧
      (w.step (.request t o req)).contents o = (left r).arena.values) ∨
    ∃ n, o = .shared n ∧ req.stored ≠ [] := by
  have hsound : ∀ {st : Store T} idx, req.asked = some idx → st.Sound idx :=
    fun idx hi => by cases hasked.symm.trans hi
  by_cases hreq : req.stored = []
  · obtain ⟨hout, hcontents, -⟩ := h.outcome_plain hquiet t hreq hsound
    exact .inl ⟨_, rfl, hout, hcontents⟩
  · cases o with
    | single n =>
        obtain ⟨hout, hcontents, -⟩ := h.outcome_single t hsound
        exact .inl ⟨_, rfl, hout, hcontents⟩
    | shared n => exact .inr ⟨n, rfl, hreq⟩

/-- The handles of an allocation between calls name slots beyond those there were. -/
theorem Shows.request_beyond (h : w.Shows stores) {o : Owner} (hquiet : w.quiet o = true)
    {t : ThreadId} {req : Request T} (hreq : req.allocates = true) {reply : Reply T}
    (ho : w.outcome t o req = .ok reply) {idx : Idx} (hi : idx ∈ reply.issued tgt) :
    (stores o).values.length ≤ idx.slot := by
  rcases h.outcome_or_stored hquiet t (Request.asked_of_allocates hreq).1 with
    ⟨r, rfl, hout, -⟩ | ⟨n, rfl, hstored⟩
  · exact Store.serve_beyond hreq (eq_ok_of_ending (hout.symm.trans ho)) hi
  · have hw := (h.shareds n).shown.whole
    obtain ⟨⟨stamp, rfl⟩, -, -⟩ := SharedArena.serve_placed hw
      ((h.intact.shareds n).sane hquiet) hstored (eq_ok_of_ending ho)
    rw [(h.shareds n).shown.length_values]
    exact Nat.le_trans hw.ordered (SharedArena.le_slot_of_handle hi)

/-- The block a request returns has its values. -/
theorem Shows.request_places (h : w.Shows stores) {o : Owner} (hquiet : w.quiet o = true)
    {t : ThreadId} {input : Input T} {panics : Dtor T} {b : Block}
    (ho : w.outcome t o (.allocBlock input panics) = .ok (.block b)) :
    b.Places tgt input.values
      ((w.step (.request t o (.allocBlock input panics))).contents o) := by
  have hasked : (Request.allocBlock input panics).asked = none := rfl
  rcases h.outcome_or_stored hquiet t hasked with
    ⟨r, hr, hout, hcontents⟩ | ⟨n, rfl, hstored⟩
  · subst hr
    obtain ⟨b', hblock, he⟩ := run_map_ok (eq_ok_of_ending (hout.symm.trans ho))
    cases he
    rw [hcontents]
    exact Store.allocBlock_places hblock
  · have hq : (w.shareds n).quiet = true := hquiet
    have hrun := eq_ok_of_ending (show ending (w.served t n (.allocBlock input panics)) = _ from ho)
    obtain ⟨⟨stamp, hreply⟩, hfit, hslots⟩ := SharedArena.serve_placed (h.shareds n).shown.whole
      ((h.intact.shareds n).sane hquiet) hstored hrun
    have hvalues : (Request.allocBlock input panics).stored = input.values := by
      obtain ⟨values, panicking⟩ := input
      cases panicking with
      | true => exact absurd rfl hstored
      | false => rfl
    rw [hvalues] at hfit hslots
    cases hreply
    rw [contents, Event.request, World.step, if_pos hq, shareds_put_self]
    exact ⟨.inr ⟨stamp, rfl, hfit⟩, rfl, hslots⟩

/-- No handle of an allocation between calls was known before. -/
theorem Moves.not_known (h : w.Shows stores) {e : Event T} {stores' : Owner → Store T}
    (hm : w.Moves stores e stores') {o : Owner} (hb : e.boundary o = none) {idx : Idx}
    (hv : (stores' o).isValid idx = true) (hge : (stores o).values.length ≤ idx.slot) :
    ¬ (stores o).Known idx :=
  Store.Known.not_of_beyond (hm.extended o) (w.boundaries_changes hb) (h.ok o) hv hge

/-! ### Calls -/

/-- The block a call returns has its values. -/
theorem Shows.call_places (h : w.Shows stores) (hn : w.Named) {n i : Nat} {mishap : Bool}
    {c : Call T} {values : List T} (hc : (w.shareds n).calls[i]? = some c)
    (hask : c.ask = .allocBlock values) {b : Block}
    (hr : (c.ask.move (w.answer c).1 mishap (w.shareds n).arena c.pc).2 = .returned (.block b)) :
    b.Places tgt values ((w.step (.step n i mishap)).contents (.shared n)) := by
  have hs := (h.intact.step (.step n i mishap)).shareds n
  have hnamed := hn.step (.step n i mishap) n
  have hcall : ((w.shareds n).step i (w.answer c).1 mishap).calls[i]?
      = some ⟨c.thread, .allocBlock values, .returned (.block b)⟩ := by
    rw [Shared.getElem?_step hc, if_pos rfl, hr, hask]
  rw [contents]
  rw [shareds_step hc] at hs hnamed ⊢
  obtain ⟨hlen, he | hsome⟩ := hnamed _ (List.mem_of_getElem? hcall)
  · subst he
    obtain rfl : values = [] := List.eq_nil_of_length_eq_zero hlen.symm
    exact .empty _
  · obtain ⟨stamp, hstamp⟩ := Option.isSome_iff_exists.mp hsome
    have hrange : (Pc.returned (.block b) : Pc T).range values.length
        = some (b.start, values.length) := by
      rw [Pc.range, hstamp]
      rfl
    obtain ⟨hbelow, hslots⟩ := hs.backed i _ hcall _ hrange
    obtain ⟨-, hpub⟩ := hs.sound_of_returned hcall rfl _ hrange
    have hlen : b.len = values.length := hlen
    refine ⟨.inr ⟨stamp, hstamp, hlen ▸ Nat.le_trans hbelow hs.whole.fits⟩, hlen,
      fun offset hlt => ?_⟩
    obtain ⟨v, hv, hslot⟩ := hslots offset (hlen ▸ hlt)
    rw [SharedArena.getElem?_contents hs.whole.set, if_pos (by omega), hslot]
    exact hv.symm

/-- Whatever delivers it, the block has the values of its `alloc_block`. -/
theorem Shows.places (h : w.Shows stores) (hn : w.Named)
    {e : Event T} {values : List T} (hvs : w.batch e = some values) {o : Owner} {b : Block}
    (hr : w.reply e = some (o, .block b)) : b.Places tgt values ((w.step e).contents o) := by
  cases e with
  | single e =>
      cases e with
      | request t n req =>
          obtain ⟨⟨m, r⟩, hr', he⟩ := Option.map_eq_some_iff.mp hr
          cases he
          obtain ⟨rfl, ho⟩ := Process.reply_request hr'
          cases req with
          | allocBlock input panics =>
              cases hvs
              exact h.request_places (o := .single m) rfl ho
          | _ => cases hvs
      | write n f => cases hvs
      | draw t => cases hvs
      | exit t => cases hvs
  | start n t ask => cases hr
  | step n i mishap =>
      obtain ⟨rfl, c, hc, hret⟩ := reply_step hr
      obtain ⟨t, ask, pc⟩ := c
      cases ask with
      | allocBlock vs =>
          have hbatch : w.batch (.step n i mishap) = some vs := by rw [batch, hc]
          cases hbatch.symm.trans hvs
          exact h.call_places hn hc rfl hret
      | alloc value => simp [batch, hc] at hvs
      | checkpoint => simp [batch, hc] at hvs
  | alone t n req =>
      obtain ⟨hfree, rfl, ho⟩ := reply_alone hr
      cases req with
      | allocBlock input panics =>
          cases hvs
          rcases hfree with hquiet | hreads
          · exact h.request_places (o := .shared n) hquiet ho
          · cases hreads
      | _ => cases hvs

/-! ### Handles in existence -/

/-- The store of an arena knows the handle, and no range under way there has its slot. -/
structure Tracked (w : World tgt T) (stores : Owner → Store T) (o : Owner) (idx : Idx) : Prop where
  known : (stores o).Known idx
  clear : ∀ n, o = .shared n → (w.shareds n).Clear idx

theorem Tracked.step (h : w.Shows stores) {o : Owner} {idx : Idx} (ht : w.Tracked stores o idx)
    {e : Event T} {stores' : Owner → Store T} (hm : w.Moves stores e stores') :
    (w.step e).Tracked stores' o idx := by
  have hknown := ht.known.later (hm.extended o)
  refine ⟨hknown, ?_⟩
  rintro n rfl
  have hclear := ht.clear n rfl
  by_cases howner : e.owner = some (.shared n)
  · cases e with
    | single e => exact hclear
    | start m t ask =>
        cases howner
        rw [World.step, shareds_put_self]
        exact hclear.start t ask
    | step m i mishap =>
        cases howner
        cases hc : (w.shareds n).calls[i]? with
        | none => rwa [World.step, hc]
        | some c =>
            have hpub := (hm.kept.shareds n).published_of_current hknown
            rw [shareds_step hc] at hpub ⊢
            exact hclear.step (h.intact.shareds n) (answer_spends h.shares.ok c).2 hpub
    | alone t m req =>
        cases howner
        cases hquiet : (w.shareds n).quiet with
        | true => exact .of_calls_nil (shareds_alone hquiet t req)
        | false => rwa [World.step, hquiet]
  · rwa [w.shareds_step_of_ne howner]

theorem Tracked.run (h : w.Shows stores) {o : Owner} {idx : Idx} (ht : w.Tracked stores o idx)
    (es : List (Event T)) :
    ∃ stores', (w.run es).Shows stores' ∧ (w.run es).Tracked stores' o idx := by
  induction es generalizing w stores with
  | nil => exact ⟨stores, h, ht⟩
  | cons e es ih =>
      obtain ⟨stores', hm⟩ := h.moves e
      exact ih hm.kept (ht.step h hm)

/-- The handles of an allocation are tracked from its end on. -/
theorem Moves.tracked (hn : w.Named) {e : Event T} {stores' : Owner → Store T}
    (hm : w.Moves stores e stores') (he : w.completes e = true) {o : Owner} {idx : Idx}
    (hi : idx ∈ w.issued o e) : (w.step e).Tracked stores' o idx := by
  obtain ⟨reply, hr, hidx⟩ := mem_issued.mp hi
  refine ⟨.of_isValid ((hm.issued o reply hr).1 idx hidx), ?_⟩
  rintro n rfl
  cases e with
  | single e =>
      obtain ⟨⟨m, r⟩, -, he⟩ := Option.map_eq_some_iff.mp hr
      cases he
  | start m t ask => cases hr
  | step m i mishap =>
      obtain ⟨ho, c, hc, hret⟩ := reply_step hr
      cases ho
      have hi := hm.kept.intact.shareds n
      have hnamed := hn.step (.step n i mishap) n
      rw [shareds_step hc] at hi hnamed ⊢
      have hcall : ((w.shareds n).step i (w.answer c).1 mishap).calls[i]?
          = some { c with pc := .returned reply } := by
        rw [Shared.getElem?_step hc, if_pos rfl, hret]
      exact hi.clear hcall rfl (hnamed _ (List.mem_of_getElem? hcall)) hidx
  | alone t m req =>
      obtain ⟨hfree, ho, -⟩ := reply_alone hr
      cases ho
      rcases hfree with hquiet | hreads
      · exact .of_calls_nil (shareds_alone hquiet t req)
      · cases hreads.symm.trans (Request.asked_of_allocates he).2

/-- No later allocation has a tracked handle. -/
theorem Tracked.notMem_issued (h : w.Shows stores) (hn : w.Named) {o o' : Owner} {idx : Idx}
    (ht : w.Tracked stores o idx) {e : Event T} (he : w.completes e = true) :
    idx ∉ w.issued o' e := by
  intro hi
  obtain ⟨stores', hm⟩ := h.moves e
  have ht' := ht.step h hm
  obtain ⟨reply, hr, hidx⟩ := mem_issued.mp hi
  have hvalid := (hm.issued o' reply hr).1 idx hidx
  obtain rfl : o' = o := hm.kept.apart (Store.stamp_mem hvalid) ht'.known.stamp_mem
  cases e with
  | single e =>
      cases e with
      | request t m req =>
          obtain ⟨⟨m', r⟩, hr', he'⟩ := Option.map_eq_some_iff.mp hr
          cases he'
          obtain ⟨rfl, ho⟩ := Process.reply_request hr'
          refine hm.not_known h ?_ hvalid
            (h.request_beyond (o := .single m') rfl he ho hidx) ht.known
          exact Event.boundary_of_allocates he
      | write m f => cases he
      | draw t => cases he
      | exit t => cases he
  | start m t ask => cases he
  | step m i mishap =>
      obtain ⟨rfl, c, hc, hret⟩ := reply_step hr
      have hrun : c.pc.running = true := by
        rw [completes, hc] at he
        exact he
      have hs := hm.kept.shareds m
      have hnamed := hn.step (.step m i mishap) m
      rw [shareds_step hc] at hs hnamed
      have hcall : ((w.shareds m).step i (w.answer c).1 mishap).calls[i]?
          = some { c with pc := .returned reply } := by
        rw [Shared.getElem?_step hc, if_pos rfl, hret]
      obtain ⟨hstamp, q, hq, hge, hlt⟩ :=
        (hnamed _ (List.mem_of_getElem? hcall) : reply.Names c.ask.values.length).issued
          (hs.intact.sound_of_returned hcall rfl) hidx
      have hcur := hs.intact.assigned.agree i _ hcall _ hstamp
      have hout := (ht.clear m rfl).range_step (h.intact.shareds m) (answer_spends h.shares.ok c).2
        hc hrun hcur (hs.published_of_current ht'.known hcur) (hret ▸ hq)
      have hlt : idx.slot < q.1 + c.ask.values.length := hlt
      omega
  | alone t m req =>
      obtain ⟨hfree, rfl, ho⟩ := reply_alone hr
      rcases hfree with hquiet | hreads
      · refine hm.not_known h ?_ hvalid
          (h.request_beyond (o := .shared m) hquiet he ho hidx) ht.known
        exact Event.boundary_of_allocates he
      · cases hreads.symm.trans (Request.asked_of_allocates he).2

/-- Until a boundary reaches its slot a handle of a block names its value, as written to. -/
theorem Shows.outcome_tryGet_block {a : Owner} {e : Event T} (h : (w.step e).Shows stores)
    {b : Block} {values : List T}
    (hb : b.Places tgt values ((w.step e).contents a))
    (hvalid : ∀ idx ∈ b.idxs tgt, (stores a).isValid idx = true) (es : List (Event T)) {i : Nat}
    {idx : Idx} (hget : b.get tgt i = some idx)
    (hkept : ∀ n ∈ Change.boundaries (changesOver a (w.step e) es), idx.slot < n) :
    ∃ v, values[i]? = some v ∧ ∀ t, ((w.step e).run es).outcome t a (.tryGet idx)
      = .ok (.value (some (Change.rewritten idx.slot (changesOver a (w.step e) es) v))) := by
  have hlt : i < b.len := (hb.fits.isSome_get i).mp (hget ▸ rfl)
  obtain ⟨stamp, -, hget'⟩ := hb.fits.get_eq hlt
  cases hget.symm.trans hget'
  have hvalid := hvalid _ (Block.mem_idxs_iff_get.mpr ⟨i, hget⟩)
  have hslot := hb.slots i hlt
  rw [h.contents_eq] at hslot
  obtain ⟨stores', h', hext⟩ := h.run es
  have hvalid' := ((hext a).isValid_iff (h'.ok a) hvalid).mpr hkept
  have hvalue := (hext a).tryGet_eq (h'.ok a) hvalid hvalid'
  obtain ⟨v, hv⟩ : ∃ v, values[i]? = some v := ⟨_, List.getElem?_eq_getElem (hb.len ▸ hlt)⟩
  refine ⟨_, hv, fun t => ?_⟩
  rw [Store.tryGet_of_isValid hvalid, hslot, hv, Option.map_some] at hvalue
  rw [h'.outcome_tryGet t a ((hext a).sound (h'.ok a) hvalid), hvalue]

end Event

/-- A block has one index for each value of its batch, in order, and as long as no boundary
reaches them they name these values.  Its iterator yields them from both ends, each once,
and it contains no others.  No two allocations of a process ever issue the same index. -/
theorem blocks_name_their_batches (es₁ es₂ : List (Event T))
    (e e' : Event T) :
    let w₀ : World tgt T := initial
    let p := w₀.run es₁
    let q := (p.step e).run es₂
    (∀ values a b, p.batch e = some values → p.reply e = some (a, .block b) →
      b.len = values.length ∧ (∀ i, (b.get tgt i).isSome = true ↔ i < values.length) ∧
      (∀ i idx, b.get tgt i = some idx →
        let cs := changesOver a (p.step e) es₂
        (∀ n ∈ Change.boundaries cs, idx.slot < n) → ∃ v, values[i]? = some v ∧
          ∀ t, q.outcome t a (.tryGet idx) = .ok (.value (some (Change.rewritten idx.slot cs v)))) ∧
      -- the iterator, after calls from either end
      (∀ ends : List End,
        (∀ side, ((b.indices.after tgt ends).call tgt side).1 =
          if ends.length < b.len then
            match side with
            | .front => b.get tgt (ends.count .front)
            | .back => b.get tgt (b.len - 1 - ends.count .back)
          else none) ∧
        (b.indices.calls tgt ends).reduceOption.Nodup ∧
        (none ∈ b.indices.calls tgt ends →
          ∀ i < b.len, b.get tgt i ∈ b.indices.calls tgt ends) ∧
        (b.indices.after tgt ends).sizeHint + (b.indices.calls tgt ends).reduceOption.length
          = b.len) ∧
      ∀ idx, b.contains idx = true ↔ ∃ i, b.get tgt i = some idx) ∧
    (p.completes e = true → q.completes e' = true →
      ∀ a a', ∀ idx ∈ p.issued a e, idx ∉ q.issued a' e') := by
  intro w₀ p q
  have h₀ : w₀.Shows fun _ => .unused := Shows.initial
  have hn : p.Named := Named.initial.run es₁
  obtain ⟨stores, h, -⟩ := h₀.run es₁
  obtain ⟨stores₁, hm⟩ := h.moves e
  refine ⟨fun values a b hvs hr => ?_, fun he he' a a' idx hi => ?_⟩
  · have hb := h.places hn hvs hr
    refine ⟨hb.len, fun i => hb.len ▸ hb.fits.isSome_get i,
      fun i idx hget hkept => hm.kept.outcome_tryGet_block hb (hm.issued a _ hr).1 es₂ hget hkept,
      fun ends => ⟨BlockIndices.call_after tgt b ends, BlockIndices.nodup_calls hb.fits ends,
        fun hnone i hlt => BlockIndices.get_mem_calls hb.fits hnone hlt,
        BlockIndices.sizeHint_add_length hb.fits ends⟩,
      fun idx => (hb.fits.contains_iff idx).trans Block.mem_idxs_iff_get⟩
  · have ht := hm.tracked hn he hi
    obtain ⟨stores₂, h₂, ht₂⟩ := ht.run hm.kept es₂
    exact ht₂.notMem_issued h₂ ((hn.step e).run es₂) he'

/-- A block and an `alloc` share the arena, which is then rolled back to the first value of
the block.  Another `alloc` takes slot 1 again and issues another index for it. -/
theorem blocks_name_their_batches_reused :
    let tgt : Target := ⟨8, fun _ => true⟩
    let es₁ : List (Event Nat) := [.start 0 0 (.allocBlock [7, 8]), .start 0 1 (.alloc 9)] ++
      [0, 0, 0, 0, 0, 0, 1, 1, 1, 0, 0, 1, 0, 0, 0, 0, 0, 0].map fun i => .step 0 i false
    let es₂ : List (Event Nat) := List.replicate 6 (.step 0 1 false) ++
      [.alone 3 0 (.tryRollback ⟨.nth 0, 1, some (.nth 0)⟩ fun _ _ => false),
        .start 0 2 (.alloc 5)] ++ List.replicate 6 (.step 0 0 false)
    let p : World tgt Nat := (initial : World tgt Nat).run es₁
    let q := (p.step (.step 0 0 false)).run es₂
    q.outcome 4 (.shared 0) (.tryGet ⟨.nth 0, 0⟩) = .ok (.value (some 7)) ∧
      (⟨.nth 0, 1⟩ : Idx) ∉ q.issued (.shared 0) (.step 0 0 false) := by
  intro tgt es₁ es₂ p q
  obtain ⟨hblock, hfresh⟩ :=
    @blocks_name_their_batches tgt Nat es₁ es₂ (.step 0 0 false) (.step 0 0 false)
  have hbatch : p.batch (.step 0 0 false) = some [7, 8] := by decide +kernel
  have hreply : p.reply (.step 0 0 false)
      = some (.shared 0, .block ⟨some (.nth 0), 0, 2⟩) := by decide +kernel
  have hp : p.completes (.step 0 0 false) = true := by decide +kernel
  have hq : q.completes (.step 0 0 false) = true := by decide +kernel
  have hb : Change.boundaries (changesOver (.shared 0) (p.step (.step 0 0 false)) es₂) = [1] := by
    decide +kernel
  have hi : (⟨.nth 0, 1⟩ : Idx) ∈ p.issued (.shared 0) (.step 0 0 false) :=
    mem_issued.mpr ⟨_, hreply, by decide +kernel⟩
  obtain ⟨-, -, hget, -, -⟩ := hblock _ _ _ hbatch hreply
  obtain ⟨v, hv, hvalue⟩ := hget 0 ⟨.nth 0, 0⟩ (by decide +kernel) fun n hn => by
    rw [hb] at hn
    exact List.mem_singleton.mp hn ▸ Nat.one_pos
  obtain rfl : 7 = v := Option.some.inj hv
  have hsame :
    Change.rewritten 0 (changesOver (.shared 0) (p.step (.step 0 0 false)) es₂) 7 = 7 := by
    decide +kernel
  have hvalue := hvalue 4
  rw [hsame] at hvalue
  exact ⟨hvalue, hfresh hp hq _ _ _ hi⟩

end World

end SafeBump
