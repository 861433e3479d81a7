import SafeBump.Deliveries
import SafeBump.Intact

/-!
# What a concurrent arena shows

A failed allocation leaves slots that are reserved and not filled, and slots that are
filled and not published.  Nobody gets to see them: what an arena shows is its
published values and the history its identity stands for, and these are a store
whatever lies in the other slots (`SharedArena.Shows`).

Lookups read that store at any moment.  Between calls a request that has no values to
store is served as the store serves it, unwinding and destructors included
(`SharedArena.Shows.serve`).
-/

namespace SafeBump

open Library.Unwind

variable {tgt : Target} {σ T : Type}

namespace SharedArena

/-- The published values and the history of the identity are those of `st`. -/
structure Shows (a : SharedArena tgt T) (st : Store T) : Prop where
  whole : a.Whole
  view : a.identity.Views st.epochs
  values : st.values = a.contents
  issued : a.published ≠ 0 → a.identity.current ≠ 0
  started : ∀ e, st.epochs = some e → e.start ≤ a.published

namespace Shows

theorem new : (new : SharedArena tgt T).Shows .unused where
  whole := .new
  view := .unborn
  values := rfl
  issued := fun h => absurd rfl h
  started := fun _ he => by cases he

section Lookup

variable {a : SharedArena tgt T} {st : Store T}

theorem length_values (h : a.Shows st) : st.values.length = a.published := by
  rw [h.values, length_contents h.whole.set]

theorem getElem?_values (h : a.Shows st) {slot : Nat} (hlt : slot < a.published) :
    st.values[slot]? = a.storage.slots slot := by
  rw [h.values, getElem?_contents h.whole.set, if_pos hlt]

theorem ok (h : a.Shows st) : st.Ok := by
  have hview := h.view
  have hlen := h.length_values
  have hstarted := h.started
  cases st with
  | unused => trivial
  | live vs e => exact ⟨hview.distinct rfl, hlen ▸ hstarted e rfl⟩

/-- Where something is published there is an identity. -/
theorem mirrors (h : a.Shows st) (hpos : a.published ≠ 0) :
    ∃ id e, a.identity.Mirrors id ∧ id.Models e ∧ st.epochs = some e :=
  h.view.of_current (h.issued hpos)

theorem run_stampOf (h : a.Shows st) {e : Epochs} (he : st.epochs = some e)
    (hpos : a.published ≠ 0) (fresh : Source σ) (slot : Nat) (src : σ) :
    (SharedIdentity.stampOf fresh slot).run (a.identity, src)
      = .ok (e.markAt slot) (a.identity, src) := by
  obtain ⟨id, e', hid, hm, he'⟩ := h.mirrors hpos
  cases he.symm.trans he'
  rw [hid.run_stampOf, hm.stampOf_eq]

theorem run_tailOf (h : a.Shows st) {e : Epochs} (he : st.epochs = some e) {len : Nat}
    (hle : len ≤ a.published) (fresh : Source σ) (src : σ) (d : List T) :
    (tailOf fresh len).run ⟨a, src, d⟩ = .ok (Store.tailOf e len) ⟨a, src, d⟩ := by
  cases len with
  | zero => rfl
  | succ slot =>
      have hpos : a.published ≠ 0 := Nat.ne_of_gt (Nat.lt_of_lt_of_le (Nat.succ_pos slot) hle)
      have hstamp : (onIdentity (SharedIdentity.stampOf fresh slot)).run ⟨a, src, d⟩
          = .ok (e.markAt slot) ⟨a, src, d⟩ :=
        run_onIdentity_pure (h.run_stampOf he hpos fresh slot src) d
      simp [tailOf, hstamp, Store.tailOf]

/-- The checks of a checkpoint read the store. -/
theorem run_validateCheckpoint (h : a.Shows st) (fresh : Source σ) (cp : Checkpoint) (src : σ)
    (d : List T) : (validateCheckpoint fresh cp).run ⟨a, src, d⟩
      = .ok (st.validateCheckpoint cp) ⟨a, src, d⟩ := by
  have hlen : a.len = st.values.length := h.length_values.symm
  have hview := h.view
  simp only [validateCheckpoint, EStateM.run_bind, EStateM.run_get, run_ite, EStateM.run_pure]
  cases st with
  | unused =>
      have hb : a.identity.birth = 0 := by
        generalize a.identity = sid at hview
        cases hview with
        | unborn => rfl
      rw [hb, if_pos cp.owner.ne_zero.symm]
      rfl
  | live vs e =>
      obtain ⟨e', he, hb⟩ := hview.of_birth fun hz => by cases (hview.of_birth_zero hz).2
      cases he
      have hlen : a.len = vs.length := hlen
      have howner : e.birth.get ≠ cp.owner.get ↔ e.birth ≠ cp.owner := not_congr Stamp.get_inj
      rw [hb, hlen, Store.validateCheckpoint]
      simp only [howner]
      split
      · rfl
      · split
        · rfl
        · have hle : cp.len ≤ a.published := Nat.le_trans (Nat.le_of_not_lt ‹_›) hlen.ge
          simp only [h.run_tailOf rfl hle]
          split <;> rfl

/-- A look at a stamp changes nothing, whatever handle it belongs to. -/
theorem run_matches (h : a.Shows st) (hpos : a.published ≠ 0) (fresh : Source σ) (idx : Idx)
    (src : σ) (d : List T) :
    ∃ b, (onIdentity (SharedIdentity.matchesStamp fresh idx.slot idx.stamp)).run ⟨a, src, d⟩
        = .ok b ⟨a, src, d⟩ ∧ (st.Sound idx → ∀ e, st.epochs = some e →
          b = decide (e.markAt idx.slot = idx.stamp)) := by
  obtain ⟨id, e, hid, hm, he⟩ := h.mirrors hpos
  refine ⟨_, run_onIdentity_pure (hid.run_matchesStamp idx.slot idx.stamp) d, fun hs e' he' => ?_⟩
  cases he.symm.trans he'
  rw [Bool.eq_iff_iff, decide_eq_true_iff, ← Arena.stampMatches_iff st.values hm (hs e he)]
  rfl

/-- A check of a handle changes nothing, and if the handle is sound it reads the store. -/
theorem run_isValid (h : a.Shows st) (fresh : Source σ) (idx : Idx) (src : σ) (d : List T) :
    ∃ b, (isValid fresh idx).run ⟨a, src, d⟩ = .ok b ⟨a, src, d⟩ ∧
      (b = true → idx.slot < a.published) ∧ (st.Sound idx → b = st.isValid idx) := by
  have hlen : st.values.length = a.published := h.length_values
  simp only [isValid, EStateM.run_bind, EStateM.run_get, run_ite, EStateM.run_pure]
  by_cases hlt : idx.slot < a.len
  · rw [if_pos hlt]
    have hlt : idx.slot < a.published := hlt
    obtain ⟨b, hrun, hsound⟩ := h.run_matches (Nat.ne_of_gt (Nat.zero_lt_of_lt hlt)) fresh idx src d
    refine ⟨b, hrun, fun _ => hlt, fun hs => ?_⟩
    obtain ⟨-, e, -, -, he⟩ := h.mirrors (Nat.ne_of_gt (Nat.zero_lt_of_lt hlt))
    rw [hsound hs e he]
    cases st with
    | unused => cases he
    | live vs e' =>
        cases he
        have hin : idx.slot < vs.length := hlen ▸ hlt
        rw [Store.isValid, decide_eq_true hin, Bool.true_and]
  · rw [if_neg hlt]
    refine ⟨false, rfl, (fun hf => by cases hf), fun _ => ?_⟩
    exact (Bool.eq_false_iff.mpr fun hv =>
      hlt (Nat.lt_of_lt_of_eq (Store.slot_lt hv) hlen)).symm

theorem run_tryGet (h : a.Shows st) (fresh : Source σ) (idx : Idx) (src : σ) (d : List T) :
    ∃ v, (tryGet fresh idx).run ⟨a, src, d⟩ = .ok v ⟨a, src, d⟩ ∧
      (st.Sound idx → v = st.tryGet idx) := by
  obtain ⟨b, hrun, hlt, hsound⟩ := h.run_isValid fresh idx src d
  simp only [tryGet, EStateM.run_bind, hrun]
  cases b with
  | false =>
      refine ⟨none, rfl, fun hs => ?_⟩
      rw [Store.tryGet, ← hsound hs]
      rfl
  | true =>
      have hlt := hlt rfl
      obtain ⟨v, hv⟩ := Option.ne_none_iff_exists'.mp (h.whole.set idx.slot hlt)
      refine ⟨some v, ?_, fun hs => ?_⟩
      · simp only [Bool.not_true, run_ite, EStateM.run_bind, EStateM.run_get,
          ChunkedStorage.get_eq hv, run_ofExcept_ok, EStateM.run_pure]
        rfl
      · rw [Store.tryGet_of_isValid (hsound hs).symm, h.getElem?_values hlt, hv]

/-- The indexed iterator issues the good handles. -/
theorem run_iterIndexed (h : a.Shows st) (fresh : Source σ) (src : σ) (d : List T) :
    (iterIndexed fresh).run ⟨a, src, d⟩ = .ok st.indexed ⟨a, src, d⟩ := by
  have hlen := h.length_values
  have hvalues := h.values
  rcases Nat.eq_zero_or_pos a.published with hz | hpos
  · have hnil : st.values = [] := List.eq_nil_of_length_eq_zero (hlen.trans hz)
    have hindexed : st.indexed = [] := by
      cases st with
      | unused => rfl
      | live vs e =>
          have hnil : vs = [] := hnil
          subst hnil
          rfl
    simp only [iterIndexed, EStateM.run_bind, EStateM.run_get, len, hz, hindexed]
    rfl
  · obtain ⟨-, e, -, -, he⟩ := h.mirrors (Nat.ne_of_gt hpos)
    have hrun := run_iterIndexed_contents
      (fun slot src => h.run_stampOf he (Nat.ne_of_gt hpos) fresh slot src) h.whole.set src d
    cases st with
    | unused => cases he
    | live vs e' =>
        cases he
        have hvs : vs = a.contents := hvalues
        rw [hrun, ← hvs]
        rfl

/-- What a read answers at any moment: good handles, and no checkpoint. -/
theorem read (h : a.Shows st) {fresh : Source σ} {req : Request T} (hreads : req.reads = true)
    {reply : Reply T} {src : σ} {d : List T} {c : Ctx (SharedArena tgt T) σ T}
    (hrun : (serve fresh req).run ⟨a, src, d⟩ = .ok reply c) :
    (∀ idx ∈ reply.issued tgt, st.isValid idx = true) ∧
      ∀ cp, reply = .checkpoint cp → st.validateCheckpoint cp = .ok () := by
  cases req with
  | iterIndexed =>
      obtain ⟨pairs, hr, rfl⟩ := run_map_ok hrun
      cases (h.run_iterIndexed fresh src d).symm.trans hr
      refine ⟨fun idx hi => ?_, fun _ he => by cases he⟩
      obtain ⟨⟨_, v⟩, hmem, rfl⟩ := List.mem_map.mp hi
      exact (Store.isValid_indexed hmem).1
  | iter =>
      simp only [serve, EStateM.run_bind, EStateM.run_get, iter_contents h.whole.set,
        run_ofExcept_ok] at hrun
      cases hrun
      exact ⟨(fun _ hi => by cases hi), fun _ he => by cases he⟩
  | len =>
      cases hrun
      exact ⟨(fun _ hi => by cases hi), fun _ he => by cases he⟩
  | validateCheckpoint cp =>
      obtain ⟨_, -, rfl⟩ := run_map_ok hrun
      exact ⟨(fun _ hi => by cases hi), fun _ he => by cases he⟩
  | isValid idx =>
      obtain ⟨_, -, rfl⟩ := run_map_ok hrun
      exact ⟨(fun _ hi => by cases hi), fun _ he => by cases he⟩
  | tryGet idx =>
      obtain ⟨_, -, rfl⟩ := run_map_ok hrun
      exact ⟨(fun _ hi => by cases hi), fun _ he => by cases he⟩
  | _ => cases hreads

end Lookup

/-! ## Requests that store nothing -/

/-- A call is as far on the arena as on the store it shows, and no other call has a hand in
the identity. -/
def Showing (c : Ctx (SharedArena tgt T) σ T) (c' : Ctx (Store T) σ T) : Prop :=
  c.arena.Shows c'.arena ∧ c.arena.identity.Sane True ∧ c.source = c'.source ∧
    c.dropped = c'.dropped

section Serve

variable {a : SharedArena tgt T} {st : Store T} {fresh : Source σ} {src : σ} {vs : List T}
  {e : Epochs}

/-- Between calls there is an identity exactly where there is a history. -/
theorem settled (h : a.Shows st) (hs : a.identity.Sane True) :
    st = .unused ∧ a.identity = .new ∧ a.published = 0 ∨
      ∃ vs e id, st = .live vs e ∧ a.identity.Mirrors id ∧ id.Models e := by
  have hview := h.view
  cases st with
  | unused =>
      have hid : a.identity = .new := by
        generalize a.identity = sid at hview
        cases hview with
        | unborn => rfl
      refine .inl ⟨rfl, hid, Nat.eq_zero_of_not_pos fun hpos => ?_⟩
      exact h.issued (Nat.ne_of_gt hpos) (by rw [hid]; rfl)
  | live vs e =>
      rcases hs with ⟨hid, -⟩ | ⟨i, hid⟩
      · cases (hview.of_birth_zero (by rw [hid]; rfl)).2
      · obtain ⟨id, e', hid, hm, he⟩ := hview.of_current hid.current_ne_zero
        cases he
        exact .inr ⟨vs, e, id, rfl, hid, hm⟩

/-- Only the identity changes. -/
theorem identify (h : a.Shows st) {sid : SharedIdentity} {id : Identity} (hid : sid.Mirrors id)
    (hm : id.Models e) (hstart : e.start ≤ a.published) :
    ({ a with identity := sid } : SharedArena tgt T).Shows (.live st.values e) where
  whole := ⟨h.whole.ordered, h.whole.fits, h.whole.set, h.whole.allocated⟩
  view := .assigned hid hm
  values := h.values
  issued := fun _ => hid.current_ne_zero
  started := by
    rintro _ ⟨⟩
    exact hstart

/-- The last published slot is emptied. -/
theorem run_takeSlot {v : T} (h : a.Shows (.live (vs ++ [v]) e)) (hstart : e.start ≤ vs.length)
    (src : σ) (d : List T) :
    ∃ a', (takeSlot vs.length).run ⟨a, src, d⟩ = .ok v ⟨a', src, d⟩ ∧
      a'.identity = a.identity ∧ a'.Shows (.live vs e) := by
  have hlen : vs.length + 1 = a.published := by
    rw [← h.length_values, Store.values_live, List.length_append, List.length_singleton]
  have hslot : ∀ i, i < a.published → a.storage.slots i = (vs ++ [v])[i]? := fun i hlt =>
    (h.getElem?_values hlt).symm
  have hlast : a.storage.slots vs.length = some v := by
    rw [hslot _ (by omega), List.getElem?_concat_length]
  obtain ⟨chunks, htake, hchunks⟩ := ChunkedStorage.take_eq hlast
  have hset : ∀ i < vs.length, chunks.slots i = vs[i]? := by
    intro i hlt
    rw [hchunks, if_neg (Nat.ne_of_lt hlt), hslot i (by omega), List.getElem?_append_left hlt]
  have hwhole : ({ a with storage := chunks, published := vs.length, reserved := vs.length } :
      SharedArena tgt T).Whole := by
    refine ⟨Nat.le_refl _, ?_, fun i hlt => ?_, h.whole.allocated.take htake⟩
    · have hfits := Nat.le_trans h.whole.ordered h.whole.fits
      show vs.length ≤ tgt.usizeMax
      omega
    · show chunks.slots i ≠ none
      rw [hset i hlt, List.getElem?_eq_getElem hlt]
      exact Option.some_ne_none _
  refine ⟨{ a with storage := chunks, published := vs.length, reserved := vs.length },
    by simp [takeSlot, htake, expect], rfl, hwhole, h.view, ?_, fun _ => h.issued (by omega), ?_⟩
  · refine List.ext_getElem? fun i => ?_
    rw [getElem?_contents hwhole.set]
    split
    · exact (hset i ‹_›).symm
    · exact List.getElem?_eq_none (Nat.le_of_not_lt ‹_›)
  · rintro _ ⟨⟩
    exact hstart

/-- The loop of a rollback or reset empties the published slots down to the target, or to
the first destructor that panics.  The induction takes the values from the end. -/
theorem run_takeDownTo (panics : Dtor T) {target fuel : Nat} (hle : target ≤ vs.length)
    (h : a.Shows (.live vs e)) (hstart : e.start ≤ target) (hfuel : fuel = vs.length) (src : σ)
    (d : List T) :
    ∃ a', a'.identity = a.identity ∧
      a'.Shows (.live (vs.take ((lastPanic panics vs target vs.length).getD target)) e) ∧
      (takeDownTo panics target fuel).run ⟨a, src, d⟩ =
        match lastPanic panics vs target vs.length with
        | none => .ok () ⟨a', src, d ++ (vs.drop target).reverse⟩
        | some k => .error (.unwinds .destructor) ⟨a', src, d ++ (vs.drop k).reverse⟩ := by
  subst hfuel
  induction vs using List.reverseRecOn generalizing a d with
  | nil => exact ⟨a, rfl, by simpa [lastPanic] using h, by simp [takeDownTo, lastPanic]⟩
  | append_singleton vs v ih =>
      have hpub : a.published = vs.length + 1 := by
        rw [← h.length_values, Store.values_live, List.length_append, List.length_singleton]
      rw [Arena.lastPanic_concat, List.length_append, List.length_singleton, takeDownTo]
      simp only [EStateM.run_bind, EStateM.run_get, run_ite, hpub, Nat.add_sub_cancel]
      rcases Nat.lt_or_ge vs.length target with hlt | hge
      · rw [List.length_append, List.length_singleton] at hle
        obtain rfl : target = (vs ++ [v]).length := by
          rw [List.length_append, List.length_singleton]
          omega
        rw [if_pos hlt, if_neg (by simp), List.drop_length, Option.getD_none, List.take_length]
        exact ⟨a, rfl, h, by simp⟩
      · obtain ⟨a', htake, hid, h'⟩ := h.run_takeSlot (Nat.le_trans hstart hge) src d
        rw [if_neg (Nat.not_lt.mpr hge), if_pos (Nat.lt_succ_of_le hge)]
        simp only [htake, run_dropValue]
        cases hp : panics vs.length v with
        | true => exact ⟨a', hid, by simpa using h', by simp⟩
        | false =>
            obtain ⟨a'', hid', h'', hrun⟩ := ih hge h' (d ++ [v])
            simp only [Bool.false_eq_true, if_false]
            rw [hrun]
            refine ⟨a'', hid'.trans hid, ?_, ?_⟩
            · cases hl : lastPanic panics vs target vs.length with
              | none => simpa [hl, List.take_append_of_le_length hge] using h''
              | some k =>
                  have hk := Nat.le_of_lt (Store.lastPanic_bounds hl).2
                  simpa [hl, List.take_append_of_le_length hk] using h''
            · cases hl : lastPanic panics vs target vs.length with
              | none => simp [List.drop_append_of_le_length hge]
              | some k =>
                  have hk := Nat.le_of_lt (Store.lastPanic_bounds hl).2
                  simp [List.drop_append_of_le_length hk]

/-- All published slots are emptied, from the last one down. -/
theorem run_takeAll {fuel : Nat} (h : a.Shows (.live vs e)) (hstart : e.start = 0)
    (hfuel : fuel = vs.length) (taken : List T) (src : σ) (d : List T) :
    ∃ a', a'.identity = a.identity ∧ a'.Shows (.live [] e) ∧
      (takeAll fuel taken).run ⟨a, src, d⟩ = .ok (taken ++ vs.reverse) ⟨a', src, d⟩ := by
  subst hfuel
  induction vs using List.reverseRecOn generalizing a taken with
  | nil => exact ⟨a, rfl, h, by simp [takeAll]⟩
  | append_singleton vs v ih =>
      obtain ⟨a', htake, hid, h'⟩ := h.run_takeSlot (hstart ▸ Nat.zero_le _) src d
      obtain ⟨a'', hid', h'', hrun⟩ := ih h' (taken ++ [v])
      refine ⟨a'', hid'.trans hid, h'', ?_⟩
      simp only [List.length_append, List.length_singleton, takeAll, EStateM.run_bind,
        run_owning_ok taken htake, hrun]
      simp

/-- A commit begins an epoch of what the arena shows, or fails for want of a stamp. -/
theorem commit {id : Identity} (h : a.Shows (.live vs e)) (hid : a.identity.Mirrors id)
    (hm : id.Models e) (hnew : ∀ s src', fresh src = (.ok s, src') → s ∉ e.marks) {n : Nat}
    (hn : n ≤ vs.length) (d : List T) :
    (∃ p src' sid, fresh src = (.error p, src') ∧
      (onIdentity (SharedIdentity.commit fresh n)).run ⟨a, src, d⟩
        = .error (.unwinds p) ⟨{ a with identity := sid }, src', d⟩ ∧ sid.Sane True ∧
      ({ a with identity := sid } : SharedArena tgt T).Shows (.live vs e)) ∨
    ∃ s src' sid, fresh src = (.ok s, src') ∧
      (onIdentity (SharedIdentity.commit fresh n)).run ⟨a, src, d⟩
        = .ok () ⟨{ a with identity := sid }, src', d⟩ ∧ sid.Sane True ∧
      ({ a with identity := sid } : SharedArena tgt T).Shows (.live vs (e.commit n s)) := by
  have hlen : vs.length = a.published := h.length_values
  rcases hf : fresh src with ⟨p | s, src'⟩
  · obtain ⟨sid, hrun, hid'⟩ := hid.commit_error hf n
    exact .inl ⟨p, src', sid, rfl, run_onIdentity_error hrun d, .of_mirrors hid',
      h.identify hid' hm.archive (h.started e rfl)⟩
  · obtain ⟨sid, hrun, hid'⟩ := hid.commit_ok hf n
    exact .inr ⟨s, src', sid, rfl, run_onIdentity_ok hrun d, .of_mirrors hid',
      h.identify hid' (hm.commit (hnew s src' hf)) (hlen ▸ hn)⟩

theorem cutDown (h : a.Shows st) (hs : a.identity.Sane True)
    (hnew : ∀ s src', fresh src = (.ok s, src') → s ∉ st.marks) (panics : Dtor T) {n : Nat}
    (hn : n ≤ st.values.length) (d : List T) :
    EndsLike Eq Showing Eq ((cutDown fresh panics n).run ⟨a, src, d⟩)
      ((Store.cutDown fresh panics n).run ⟨st, src, d⟩) := by
  rcases h.settled hs with ⟨rfl, hid, hpub⟩ | ⟨vs, e, id, rfl, hid, hm⟩
  · have hcommit : (SharedIdentity.commit fresh n).run (a.identity, src)
        = .ok () (a.identity, src) := by
      rw [hid, SharedIdentity.run_commit_new]
    simp only [SharedArena.cutDown, EStateM.run_bind, run_onIdentity_pure hcommit, EStateM.run_get,
      hpub]
    exact ⟨rfl, h, hs, rfl, rfl⟩
  · rcases h.commit hid hm hnew hn d with
      ⟨p, src', sid, hf, hcommit, hs', h'⟩ | ⟨s, src', sid, hf, hcommit, hs', h'⟩
    · rw [Store.run_cutDown_error hf]
      simp only [SharedArena.cutDown, EStateM.run_bind, hcommit]
      exact ⟨rfl, h', hs', rfl, rfl⟩
    · have hpub : a.published = vs.length := h.length_values.symm
      have hn : n ≤ vs.length := hn
      obtain ⟨a', hid', h'', hrun⟩ := h'.run_takeDownTo panics hn (Nat.le_refl n) hpub src' d
      simp only [SharedArena.cutDown, EStateM.run_bind, hcommit, EStateM.run_get, hrun]
      cases hp : lastPanic panics vs n vs.length with
      | none =>
          rw [hp] at h''
          rw [Store.run_cutDown_ok hf hp]
          exact ⟨rfl, h'', hid' ▸ hs', rfl, rfl⟩
      | some k =>
          rw [hp] at h''
          rw [Store.run_cutDown_panic hf hp]
          exact ⟨rfl, h'', hid' ▸ hs', rfl, rfl⟩

theorem drain (h : a.Shows st) (hs : a.identity.Sane True)
    (hnew : ∀ s src', fresh src = (.ok s, src') → s ∉ st.marks) (d : List T) :
    EndsLike Eq Showing Eq ((drain fresh).run ⟨a, src, d⟩)
      ((Store.drain fresh).run ⟨st, src, d⟩) := by
  rcases h.settled hs with ⟨rfl, hid, hpub⟩ | ⟨vs, e, id, rfl, hid, hm⟩
  · have hcommit : (SharedIdentity.commit fresh 0).run (a.identity, src)
        = .ok () (a.identity, src) := by
      rw [hid, SharedIdentity.run_commit_new]
    simp only [SharedArena.drain, EStateM.run_bind, run_onIdentity_pure hcommit, EStateM.run_get,
      hpub]
    exact ⟨rfl, h, hs, rfl, rfl⟩
  · rcases h.commit hid hm hnew (Nat.zero_le _) d with
      ⟨p, src', sid, hf, hcommit, hs', h'⟩ | ⟨s, src', sid, hf, hcommit, hs', h'⟩
    · rw [Store.run_drain_error hf]
      simp only [SharedArena.drain, EStateM.run_bind, hcommit]
      exact ⟨rfl, h', hs', rfl, rfl⟩
    · have hpub : a.published = vs.length := h.length_values.symm
      obtain ⟨a', hid', h'', hrun⟩ := h'.run_takeAll rfl hpub [] src' d
      rw [Store.run_drain_ok hf]
      simp only [SharedArena.drain, EStateM.run_bind, hcommit, EStateM.run_get, hrun,
        EStateM.run_pure, List.nil_append, List.reverse_reverse]
      exact ⟨rfl, h'', hid' ▸ hs', rfl, rfl⟩

/-- Capturing the empty prefix of an arena without an identity assigns one. -/
theorem checkpoint (h : a.Shows st) (hs : a.identity.Sane True) (d : List T) :
    EndsLike Eq Showing Eq ((checkpoint fresh).run ⟨a, src, d⟩)
      ((Store.checkpoint fresh).run ⟨st, src, d⟩) := by
  have hlen : a.len = st.values.length := h.length_values.symm
  rcases h.settled hs with ⟨rfl, hid, hpub⟩ | ⟨vs, e, id, rfl, hid, hm⟩
  · have hzero : a.len = 0 := hpub
    have htail : (tailOf fresh 0).run ⟨a, src, d⟩ = .ok none ⟨a, src, d⟩ := rfl
    rcases hf : fresh src with ⟨p | s, src'⟩
    · have hbirth : (SharedIdentity.birthStamp fresh).run (a.identity, src)
          = .error (.unwinds p) (a.identity, src') := by
        rw [hid, SharedIdentity.run_birthStamp_new, SharedIdentity.run_assign_error hf]
      simp only [SharedArena.checkpoint, Store.checkpoint, EStateM.run_bind,
        Store.run_assigned_error hf, EStateM.run_get, hzero, htail, run_onIdentity_error hbirth]
      exact ⟨rfl, h, hs, rfl, rfl⟩
    · have hbirth : (SharedIdentity.birthStamp fresh).run (a.identity, src)
          = .ok s (.born s, src') := by
        rw [hid, SharedIdentity.run_birthStamp_new, SharedIdentity.run_assign_ok hf]
      simp only [SharedArena.checkpoint, Store.checkpoint, EStateM.run_bind,
        Store.run_assigned_ok hf, EStateM.run_get, hzero, htail, run_onIdentity_ok hbirth]
      exact ⟨rfl, h.identify (.of_born s) (.new s) (Nat.zero_le _), .of_mirrors (.of_born s), rfl,
        rfl⟩
  · have hlen : a.len = vs.length := hlen
    have hbirth : (onIdentity (SharedIdentity.birthStamp fresh)).run ⟨a, src, d⟩
        = .ok e.birth ⟨a, src, d⟩ := by
      rw [← hm.birth]
      exact run_onIdentity_pure hid.run_birthStamp d
    have htail := h.run_tailOf rfl (Nat.le_refl a.len) fresh src d
    rw [hlen] at htail
    simp only [SharedArena.checkpoint, Store.checkpoint, EStateM.run_bind, EStateM.run_get, hlen,
      htail, hbirth, Store.run_assigned_live]
    exact ⟨rfl, h, hs, rfl, rfl⟩

theorem tryRollback (h : a.Shows st) (hs : a.identity.Sane True)
    (hnew : ∀ s src', fresh src = (.ok s, src') → s ∉ st.marks) (panics : Dtor T)
    (cp : Checkpoint) (d : List T) :
    EndsLike Eq Showing Eq ((tryRollback fresh panics cp).run ⟨a, src, d⟩)
      ((Store.tryRollback fresh panics cp).run ⟨st, src, d⟩) := by
  have hv := h.run_validateCheckpoint fresh cp src d
  cases hr : st.validateCheckpoint cp with
  | error err =>
      simp only [SharedArena.tryRollback, Store.tryRollback, EStateM.run_bind, EStateM.run_get, hv,
        hr]
      exact ⟨rfl, h, hs, rfl, rfl⟩
  | ok u =>
      rw [hr] at hv
      rw [SharedArena.run_tryRollback_valid hv,
        Store.run_tryRollback_valid (c := ⟨st, src, d⟩) hr]
      exact (h.cutDown hs hnew panics (Store.validateCheckpoint_ok hr) d).map fun _ _ _ => rfl

/-- An input that yields nothing, or panics, leaves the arena alone. -/
theorem allocBlock_of_nothing (h : a.Shows st) (hs : a.identity.Sane True) (panics : Dtor T)
    {input : Input T} (hnil : (if input.panics then [] else input.values) = []) (d : List T) :
    EndsLike Eq Showing Eq ((allocBlock fresh panics input).run ⟨a, src, d⟩)
      ((Store.allocBlock tgt fresh input).run ⟨st, src, d⟩) := by
  obtain ⟨values, panicking⟩ := input
  cases panicking with
  | true => exact ⟨rfl, h, hs, rfl, rfl⟩
  | false =>
      cases values with
      | nil => exact ⟨rfl, h, hs, rfl, rfl⟩
      | cons v values => cases hnil

/-- Between calls a request that has nothing to store is served as by the store that is shown.
Handles have to be sound. -/
theorem serve (h : a.Shows st) (hs : a.identity.Sane True)
    (hnew : ∀ s src', fresh src = (.ok s, src') → s ∉ st.marks) {req : Request T}
    (hreq : req.stored = []) (hsound : ∀ idx, req.asked = some idx → st.Sound idx) (d : List T) :
    EndsLike Eq Showing Eq ((serve fresh req).run ⟨a, src, d⟩)
      ((Store.serve tgt fresh req).run ⟨st, src, d⟩) := by
  cases req with
  | alloc value => cases hreq
  | allocBlock input panics =>
      exact (h.allocBlock_of_nothing hs panics hreq d).map fun _ _ he => congrArg Reply.block he
  | extend input panics => exact (h.allocBlock_of_nothing hs panics hreq d).map fun _ _ _ => rfl
  | checkpoint => exact (h.checkpoint hs d).map fun _ _ he => congrArg _ he
  | tryRollback cp panics =>
      exact (h.tryRollback hs hnew panics cp d).map fun _ _ he => congrArg _ he
  | reset panics => exact (h.cutDown hs hnew panics (Nat.zero_le _) d).map fun _ _ _ => rfl
  | drain => exact (h.drain hs hnew d).map fun _ _ he => congrArg _ he
  | len => exact ⟨congrArg Reply.len h.length_values.symm, h, hs, rfl, rfl⟩
  | validateCheckpoint cp =>
      simp only [SharedArena.serve, run_map, h.run_validateCheckpoint]
      exact ⟨rfl, h, hs, rfl, rfl⟩
  | isValid idx =>
      obtain ⟨b, hrun, -, hb⟩ := h.run_isValid fresh idx src d
      simp only [SharedArena.serve, run_map, hrun, hb (hsound idx rfl)]
      exact ⟨rfl, h, hs, rfl, rfl⟩
  | tryGet idx =>
      obtain ⟨v, hrun, hv⟩ := h.run_tryGet fresh idx src d
      simp only [SharedArena.serve, run_map, hrun, hv (hsound idx rfl)]
      exact ⟨rfl, h, hs, rfl, rfl⟩
  | iter =>
      simp only [SharedArena.serve, EStateM.run_bind, EStateM.run_get, iter_contents h.whole.set,
        run_ofExcept_ok]
      exact ⟨congrArg Reply.values h.values.symm, h, hs, rfl, rfl⟩
  | iterIndexed =>
      simp only [SharedArena.serve, run_map, h.run_iterIndexed]
      exact ⟨rfl, h, hs, rfl, rfl⟩

end Serve

/-! ## Requests that store something -/

section Grow

variable {a a' : SharedArena tgt T} {st : Store T} {fresh : Source σ} {vs values : List T}
  {e : Epochs}

/-- Where nothing is taken back more values may come to be shown. -/
theorem extend (h : a.Shows (.live vs e)) (hext : a.Extends a') (hid : a'.identity = a.identity)
    (hcur : a.identity.current ≠ 0) : ∃ ws, a'.Shows (.live (vs ++ ws) e) := by
  obtain ⟨ws, hws⟩ := hext.contents_prefix h.whole
  refine ⟨ws, hext.whole, hid ▸ h.view, ?_, fun _ => hid ▸ hcur, fun e' he => ?_⟩
  · rw [← hws, ← h.values]
    rfl
  · exact Nat.le_trans (h.started e' he) hext.published

/-- A range of the current epoch that is published and was handed out under its mark. -/
theorem isValid_handle (h : a.Shows st) {req : Request T} {stamp : Stamp} {start : Nat}
    (hstamp : stamp.get = a.identity.current) (hstart : ∀ e, st.epochs = some e → e.start ≤ start)
    (hpub : start + req.stored.length ≤ a.published) {idx : Idx}
    (hi : idx ∈ (handle req (stamp, start)).issued tgt) (hreq : req.stored ≠ []) :
    st.isValid idx = true := by
  have hvalid : ∀ offset < req.stored.length, st.isValid ⟨stamp, start + offset⟩ = true := by
    intro offset hlt
    refine Store.isValid_of_current h.view hstamp
      (fun e he => Nat.le_add_right_of_le (hstart e he)) ?_
    rw [h.length_values]
    omega
  cases req with
  | alloc v =>
      rw [List.mem_singleton.mp hi]
      exact hvalid 0 (Nat.succ_pos 0)
  | allocBlock input =>
      obtain ⟨values, panics⟩ := input
      cases panics with
      | true => exact absurd rfl hreq
      | false =>
          obtain ⟨offset, hlt, -, rfl⟩ := Block.mem_idxs.mp hi
          exact hvalid offset hlt
  | _ => cases hi

/-- An allocation on an arena with an identity, however far it gets. -/
theorem placing (fresh : Source σ) (panics : Dtor T) (h : a.Shows (.live vs e)) {id : Identity}
    (hid : a.identity.Mirrors id) (hne : values ≠ []) (src : σ) (d : List T) :
    let res := (placing fresh panics values).run ⟨a, src, d⟩
    (left res).source = src ∧ (left res).arena.identity = a.identity ∧
      (∃ ws, (left res).arena.Shows (.live (vs ++ ws) e)) ∧
      ∀ r, ending res = .ok r → r.1.get = a.identity.current ∧ r.2 = a.reserved ∧
        a.reserved + values.length ≤ (left res).arena.published := by
  intro res
  obtain ⟨hid', hext⟩ := placing_live fresh panics h.whole hid hne src d
  refine ⟨?_, hid', h.extend hext hid' hid.current_ne_zero, ?_⟩
  · rcases Nat.lt_or_ge tgt.usizeMax (a.reserved + values.length) with hfull | hfit
    · rw [show res = _ from run_placing_full _ hid hne hfull src d]
      rfl
    · obtain ⟨_, -, -, hrun⟩ := run_placing panics fresh h.whole hid hne hfit src d
      rw [show res = _ from hrun]
      split
      · split <;> rfl
      · rfl
  · intro r hr
    rcases Nat.lt_or_ge tgt.usizeMax (a.reserved + values.length) with hfull | hfit
    · rw [show res = _ from run_placing_full _ hid hne hfull src d] at hr
      cases hr
    · obtain ⟨_, -, -, hrun⟩ := run_placing panics fresh h.whole hid hne hfit src d
      rw [show res = _ from hrun] at hr ⊢
      have hord := h.whole.ordered
      split at hr
      · rw [if_pos ‹_›]
        split at hr
        · rw [if_pos ‹_›]
          cases hr
          refine ⟨hid.current.symm, rfl, ?_⟩
          show a.reserved + values.length ≤ a.published + _
          omega
        · cases hr
      · cases hr

/-- Between calls a request that has values to store adds to what is shown, as far as it gets,
and the handles it returns are good. -/
theorem grow (fresh : Source σ) (h : a.Shows st) (hs : a.identity.Sane True) {req : Request T}
    (hreq : req.stored ≠ []) (src : σ) (d : List T) :
    let res := (SharedArena.serve fresh req).run ⟨a, src, d⟩
    ∃ st', Store.Step fresh (st, src) none (st', (left res).source) ∧ (left res).arena.Shows st' ∧
      ∀ reply, ending res = .ok reply → (∀ idx ∈ reply.issued tgt, st'.isValid idx = true) ∧
        ∀ cp, reply ≠ .checkpoint cp := by
  intro res
  -- the case of an arena with an identity; the first allocation is one on an empty such arena
  have hlive : ∀ {a : SharedArena tgt T} {vs : List T} {e : Epochs} {id : Identity} (src : σ),
      a.Shows (.live vs e) → a.identity.Mirrors id →
      let res := (SharedArena.serve fresh req).run ⟨a, src, d⟩
      (left res).source = src ∧ ∃ ws, (left res).arena.Shows (.live (vs ++ ws) e) ∧
        ∀ reply, ending res = .ok reply →
          (∀ idx ∈ reply.issued tgt, (Store.live (vs ++ ws) e).isValid idx = true) ∧
          ∀ cp, reply ≠ .checkpoint cp := by
    intro a vs e id src h hid res
    obtain ⟨hsrc, hid', ⟨ws, h'⟩, hok⟩ := h.placing fresh req.movedDtor hid hreq src d
    have hres : res = _ := run_serve_placing hreq ⟨a, src, d⟩
    rw [hres, left_run_map, ending_run_map]
    refine ⟨hsrc, ws, h', fun reply hr => ?_⟩
    obtain ⟨r, hplaced, rfl⟩ : ∃ r, ending ((SharedArena.placing fresh req.movedDtor
        req.stored).run ⟨a, src, d⟩) = .ok r ∧ reply = handle req r := by
      cases hp : ending ((SharedArena.placing fresh req.movedDtor req.stored).run ⟨a, src, d⟩) with
      | error e => rw [hp] at hr; cases hr
      | ok r =>
          rw [hp] at hr
          cases hr
          exact ⟨r, rfl, rfl⟩
    obtain ⟨hstamp, hstart, hpub⟩ := hok r hplaced
    obtain ⟨stamp, start⟩ := r
    cases hstart
    refine ⟨fun idx hi => h'.isValid_handle (hid'.symm ▸ hstamp) (fun e' he => ?_) hpub hi hreq,
      fun cp hcp => ?_⟩
    · cases he
      exact Nat.le_trans (h.started e rfl) h.whole.ordered
    · cases req <;> cases hcp
  rcases h.settled hs with ⟨rfl, hid, -⟩ | ⟨vs, e, id, rfl, hid, hm⟩
  · have hplacing : res = _ := run_serve_placing hreq ⟨a, src, d⟩
    rcases hf : fresh src with ⟨p | s, src'⟩
    · rw [run_map, run_placing_error _ hf hid] at hplacing
      rw [hplacing]
      exact ⟨.unused, .failed _ hf, h, fun reply hr => by cases hr⟩
    · rw [run_map, run_placing_new _ hf hid, ← run_map, ← run_serve_placing hreq] at hplacing
      have hborn : ({ a with identity := .born s } : SharedArena tgt T).Shows
          (.live (Store.unused : Store T).values (.new s)) :=
        h.identify (.of_born s) (.new s) (Nat.zero_le _)
      obtain ⟨hsrc, ws, h', hok⟩ := hlive src' hborn (.of_born s)
      rw [hplacing, hsrc]
      exact ⟨_, .born _ hf, h', hok⟩
  · obtain ⟨hsrc, ws, h', hok⟩ := hlive src h hid
    exact ⟨_, hsrc.symm ▸ .push vs ws e src, h', hok⟩

/-- Whatever is asked of an arena no call is under way on, and however it ends, is a step of
what the arena shows, and what is issued or captured is good.  If there is nothing to store it
is all that the request does to a store. -/
theorem request (h : a.Shows st) (hs : a.identity.Sane True) {src : σ}
    (hnew : ∀ s src', fresh src = (.ok s, src') → s ∉ st.marks)
    (hsrc : ∀ p src', fresh src = (.error p, src') → p = .stampSpaceExhausted) (req : Request T)
    (d : List T) :
    let res := (SharedArena.serve fresh req).run ⟨a, src, d⟩
    ∃ st', Store.Step fresh (st, src) (committed req (ending res)) (st', (left res).source) ∧
      (left res).arena.Shows st' ∧
      (∀ reply, ending res = .ok reply → (∀ idx ∈ reply.issued tgt, st'.isValid idx = true) ∧
        ∀ cp, reply = .checkpoint cp → st'.validateCheckpoint cp = .ok ()) ∧
      (req.stored = [] → Store.Served tgt fresh req ⟨st, src, d⟩ (ending res)
        ⟨st', (left res).source, (left res).dropped⟩) := by
  intro res
  by_cases hstored : req.stored = []
  · cases hasked : req.asked with
    | some idx =>
        -- a check of a handle leaves everything as it is, be it sound or not
        have hlook : ∃ reply, res = .ok reply ⟨a, src, d⟩ ∧
            Store.Served tgt fresh req ⟨st, src, d⟩ (.ok reply) ⟨st, src, d⟩ := by
          cases req with
          | isValid idx =>
              obtain ⟨b, hrun, -⟩ := h.run_isValid fresh idx src d
              exact ⟨.valid b, by simp only [res, SharedArena.serve, run_map, hrun],
                .of_answer _ rfl rfl rfl rfl (fun _ hcp => by cases hcp) rfl⟩
          | tryGet idx =>
              obtain ⟨v, hrun, -⟩ := h.run_tryGet fresh idx src d
              exact ⟨.value v, by simp only [res, SharedArena.serve, run_map, hrun],
                .of_answer _ rfl rfl rfl rfl (fun _ hcp => by cases hcp) rfl⟩
          | _ => cases hasked
        obtain ⟨reply, hres, hserved⟩ := hlook
        rw [hres]
        exact ⟨st, hserved.step, h, fun reply hr =>
          ⟨hserved.issued reply hr, fun cp hcp => hserved.captured cp (hcp ▸ hr)⟩, fun _ => hserved⟩
    | none =>
        have hsim := h.serve hs hnew hstored (fun idx hi => by rw [hasked] at hi; cases hi) d
        have hserved := Store.serve_served tgt (c := ⟨st, src, d⟩) h.ok hsrc req
        obtain ⟨hshows, -, hsource, hdropped⟩ := hsim.left
        rw [← hsim.ending] at hserved
        have hleft : (left ((Store.serve tgt fresh req).run ⟨st, src, d⟩))
            = ⟨(left ((Store.serve tgt fresh req).run ⟨st, src, d⟩)).arena, (left res).source,
              (left res).dropped⟩ := by
          rw [hsource, hdropped]
        rw [hleft] at hserved
        exact ⟨_, hserved.step, hshows, fun reply hr =>
          ⟨hserved.issued reply hr, fun cp hcp => hserved.captured cp (hcp ▸ hr)⟩, fun _ => hserved⟩
  · have hb : req.boundary = none :=
      Option.eq_none_iff_forall_ne_some.mpr fun n hn => hstored (Request.stored_of_boundary hn)
    obtain ⟨st', hstep, hshows, hok⟩ := h.grow fresh hs hstored src d
    rw [committed_of_boundary hb]
    refine ⟨st', hstep, hshows, fun reply hr => ⟨(hok reply hr).1, fun cp hcp => ?_⟩,
      fun hnil => absurd hnil hstored⟩
    exact absurd hcp ((hok reply hr).2 cp)

end Grow

end Shows

end SharedArena

end SafeBump
