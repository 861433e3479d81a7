import SafeBump.SharedRuns

/-!
# One thread cannot tell the two arenas apart

`Alike a sh` relates a single-thread arena to a concurrent one with the same
values and the same identity, or with none on either side.  From there every
operation ends alike on both (`serve_alike`), so a run of any length does
(`shared_arena_simulates_arena`).

Nothing is asked of the stamps drawn or of the handles passed in: whatever they
are, both arenas do the same.  The two run out of slots at the same length,
though each has a panic of its own for it (`Exit.Alike`).
-/

namespace SafeBump

open Library.Unwind

variable {tgt : Target} {σ T : Type}

/-- The same values and the same identity. -/
inductive Alike : Arena T → SharedArena tgt T → Prop where
  | unassigned {sh : SharedArena tgt T} (hh : sh.Holds []) (hid : sh.identity = .new) :
      Alike .new sh
  | assigned {items : List T} {id : Identity} {sh : SharedArena tgt T} (hh : sh.Holds items)
      (hid : sh.identity.Mirrors id) : Alike (.holding items id) sh

theorem Alike.holds {a : Arena T} {sh : SharedArena tgt T} (h : Alike a sh) : sh.Holds a.items := by
  cases h with
  | unassigned hh hid => exact hh
  | assigned hh hid => exact hh

/-- The calls are as far as each other. -/
def Together (c : Ctx (Arena T) σ T) (c' : Ctx (SharedArena tgt T) σ T) : Prop :=
  Alike c.arena c'.arena ∧ c.source = c'.source ∧ c.dropped = c'.dropped

/-- The same way of ending early.  Slots run out with a panic of `Vec` on one
side and of `reserve_range` on the other. -/
def Exit.Alike (e e' : Exit) : Prop :=
  e = e' ∨ e = .unwinds .capacityOverflow ∧ e' = .unwinds .slotSpaceExhausted

/-- From arenas that are alike the calls end alike. -/
def InStep (tgt : Target) {α : Type} (m : Op (Arena T) σ T α) (n : Op (SharedArena tgt T) σ T α) :
    Prop :=
  Simulates Exit.Alike Together Eq m n

theorem InStep.map {α β : Type} {m : Op (Arena T) σ T α} {n : Op (SharedArena tgt T) σ T α}
    (h : InStep tgt m n) (f : α → β) : InStep tgt (f <$> m) (f <$> n) :=
  Simulates.map h fun _ _ he => congrArg f he

namespace Alike

variable {fresh : Source σ} {a : Arena T} {sh : SharedArena tgt T} {items : List T}
  {id : Identity}

theorem new : Alike (.new : Arena T) (.new : SharedArena tgt T) := .unassigned .new rfl

theorem len_eq (h : Alike a sh) : a.len = sh.len := by
  cases h with
  | unassigned hh _ => exact hh.published.symm
  | assigned hh _ => exact hh.published.symm

/-- An identity is assigned on both sides or on neither. -/
theorem sidecar_iff (h : Alike a sh) : a.sidecar = none ↔ sh.identity.birth = 0 := by
  cases h with
  | unassigned _ hid => exact ⟨fun _ => by rw [hid]; rfl, fun _ => rfl⟩
  | assigned _ hid => exact ⟨by intros; contradiction, fun h0 => absurd h0 hid.birth_ne_zero⟩

/-! ## Lookups -/

theorem run_tailOf (hid : sh.identity.Mirrors id) (len : Nat) (src : σ) (d : List T) :
    (SharedArena.tailOf fresh len).run ⟨sh, src, d⟩ = .ok (Arena.tailOf id len) ⟨sh, src, d⟩ := by
  cases len with
  | zero => rfl
  | succ slot =>
      have h : (SharedArena.onIdentity (SharedIdentity.stampOf fresh slot)).run ⟨sh, src, d⟩
          = .ok (id.stampOf slot) ⟨sh, src, d⟩ :=
        SharedArena.run_onIdentity_pure (hid.run_stampOf slot) d
      simp [SharedArena.tailOf, Arena.tailOf, h]

theorem run_validateCheckpoint (h : Alike a sh) (fresh : Source σ) (cp : Checkpoint) (src : σ)
    (d : List T) :
    (SharedArena.validateCheckpoint fresh cp).run ⟨sh, src, d⟩
      = .ok (a.validateCheckpoint cp) ⟨sh, src, d⟩ := by
  have hlen := h.len_eq
  cases h with
  | unassigned hh hid =>
      have hne : sh.identity.birth ≠ cp.owner.get := by
        rw [hid]
        exact cp.owner.ne_zero.symm
      simp only [SharedArena.validateCheckpoint, EStateM.run_bind, EStateM.run_get, if_pos hne]
      rfl
  | @assigned items id _ hh hid =>
      have hiff : sh.identity.birth = cp.owner.get ↔ id.birth = cp.owner := by
        rw [hid.birth, Stamp.get_inj]
      simp only [SharedArena.validateCheckpoint, EStateM.run_bind, EStateM.run_get, run_ite,
        run_tailOf hid, EStateM.run_pure, Arena.validateCheckpoint, Arena.sidecar_holding, ← hlen,
        ne_eq, hiff]
      split
      · rfl
      · split
        · rfl
        · split <;> rfl

theorem run_isValid (h : Alike a sh) (fresh : Source σ) (idx : Idx) (src : σ) (d : List T) :
    (SharedArena.isValid fresh idx).run ⟨sh, src, d⟩ = .ok (a.isValid idx) ⟨sh, src, d⟩ := by
  have hlen := h.len_eq
  cases h with
  | unassigned hh hid => simp [SharedArena.isValid, ← hlen, Arena.isValid, Arena.len]
  | @assigned items id _ hh hid =>
      have hm : (SharedArena.onIdentity
            (SharedIdentity.matchesStamp fresh idx.slot idx.stamp)).run ⟨sh, src, d⟩ = _ :=
        SharedArena.run_onIdentity_pure (hid.run_matchesStamp idx.slot idx.stamp) d
      have hv : (Arena.holding items id).isValid idx = (decide (idx.slot < items.length) &&
          (decide (idx.stamp.get = id.current.get) || id.matchesArchived idx.slot idx.stamp)) := rfl
      have hlen : sh.len = items.length := hlen.symm
      simp only [SharedArena.isValid, EStateM.run_bind, EStateM.run_get, run_ite, hm,
        EStateM.run_pure, hlen, hv]
      split
      · rename_i hlt
        rw [decide_eq_true hlt, Bool.true_and]
      · rename_i hge
        rw [decide_eq_false hge, Bool.false_and]

theorem run_tryGet (h : Alike a sh) (fresh : Source σ) (idx : Idx) (src : σ) (d : List T) :
    (SharedArena.tryGet fresh idx).run ⟨sh, src, d⟩ = .ok (a.tryGet idx) ⟨sh, src, d⟩ := by
  have hv := h.run_isValid fresh idx src d
  have hfilled : ∀ v, a.items[idx.slot]? = some v → sh.storage.get idx.slot = .ok v := by
    intro v hi
    refine ChunkedStorage.get_eq ?_
    cases h with
    | unassigned hh _ => exact (hh.filled _).trans hi
    | assigned hh _ => exact (hh.filled _).trans hi
  simp only [SharedArena.tryGet, EStateM.run_bind, hv, Arena.isValid, Arena.tryGet]
  cases hi : a.items[idx.slot]? with
  | none =>
      rw [decide_eq_false (Nat.not_lt.mpr (List.getElem?_eq_none_iff.mp hi))]
      rfl
  | some v =>
      rw [decide_eq_true (List.getElem?_eq_some_iff.mp hi).1, Bool.true_and]
      cases a.stampMatches idx with
      | false => rfl
      | true =>
          simp only [Bool.not_true, run_ite, EStateM.run_bind, EStateM.run_get, hfilled v hi,
            run_ofExcept_ok, EStateM.run_pure]
          rfl

theorem iter_eq (h : Alike a sh) : sh.iter = .ok a.items := by
  have hlen := h.len_eq
  have hf : SharedArena.Filled sh.storage a.items := by
    cases h with
    | unassigned hh _ => exact hh.filled
    | assigned hh _ => exact hh.filled
  rw [SharedArena.iter, ← hlen]
  exact SharedArenaIter.collect_filled [] a.items hf.below

theorem run_iterIndexed (fresh : Source σ) (h : Alike a sh) (src : σ) (d : List T) :
    ∃ pairs, a.iterIndexed = .ok pairs ∧
      (SharedArena.iterIndexed fresh).run ⟨sh, src, d⟩ = .ok pairs ⟨sh, src, d⟩ := by
  cases h with
  | unassigned hh hid =>
      refine ⟨[], rfl, ?_⟩
      simp only [SharedArena.iterIndexed, EStateM.run_bind, EStateM.run_get, SharedArena.len,
        hh.published]
      rfl
  | @assigned items id _ hh hid =>
      refine ⟨_, Arena.collect_holding id items 0, ?_⟩
      simp only [SharedArena.iterIndexed, EStateM.run_bind, EStateM.run_get, SharedArena.len,
        hh.published]
      exact SharedArena.run_iterIndexedFrom (fun slot _ => hid.run_stampOf slot) [] items
        hh.filled.below src d

/-! ## Allocation -/

/-- A call ends as it does on the other arena if there is memory for the slots it fills. -/
theorem alloc (panics : Dtor T) (v : T) {c : Ctx (Arena T) σ T} {c' : Ctx (SharedArena tgt T) σ T}
    (hR : Together c c')
    (hmem : tgt.Affords (c'.arena.filling fresh c'.source (.alloc v panics))) :
    EndsLike Exit.Alike Together Eq ((Arena.alloc tgt fresh v).run c)
      ((SharedArena.alloc fresh panics v).run c') := by
  -- the case of arenas with an identity
  have hlive : ∀ {items : List T} {id : Identity} {sh : SharedArena tgt T} (src : σ) (d : List T),
      sh.Holds items → sh.identity.Mirrors id →
      (items.length + 1 ≤ tgt.usizeMax → tgt.Affords [items.length]) →
      EndsLike Exit.Alike Together Eq ((Arena.alloc tgt fresh v).run ⟨.holding items id, src, d⟩)
        ((SharedArena.alloc fresh panics v).run ⟨sh, src, d⟩) := by
    intro items id sh src d hh hid hmem
    rw [Arena.run_alloc, run_map]
    rcases Nat.lt_or_ge tgt.usizeMax (items.length + [v].length) with hfull | hfit
    · rw [Arena.run_insert_full hfull, SharedArena.run_alloc_full panics hh hid v hfull]
      exact ⟨.inr ⟨rfl, rfl⟩, .assigned hh hid, rfl, rfl⟩
    · obtain ⟨sh', hrun, hh', hid'⟩ :=
        SharedArena.run_alloc_fit panics (hmem hfit) hh hid v hfit src d
      rw [Arena.run_insert_fit hfit, hrun]
      exact ⟨rfl, .assigned hh' (hid' ▸ hid), rfl, rfl⟩
  have hslot : ∀ start,
      SharedArena.slotRange start (Request.alloc v panics).stored.length = [start] := by
    intro start
    rw [show (Request.alloc v panics).stored.length = 1 from rfl, SharedArena.slotRange_succ]
    rfl
  obtain ⟨a, src, d⟩ := c
  obtain ⟨sh, _, _⟩ := c'
  obtain ⟨h, rfl, rfl⟩ := hR
  have h : Alike a sh := h
  cases h with
  | assigned hh hid =>
      refine hlive src d hh hid fun hfit => ?_
      have hfit : sh.reserved + (Request.alloc v panics).stored.length ≤ tgt.usizeMax :=
        hh.reserved ▸ hfit
      rwa [SharedArena.filling_of_current hid.current_ne_zero hfit, hslot, hh.reserved] at hmem
  | unassigned hh hid =>
      rcases hf : fresh src with ⟨p | s, src'⟩
      · rw [Arena.run_alloc, run_map, Arena.run_insert_error hf, SharedArena.alloc,
          SharedArena.run_enter_error hf hid]
        exact ⟨.inl rfl, .unassigned hh hid, rfl, rfl⟩
      · rw [Arena.run_alloc, run_map, Arena.run_insert_ok hf, ← run_map, ← Arena.run_alloc,
          SharedArena.alloc, SharedArena.run_enter_new hf hid]
        refine hlive src' d ⟨hh.published, hh.reserved, hh.filled, hh.fits⟩ (.of_born s)
          fun hfit => ?_
        have hfit : sh.reserved + (Request.alloc v panics).stored.length ≤ tgt.usizeMax :=
          hh.reserved ▸ hfit
        rwa [SharedArena.filling_of_fresh hf hfit, hslot, hh.reserved] at hmem

/-- `Arena::alloc_block` on an input that yields something starts with the stamp. -/
theorem run_arenaBlock_new {src src' : σ} {s : Stamp} (hf : fresh src = (.ok s, src')) (v : T)
    (values d : List T) :
    (Arena.allocBlock tgt fresh ⟨v :: values, false⟩).run ⟨.new, src, d⟩
      = (Arena.allocBlock tgt fresh ⟨v :: values, false⟩).run
          ⟨.holding [] (.new s), src', d⟩ := by
  rw [Arena.run_allocBlock_cons, Arena.run_allocBlock_cons, EStateM.run_bind, EStateM.run_bind,
    Arena.run_insert_ok hf]

theorem allocBlock (panics : Dtor T) (input : Input T) {c : Ctx (Arena T) σ T}
    {c' : Ctx (SharedArena tgt T) σ T}
    (hR : Together c c')
    (hmem : tgt.Affords (c'.arena.filling fresh c'.source (.allocBlock input panics))) :
    EndsLike Exit.Alike Together Eq ((Arena.allocBlock tgt fresh input).run c)
      ((SharedArena.allocBlock fresh panics input).run c') := by
  obtain ⟨values, panicking⟩ := input
  cases panicking with
  | true => exact ⟨.inl rfl, hR.1, hR.2.1, congrArg (· ++ values) hR.2.2⟩
  | false =>
      cases values with
      | nil => exact ⟨rfl, hR⟩
      | cons v values =>
          have hlive : ∀ {items : List T} {id : Identity} {sh : SharedArena tgt T} (src : σ)
              (d : List T), sh.Holds items → sh.identity.Mirrors id →
              (items.length + (v :: values).length ≤ tgt.usizeMax →
                tgt.Affords (SharedArena.slotRange items.length (v :: values).length)) →
              EndsLike Exit.Alike Together Eq
                ((Arena.allocBlock tgt fresh ⟨v :: values, false⟩).run ⟨.holding items id, src, d⟩)
                ((SharedArena.allocBlock fresh panics ⟨v :: values, false⟩).run ⟨sh, src, d⟩) := by
            intro items id sh src d hh hid hmem
            rw [Arena.run_allocBlock_cons, EStateM.run_bind]
            rcases Nat.lt_or_ge tgt.usizeMax (items.length + (v :: values).length) with hfull | hfit
            · rw [Arena.run_insert_full hfull,
                SharedArena.run_allocBlock_full panics hh hid v values hfull]
              exact ⟨.inr ⟨rfl, rfl⟩, .assigned hh hid, rfl, rfl⟩
            · obtain ⟨sh', hrun, hh', hid'⟩ :=
                SharedArena.run_allocBlock_fit panics hh hid v values (hmem hfit) hfit src d
              have hblock : Block.new tgt id.current items.length (v :: values).length
                  = .ok ⟨some id.current, items.length, (v :: values).length⟩ :=
                Block.new_eq_ok (Nat.succ_pos _) (Nat.le_succ_of_le hfit)
              rw [Arena.run_insert_fit hfit, hrun]
              simp only [hblock, run_ofExcept_ok]
              exact ⟨rfl, .assigned hh' (hid' ▸ hid), rfl, rfl⟩
          obtain ⟨a, src, d⟩ := c
          obtain ⟨sh, _, _⟩ := c'
          obtain ⟨h, rfl, rfl⟩ := hR
          have h : Alike a sh := h
          have hlen : (Request.allocBlock ⟨v :: values, false⟩ panics).stored.length
              = (v :: values).length := rfl
          cases h with
          | assigned hh hid =>
              refine hlive src d hh hid fun hfit => ?_
              rw [SharedArena.filling_of_current hid.current_ne_zero
                (by rw [hlen, hh.reserved]; exact hfit), hlen, hh.reserved] at hmem
              exact hmem
          | unassigned hh hid =>
              rcases hf : fresh src with ⟨p | s, src'⟩
              · rw [Arena.run_allocBlock_cons, EStateM.run_bind, Arena.run_insert_error hf,
                  SharedArena.allocBlock_cons, SharedArena.run_enter_error hf hid]
                exact ⟨.inl rfl, .unassigned hh hid, rfl, rfl⟩
              · rw [run_arenaBlock_new hf, SharedArena.allocBlock_cons,
                  SharedArena.run_enter_new hf hid, ← SharedArena.allocBlock_cons]
                refine hlive src' d ⟨hh.published, hh.reserved, hh.filled, hh.fits⟩ (.of_born s)
                  fun hfit => ?_
                rw [SharedArena.filling_of_fresh hf
                  (by rw [hlen, hh.reserved]; exact hfit), hlen, hh.reserved] at hmem
                exact hmem

/-- Capturing the empty prefix of an arena without an identity assigns one. -/
theorem checkpoint : InStep tgt
    (Arena.checkpoint fresh : Op (Arena T) σ T Checkpoint) (SharedArena.checkpoint fresh) := by
  rintro ⟨a, src, d⟩ ⟨sh, _, _⟩ ⟨h, rfl, rfl⟩
  have h : Alike a sh := h
  have hlen := h.len_eq
  cases h with
  | @assigned items id _ hh hid =>
      have hbirth : (SharedArena.onIdentity (SharedIdentity.birthStamp fresh)).run ⟨sh, src, d⟩
          = .ok id.birth ⟨sh, src, d⟩ :=
        SharedArena.run_onIdentity_pure hid.run_birthStamp d
      simp only [Arena.checkpoint, SharedArena.checkpoint, EStateM.run_bind,
        Arena.run_identity_holding, EStateM.run_get, ← hlen, run_tailOf hid, hbirth]
      exact ⟨rfl, .assigned hh hid, rfl, rfl⟩
  | unassigned hh hid =>
      have hzero : sh.len = 0 := hlen.symm
      have htail : (SharedArena.tailOf fresh 0).run ⟨sh, src, d⟩ = .ok none ⟨sh, src, d⟩ := rfl
      rcases hf : fresh src with ⟨p | s, src'⟩
      · have hbirth : (SharedIdentity.birthStamp fresh).run (sh.identity, src)
            = .error (.unwinds p) (sh.identity, src') := by
          rw [hid, SharedIdentity.run_birthStamp_new, SharedIdentity.run_assign_error hf]
        simp only [Arena.checkpoint, SharedArena.checkpoint, EStateM.run_bind,
          Arena.run_identity_error hf, EStateM.run_get, hzero, htail,
          SharedArena.run_onIdentity_error hbirth]
        exact ⟨.inl rfl, .unassigned hh hid, rfl, rfl⟩
      · have hbirth : (SharedIdentity.birthStamp fresh).run (sh.identity, src)
            = .ok s (.born s, src') := by
          rw [hid, SharedIdentity.run_birthStamp_new, SharedIdentity.run_assign_ok hf]
        simp only [Arena.checkpoint, SharedArena.checkpoint, EStateM.run_bind,
          Arena.run_identity_ok hf, EStateM.run_get, hzero, htail,
          SharedArena.run_onIdentity_ok hbirth]
        exact ⟨rfl, .assigned ⟨hh.published, hh.reserved, hh.filled, hh.fits⟩ (.of_born s),
          rfl, rfl⟩

/-! ## Rollback, reset and drain -/

/-- A commit on the identity of either arena. -/
theorem commit (hh : sh.Holds items) (hid : sh.identity.Mirrors id) (n : Nat) (src : σ)
    (d : List T) :
    EndsLike Exit.Alike Together Eq
      ((Arena.commit fresh id n).run ⟨.holding items id, src, d⟩)
      ((SharedArena.onIdentity (SharedIdentity.commit fresh n)).run ⟨sh, src, d⟩) := by
  rcases hf : fresh src with ⟨p | s, src'⟩
  · obtain ⟨sid, hrun, hid'⟩ := hid.commit_error hf n
    rw [Arena.run_commit_error hf, SharedArena.run_onIdentity_error hrun]
    exact ⟨.inl rfl, .assigned ⟨hh.published, hh.reserved, hh.filled, hh.fits⟩ hid', rfl, rfl⟩
  · obtain ⟨sid, hrun, hid'⟩ := hid.commit_ok hf n
    rw [Arena.run_commit_ok hf, SharedArena.run_onIdentity_ok hrun]
    exact ⟨rfl, .assigned ⟨hh.published, hh.reserved, hh.filled, hh.fits⟩ hid', rfl, rfl⟩

/-- Without an identity a commit at 0 does nothing on either side. -/
theorem commitEmpty : InStep tgt
    (Arena.commitEmpty fresh : Op (Arena T) σ T Unit)
    (SharedArena.onIdentity (SharedIdentity.commit fresh 0)) := by
  rintro ⟨a, src, d⟩ ⟨sh, _, _⟩ ⟨h, rfl, rfl⟩
  have h : Alike a sh := h
  cases h with
  | assigned hh hid => exact commit hh hid 0 src d
  | unassigned hh hid =>
      have hrun : (SharedIdentity.commit fresh 0).run (sh.identity, src)
          = .ok () (sh.identity, src) := by
        rw [hid, SharedIdentity.run_commit_new]
      rw [SharedArena.run_onIdentity_pure hrun]
      exact ⟨rfl, .unassigned hh hid, rfl, rfl⟩

/-- The loops pop and take the same values.  The induction is on the fuel, and
one round of either loop removes the last value. -/
theorem popDownTo (panics : Dtor T) (target fuel : Nat) :
    InStep tgt
      (Arena.popDownTo panics target fuel : Op (Arena T) σ T Unit)
      (SharedArena.takeDownTo panics target fuel) := by
  induction fuel with
  | zero => exact .pure rfl
  | succ fuel ih =>
      rintro ⟨a, src, d⟩ ⟨sh, _, _⟩ ⟨h, rfl, rfl⟩
      have h : Alike a sh := h
      have hpub : sh.published = a.items.length := h.len_eq.symm
      simp only [Arena.popDownTo, SharedArena.takeDownTo, EStateM.run_bind, EStateM.run_get,
        run_ite, hpub]
      cases h with
      | unassigned hh hid => exact ⟨rfl, .unassigned hh hid, rfl, rfl⟩
      | @assigned items id _ hh hid =>
          split
          · cases items using List.reverseRecOn with
            | nil => exact absurd ‹target < _› (Nat.not_lt_zero target)
            | append_singleton items v =>
                obtain ⟨st, htake, hf⟩ := SharedArena.run_takeSlot hh.filled src d
                have hlt : items.length + 1 ≤ tgt.usizeMax := by simpa using hh.fits
                have hh' : ({ sh with
                    storage := st, published := items.length, reserved := items.length } :
                      SharedArena tgt T).Holds items := ⟨rfl, rfl, hf, Nat.le_of_succ_le hlt⟩
                simp only [Arena.items_holding, List.getLast?_concat, List.length_append,
                  List.length_singleton, Nat.add_sub_cancel, EStateM.run_bind, EStateM.run_modify,
                  htake, run_dropValue, List.dropLast_concat]
                cases panics items.length v with
                | true => exact ⟨.inl rfl, .assigned hh' hid, rfl, rfl⟩
                | false => exact ih _ _ ⟨.assigned hh' hid, rfl, rfl⟩
          · exact ⟨rfl, .assigned hh hid, rfl, rfl⟩

/-- A commit followed by the loop. -/
theorem cutDown (hh : sh.Holds items) (hid : sh.identity.Mirrors id) (panics : Dtor T) (n : Nat)
    (src : σ) (d : List T) :
    EndsLike Exit.Alike Together Eq
      ((Arena.cutDown fresh panics id n).run ⟨.holding items id, src, d⟩)
      ((SharedArena.cutDown fresh panics n).run ⟨sh, src, d⟩) := by
  refine (commit hh hid n src d).bind fun _ _ c c' _ hR => ?_
  have hlen : c'.arena.published = c.arena.items.length := hR.1.len_eq.symm
  simp only [EStateM.run_bind, EStateM.run_get, hlen]
  exact popDownTo panics n _ c c' hR

theorem tryRollback (panics : Dtor T) (cp : Checkpoint) :
    InStep tgt (Arena.tryRollback fresh panics cp)
      (SharedArena.tryRollback fresh panics cp) := by
  rintro ⟨a, src, d⟩ ⟨sh, _, _⟩ ⟨h, rfl, rfl⟩
  have h : Alike a sh := h
  have hv := h.run_validateCheckpoint fresh cp src d
  cases hr : a.validateCheckpoint cp with
  | error e =>
      simp only [Arena.tryRollback, SharedArena.tryRollback, EStateM.run_bind, EStateM.run_get, hv,
        hr]
      exact ⟨rfl, h, rfl, rfl⟩
  | ok u =>
      rw [hr] at hv
      rw [SharedArena.run_tryRollback_valid hv]
      cases h with
      | unassigned => cases hr
      | @assigned items id _ hh hid =>
          have hvalid :
            (⟨.holding items id, src, d⟩ : Ctx (Arena T) σ T).arena.validateCheckpoint cp
              = .ok () := hr
          rw [Arena.run_tryRollback_valid hvalid rfl]
          exact (cutDown hh hid panics cp.len src d).map fun _ _ _ => rfl

theorem reset (fresh : Source σ) (panics : Dtor T) :
    InStep tgt (Arena.reset fresh panics)
      (SharedArena.reset fresh panics) := by
  refine commitEmpty.bind fun _ _ _ => ?_
  intro c c' hR
  have hlen : c'.arena.published = c.arena.items.length := hR.1.len_eq.symm
  simp only [EStateM.run_bind, EStateM.run_get, hlen, Arena.run_popAll]
  exact popDownTo panics 0 _ c c' hR

/-- The loop of `drain` collects the values from the last to the first. -/
theorem run_takeAll (taken : List T) (src : σ) (d : List T) (hh : sh.Holds items) :
    ∃ sh', (SharedArena.takeAll items.length taken).run ⟨sh, src, d⟩
        = .ok (taken ++ items.reverse) ⟨sh', src, d⟩ ∧
      sh'.Holds [] ∧ sh'.identity = sh.identity := by
  induction items using List.reverseRecOn generalizing sh taken with
  | nil => exact ⟨sh, by simp [SharedArena.takeAll], hh, rfl⟩
  | append_singleton items v ih =>
      obtain ⟨st, htake, hf⟩ := SharedArena.run_takeSlot hh.filled src d
      have hlt : items.length + 1 ≤ tgt.usizeMax := by simpa using hh.fits
      have hh' : ({ sh with storage := st, published := items.length, reserved := items.length } :
          SharedArena tgt T).Holds items := ⟨rfl, rfl, hf, Nat.le_of_succ_le hlt⟩
      obtain ⟨sh', hrest, hempty, hid⟩ := ih (taken ++ [v]) hh'
      refine ⟨sh', ?_, hempty, hid⟩
      simp only [List.length_append, List.length_singleton, SharedArena.takeAll, EStateM.run_bind,
        run_owning_ok taken htake]
      rw [hrest]
      simp

theorem drain (fresh : Source σ) : InStep tgt
    (Arena.drain fresh : Op (Arena T) σ T (List T)) (SharedArena.drain fresh) := by
  refine commitEmpty.bind fun _ _ _ => ?_
  rintro ⟨a, src, d⟩ ⟨sh, _, _⟩ ⟨h, rfl, rfl⟩
  have h : Alike a sh := h
  have hpub : sh.published = a.items.length := h.len_eq.symm
  cases h with
  | unassigned hh hid =>
      simp only [EStateM.run_bind, EStateM.run_get, hpub]
      exact ⟨rfl, .unassigned hh hid, rfl, rfl⟩
  | @assigned items id _ hh hid =>
      obtain ⟨sh', htake, hempty, hid'⟩ := run_takeAll [] src d hh
      rw [List.nil_append] at htake
      simp only [EStateM.run_bind, EStateM.run_get, hpub, Arena.items_holding, htake,
        EStateM.run_modify, EStateM.run_pure, List.reverse_reverse]
      exact ⟨rfl, .assigned hempty (hid' ▸ hid), rfl, rfl⟩

/-! ## Runs -/

/-- Requests end alike where there is memory for the slots they fill. -/
theorem serve_of_affords (fresh : Source σ) (req : Request T) {c : Ctx (Arena T) σ T}
    {c' : Ctx (SharedArena tgt T) σ T} (hR : Together c c')
    (hmem : tgt.Affords (c'.arena.filling fresh c'.source req)) :
    EndsLike Exit.Alike Together Eq ((Arena.serve tgt fresh req).run c)
      ((SharedArena.serve fresh req).run c') := by
  cases req with
  | alloc v panics => exact (alloc panics v hR hmem).map fun _ _ => congrArg Reply.idx
  | allocBlock input panics =>
      exact (allocBlock panics input hR hmem).map fun _ _ => congrArg Reply.block
  | extend input panics => exact (allocBlock panics input hR hmem).map fun _ _ _ => rfl
  | checkpoint => exact checkpoint.map _ c c' hR
  | tryRollback cp panics => exact (tryRollback panics cp).map _ c c' hR
  | reset panics => exact (reset fresh panics).map _ c c' hR
  | drain => exact (drain fresh).map _ c c' hR
  | len => exact ⟨congrArg Reply.len hR.1.len_eq, hR⟩
  | validateCheckpoint cp =>
      obtain ⟨a, src, d⟩ := c
      obtain ⟨sh, _, _⟩ := c'
      obtain ⟨h, rfl, rfl⟩ := hR
      simp only [SharedArena.serve, run_map, run_validateCheckpoint h]
      exact ⟨rfl, h, rfl, rfl⟩
  | isValid idx =>
      obtain ⟨a, src, d⟩ := c
      obtain ⟨sh, _, _⟩ := c'
      obtain ⟨h, rfl, rfl⟩ := hR
      simp only [SharedArena.serve, run_map, run_isValid h]
      exact ⟨rfl, h, rfl, rfl⟩
  | tryGet idx =>
      obtain ⟨a, src, d⟩ := c
      obtain ⟨sh, _, _⟩ := c'
      obtain ⟨h, rfl, rfl⟩ := hR
      simp only [SharedArena.serve, run_map, run_tryGet h]
      exact ⟨rfl, h, rfl, rfl⟩
  | iter =>
      obtain ⟨a, src, d⟩ := c
      obtain ⟨sh, _, _⟩ := c'
      obtain ⟨h, rfl, rfl⟩ := hR
      simp only [SharedArena.serve, EStateM.run_bind, EStateM.run_get, iter_eq h, run_ofExcept_ok]
      exact ⟨rfl, h, rfl, rfl⟩
  | iterIndexed =>
      obtain ⟨a, src, d⟩ := c
      obtain ⟨sh, _, _⟩ := c'
      obtain ⟨h, rfl, rfl⟩ := hR
      obtain ⟨pairs, hpairs, hrun⟩ := run_iterIndexed fresh h src d
      simp only [Arena.serve, SharedArena.serve, run_map, EStateM.run_bind, EStateM.run_get, hrun,
        hpairs, run_ofExcept_ok]
      exact ⟨rfl, h, rfl, rfl⟩

theorem serve (fresh : Source σ) (hall : ∀ k, tgt.allocates k = true) (req : Request T) :
    InStep tgt (Arena.serve tgt fresh req)
      (SharedArena.serve fresh req) :=
  fun _ _ hR => serve_of_affords fresh req hR (Target.affords_all hall _)

/-- How one operation ended on either arena. -/
def SameOutcome : Except Exit (Reply T) → Except Exit (Reply T) → Prop
  | .ok r, .ok r' => r = r'
  | .error e, .error e' => e.Alike e'
  | _, _ => False

theorem SameOutcome.refl (r : Except Exit (Reply T)) : SameOutcome r r := by
  cases r with
  | ok reply => exact (rfl : reply = reply)
  | error e => exact .inl rfl

theorem sameOutcome {r : EStateM.Result Exit (Ctx (Arena T) σ T) (Reply T)}
    {r' : EStateM.Result Exit (Ctx (SharedArena tgt T) σ T) (Reply T)}
    (h : EndsLike Exit.Alike Together Eq r r') : SameOutcome (ending r) (ending r') := by
  cases r with
  | ok reply c =>
      cases r' with
      | ok reply' c' => exact h.1
      | error e' c' => exact h.elim
  | error e c =>
      cases r' with
      | ok reply' c' => exact h.elim
      | error e' c' => exact h.1

/-- A run keeps the arenas alike, and its operations end alike. -/
theorem runs (fresh : Source σ) (hall : ∀ k, tgt.allocates k = true) (reqs : List (Request T))
    {c : Ctx (Arena T) σ T} {c' : Ctx (SharedArena tgt T) σ T} (hR : Together c c') :
    List.Forall₂ SameOutcome (SafeBump.runs (Arena.serve tgt fresh) reqs c).1
        (SafeBump.runs (SharedArena.serve fresh) reqs c').1 ∧
      Together (SafeBump.runs (Arena.serve tgt fresh) reqs c).2
        (SafeBump.runs (SharedArena.serve fresh) reqs c').2 := by
  induction reqs generalizing c c' with
  | nil => exact ⟨.nil, hR⟩
  | cons req reqs ih =>
      have h := serve fresh hall req c c' hR
      obtain ⟨houts, hR'⟩ := ih h.left
      exact ⟨.cons (sameOutcome h) houts, hR'⟩

end Alike

/-- Without an identity a reset or a drain draws no stamp. -/
theorem Alike.no_draw {fresh : Source σ} {c : Ctx (Arena T) σ T} {c' : Ctx (SharedArena tgt T) σ T}
    (hR : Together c c') (hn : c.arena.sidecar = none) (panics : Dtor T) :
    (left ((Arena.reset fresh panics).run c)).source = c.source ∧
      (left ((SharedArena.reset fresh panics).run c')).source = c'.source ∧
      (left ((Arena.drain fresh).run c)).source = c.source ∧
      (left ((SharedArena.drain fresh).run c')).source = c'.source := by
  have hreset := (Alike.reset fresh panics c c' hR).left
  have hdrain := (Alike.drain fresh c c' hR).left
  obtain ⟨a, src, d⟩ := c
  obtain ⟨sh, src', d'⟩ := c'
  obtain ⟨h, rfl, rfl⟩ := hR
  have h : Alike a sh := h
  cases h with
  | assigned => cases hn
  | unassigned => exact ⟨rfl, hreset.2.1.symm, rfl, hdrain.2.1.symm⟩

/-- Whatever is asked of two new arenas that draw the same stamps, each request
ends alike on both, and afterwards both have dropped the same values, have the
same length and judge every handle and every checkpoint alike. -/
theorem shared_arena_simulates_arena (tgt : Target) (hall : ∀ k, tgt.allocates k = true)
    (fresh : Source σ) (src : σ) (reqs : List (Request T)) :
    let r := runs (Arena.serve tgt fresh) reqs ⟨.new, src, []⟩
    let r' := runs (SharedArena.serve fresh) reqs ⟨(.new : SharedArena tgt T), src, []⟩
    List.Forall₂ Alike.SameOutcome r.1 r'.1 ∧
      r.2.source = r'.2.source ∧ r.2.dropped = r'.2.dropped ∧
      r.2.arena.len = r'.2.arena.len ∧
      (∀ idx, (SharedArena.isValid fresh idx).run r'.2 = .ok (r.2.arena.isValid idx) r'.2) ∧
      (∀ cp, (SharedArena.validateCheckpoint fresh cp).run r'.2
        = .ok (r.2.arena.validateCheckpoint cp) r'.2) ∧
      (r.2.arena.sidecar = none ↔ r'.2.arena.identity.birth = 0) ∧
      (r.2.arena.sidecar = none → ∀ panics,
        (left ((Arena.reset fresh panics).run r.2)).source = r.2.source ∧
        (left ((SharedArena.reset fresh panics).run r'.2)).source = r'.2.source ∧
        (left ((Arena.drain fresh).run r.2)).source = r.2.source ∧
        (left ((SharedArena.drain fresh).run r'.2)).source = r'.2.source) := by
  intro r r'
  have hstart : Together (⟨.new, src, []⟩ : Ctx (Arena T) σ T)
      (⟨.new, src, []⟩ : Ctx (SharedArena tgt T) σ T) := ⟨.new, rfl, rfl⟩
  obtain ⟨houts, hR⟩ := Alike.runs fresh hall reqs hstart
  refine ⟨houts, hR.2.1, hR.2.2, hR.1.len_eq, fun idx => hR.1.run_isValid fresh idx _ _,
    fun cp => hR.1.run_validateCheckpoint fresh cp _ _, ?_, fun hn => Alike.no_draw hR hn⟩
  exact hR.1.sidecar_iff

/-- A block of three values, a rollback whose second destructor panics, and a
reset of what is left. -/
theorem shared_arena_simulates_arena_interrupted :
    let tgt : Target := ⟨8, fun _ => true⟩
    let stamps := [.nth 0, .nth 1, .nth 2]
    let reqs : List (Request Nat) := [.checkpoint, .allocBlock ⟨[7, 8, 9], false⟩,
      .tryRollback ⟨.nth 0, 0, none⟩ (fun slot _ => slot == 1), .reset (fun _ _ => false)]
    (runs (Arena.serve tgt script) reqs ⟨.new, stamps, []⟩).2.dropped = [9, 8, 7] ∧
      (runs (SharedArena.serve script) reqs
        ⟨(.new : SharedArena tgt Nat), stamps, []⟩).2.dropped = [9, 8, 7] := by
  intro tgt stamps reqs
  have h := shared_arena_simulates_arena tgt (fun _ => rfl) script stamps reqs
  have hdropped : (runs (Arena.serve tgt script) reqs ⟨.new, stamps, []⟩).2.dropped = [9, 8, 7] :=
    rfl
  exact ⟨hdropped, h.2.2.1.symm.trans hdropped⟩

end SafeBump
