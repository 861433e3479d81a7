import SafeBump.Library.Safe
import SafeBump.Placement
import SafeBump.Provenance
import SafeBump.Publication

/-!
# What no failure breaks

A concurrent arena on which storing a value has failed is not as it should be: slots
stay reserved that nobody fills, and values stay behind in slots that were never
published.  Some things hold of it all the same (`Shared.Intact`).  The published
slots are filled, chunks are there only where there was memory, the identity is in
order, and every call that goes on knows its range.

They hold of every arena of every process at every moment (`World.Intact.run`),
whatever the machine can allocate.  A value above the published slots stays where it
is meanwhile (`SharedArena.Next`): no request reaches it.
-/

namespace SafeBump

open Library (stretch stretch_le stretch_holds)
open Library.Unwind

variable {tgt : Target} {σ T : Type}

/-! ## Identities -/

/-- The ways a call may end early that are not the arena's doing, `A` being what is known of
the source of its stamps. -/
structure Expects (fresh : Source σ) (A : σ → Prop) (E : Exit → Prop) : Prop where
  keeps : ∀ src, A src → A (fresh src).2
  fresh : ∀ src p, A src → (fresh src).1 = .error p → E (.unwinds p)
  destructor : E (.unwinds .destructor)
  input : E (.unwinds .input)

theorem Expects.any (fresh : Source σ) : Expects fresh (fun _ => True) fun _ => True :=
  ⟨fun _ _ => trivial, fun _ _ _ _ => trivial, trivial, trivial⟩

namespace SharedIdentity

/-- There is an identity, or none yet if `b`. -/
def Sane (b : Prop) (id : SharedIdentity) : Prop := (id = .new ∧ b) ∨ ∃ i, id.Mirrors i

theorem Sane.of_new {b : Prop} (hb : b) : (new : SharedIdentity).Sane b := .inl ⟨rfl, hb⟩

theorem Sane.of_mirrors {b : Prop} {id : SharedIdentity} {i : Identity} (h : id.Mirrors i) :
    id.Sane b := .inr ⟨i, h⟩

/-- There is an identity, or none yet, beside a source that is as it should be. -/
def Settling (b : Prop) (A : σ → Prop) (s : SharedIdentity × σ) : Prop := s.1.Sane b ∧ A s.2

section Safe

variable {b : Prop} {A : σ → Prop} {E : Exit → Prop} {fresh : Source σ}

/-- Assigning an identity succeeds, or leaves none. -/
theorem safe_of_assign (hx : Expects fresh A E) {α : Type}
    {m : EStateM Exit (SharedIdentity × σ) α} (f : Stamp → α)
    (hnew : ∀ src, m.run (new, src) = (f <$> assign fresh).run (new, src))
    (hlive : ∀ {id i} src, id.Mirrors i → ∃ a, m.run (id, src) = .ok a (id, src)) :
    Safe (Settling b A) (Settling b A) E m := by
  refine .of_run ?_
  rintro ⟨id, src⟩ ⟨⟨rfl, hb⟩ | ⟨i, hm⟩, hA⟩
  · have hkept := hx.keeps src hA
    have hfails := hx.fresh src
    rcases hf : fresh src with ⟨p | s, src'⟩
    · rw [hf] at hkept hfails
      refine .inr ⟨.unwinds p, (new, src'), ?_, ⟨.of_new hb, hkept⟩, hfails p hA rfl⟩
      rw [hnew, run_map, run_assign_error hf]
    · rw [hf] at hkept
      refine .inl ⟨f s, (born s, src'), ?_, .of_mirrors (.of_born s), hkept⟩
      rw [hnew, run_map, run_assign_ok hf]
  · obtain ⟨a, hrun⟩ := hlive src hm
    exact .inl ⟨a, _, hrun, .of_mirrors hm, hA⟩

theorem safe_birthStamp (hx : Expects fresh A E) :
    Safe (Settling b A) (Settling b A) E (birthStamp fresh) :=
  safe_of_assign hx id (fun src => by rw [run_birthStamp_new, id_map]) fun _ hm =>
    ⟨_, hm.run_birthStamp⟩

theorem safe_stampOf (hx : Expects fresh A E) (slot : Nat) :
    Safe (Settling b A) (Settling b A) E (stampOf fresh slot) :=
  safe_of_assign hx id (fun src => by
    rw [id_map, ← run_currentStamp_new]
    rfl) fun _ hm => ⟨_, hm.run_stampOf slot⟩

/-- A comparison assigns nothing. -/
theorem safe_matchesStamp (slot : Nat) (stamp : Stamp) :
    Safe (Settling b A) (Settling b A) E (matchesStamp fresh slot stamp) := by
  refine .of_run ?_
  rintro ⟨id, src⟩ ⟨⟨rfl, hb⟩ | ⟨i, hm⟩, hA⟩
  · refine .inl ⟨false, _, ?_, .of_new hb, hA⟩
    have hne : ¬ stamp.get = (new : SharedIdentity).current := stamp.ne_zero
    simp only [matchesStamp, EStateM.run_bind, EStateM.run_get, if_neg hne]
    rfl
  · exact .inl ⟨_, _, hm.run_matchesStamp slot stamp, .of_mirrors hm, hA⟩

theorem safe_commit (hx : Expects fresh A E) (newLen : Nat) :
    Safe (Settling b A) (Settling b A) E (commit fresh newLen) := by
  refine .of_run ?_
  rintro ⟨id, src⟩ ⟨⟨rfl, hb⟩ | ⟨i, hm⟩, hA⟩
  · exact .inl ⟨(), _, run_commit_new fresh newLen src, .of_new hb, hA⟩
  · have hkept := hx.keeps src hA
    have hfails := hx.fresh src
    rcases hf : fresh src with ⟨p | s, src'⟩
    · rw [hf] at hkept hfails
      obtain ⟨id', hrun, hm'⟩ := hm.commit_error hf newLen
      exact .inr ⟨_, _, hrun, ⟨.of_mirrors hm', hkept⟩, hfails p hA rfl⟩
    · rw [hf] at hkept
      obtain ⟨id', hrun, hm'⟩ := hm.commit_ok hf newLen
      exact .inl ⟨_, _, hrun, .of_mirrors hm', hkept⟩

end Safe

end SharedIdentity

/-! ## Requests that store nothing -/

namespace SharedArena

/-- The arena is `a` but for the identity. -/
structure Rests (a a' : SharedArena tgt T) : Prop where
  sane : a'.identity.Sane (a.identity = .new)
  storage : a'.storage = a.storage
  reserved : a'.reserved = a.reserved
  published : a'.published = a.published

/-- A call stands where the arena is `a` but for the identity. -/
def Resting (a : SharedArena tgt T) (A : σ → Prop) (c : Ctx (SharedArena tgt T) σ T) : Prop :=
  a.Rests c.arena ∧ A c.source

section Plain

variable {a : SharedArena tgt T} {A : σ → Prop} {E : Exit → Prop} {fresh : Source σ}

theorem Rests.refl (hs : a.identity.Sane True) : a.Rests a :=
  ⟨hs.imp_left fun h => ⟨h.1, h.1⟩, rfl, rfl, rfl⟩

theorem Rests.set {a' : SharedArena tgt T} (h : a.Rests a') (hw : a.Whole) :
    ∀ slot < a'.published, a'.storage.slots slot ≠ none := by
  rw [h.published, h.storage]
  exact hw.set

theorem safe_onIdentity {α : Type} {m : EStateM Exit (SharedIdentity × σ) α}
    (hm : Safe (SharedIdentity.Settling (a.identity = .new) A)
      (SharedIdentity.Settling (a.identity = .new) A) E m) :
    Safe (Resting a A) (Resting a A) E (onIdentity m : Op (SharedArena tgt T) σ T α) :=
  hm.zoom (fun _ h => ⟨h.1.sane, h.2⟩) fun _ _ h hs =>
    ⟨⟨hs.1, h.1.storage, h.1.reserved, h.1.published⟩, hs.2⟩

theorem safe_tailOf (hx : Expects fresh A E) (len : Nat) : Safe (Resting a A) (Resting a A) E
    (tailOf fresh len : Op (SharedArena tgt T) σ T (Option Stamp)) :=
  .ite (fun _ => .done) fun _ => (safe_onIdentity (SharedIdentity.safe_stampOf hx _)).map

theorem safe_validateCheckpoint (hx : Expects fresh A E) (cp : Checkpoint) :
    Safe (Resting a A) (Resting a A) E
      (validateCheckpoint fresh cp : Op (SharedArena tgt T) σ T (Except CheckpointError Unit)) := by
  refine .get_bind fun c _ => .ite (fun _ => .done) fun _ => .ite (fun _ => .done) fun _ => ?_
  exact (safe_tailOf hx cp.len).bind (fun _ h => h) fun tail => .ite (fun _ => .done) fun _ => .done

theorem safe_isValid (idx : Idx) : Safe (Resting a A) (Resting a A) E
    (isValid fresh idx : Op (SharedArena tgt T) σ T Bool) :=
  .get_bind fun _ _ => .ite
    (fun _ => safe_onIdentity (SharedIdentity.safe_matchesStamp idx.slot idx.stamp)) fun _ => .done

/-- A published slot is read. -/
theorem safe_get (hw : a.Whole) {slot : Nat} (hlt : slot < a.published)
    {c : Ctx (SharedArena tgt T) σ T} (hc : Resting a A c) : Safe (Resting a A) (Resting a A) E
    (ofExcept (c.arena.storage.get slot) : Op (SharedArena tgt T) σ T T) := by
  obtain ⟨v, hv⟩ := Option.ne_none_iff_exists'.mp (hw.set slot hlt)
  rw [hc.1.storage, ChunkedStorage.get_eq hv]
  exact .done

theorem safe_tryGet (hw : a.Whole) (idx : Idx) : Safe (Resting a A) (Resting a A) E
    (tryGet fresh idx : Op (SharedArena tgt T) σ T (Option T)) := by
  by_cases hlt : idx.slot < a.published
  · refine (safe_isValid idx).bind (fun _ h => h) fun valid => .ite (fun _ => .done) fun _ => ?_
    exact .get_bind fun c hc => (safe_get hw hlt hc).bind (fun _ h => h) fun _ => .done
  · -- an index above the published slots is not valid
    refine .of_run fun c hc => .inl ⟨none, c, ?_, hc⟩
    have hlen : ¬ idx.slot < c.arena.len := by
      rwa [show c.arena.len = a.published from hc.1.published]
    simp only [tryGet, isValid, EStateM.run_bind, EStateM.run_get, if_neg hlen]
    rfl

theorem safe_iterIndexedFrom (hx : Expects fresh A E) (hw : a.Whole) (n : Nat) :
    ∀ pos, pos + n ≤ a.published → Safe (Resting a A) (Resting a A) E
      (iterIndexedFrom fresh pos n : Op (SharedArena tgt T) σ T (List (Idx × T))) := by
  induction n with
  | zero => exact fun _ _ => .done
  | succ n ih =>
      intro pos hle
      refine .get_bind fun c hc => (safe_get hw (by omega) hc).bind (fun _ h => h) fun value => ?_
      refine (safe_onIdentity (SharedIdentity.safe_stampOf hx pos)).bind (fun _ h => h)
        fun stamp => ?_
      exact (ih (pos + 1) (by omega)).bind (fun _ h => h) fun pairs => .done

/-- A request that stores nothing and takes nothing away does no more than assign an
identity. -/
theorem safe_plain (hx : Expects fresh A E) (hw : a.Whole) {req : Request T}
    (hreq : req.stored = []) (hb : req.boundary = none) : Safe (Resting a A) (Resting a A) E
      (serve fresh req : Op (SharedArena tgt T) σ T (Reply T)) := by
  have hblock : ∀ (panics : Dtor T) (input : Input T),
      (if input.panics then [] else input.values) = [] → Safe (Resting a A) (Resting a A) E
        (allocBlock fresh panics input : Op (SharedArena tgt T) σ T Block) := by
    rintro panics ⟨values, panicking⟩ hnil
    cases panicking with
    | true => exact .of_run fun c hc => .inr ⟨_, _, rfl, hc, hx.input⟩
    | false =>
        cases values with
        | nil => exact .done
        | cons v values => cases hnil
  cases req with
  | alloc v => cases hreq
  | allocBlock input panics => exact (hblock panics input hreq).map
  | extend input panics => exact (hblock panics input hreq).map
  | checkpoint =>
      refine .map (.get_bind fun c _ => (safe_tailOf hx _).bind (fun _ h => h) fun tail => ?_)
      exact (safe_onIdentity (SharedIdentity.safe_birthStamp hx)).bind (fun _ h => h) fun _ => .done
  | validateCheckpoint cp => exact (safe_validateCheckpoint hx cp).map
  | tryRollback cp panics => cases hb
  | reset panics => cases hb
  | drain => cases hb
  | len => exact .get_bind fun _ _ => .done
  | isValid idx => exact (safe_isValid idx).map
  | tryGet idx => exact (safe_tryGet hw idx).map
  | iter =>
      refine .get_bind fun c hc => ?_
      rw [iter_contents (hc.1.set hw)]
      exact .bind (fun _ h => h) .done fun _ => .done
  | iterIndexed =>
      refine .map (.get_bind fun c hc => safe_iterIndexedFrom hx hw _ 0 ?_)
      rw [Nat.zero_add]
      exact hc.1.published.le

end Plain

/-- The arena is `a` with its published slots emptied from some slot on, and perhaps
another identity. -/
structure Cuts (a a' : SharedArena tgt T) : Prop where
  sane : a'.identity.Sane (a.identity = .new)
  allocated : a'.storage.Allocated
  published : a'.published ≤ a.published
  reserved : a'.reserved = if a'.published < a.published then a'.published else a.reserved
  slots : ∀ slot, a'.storage.slots slot =
    if a'.published ≤ slot ∧ slot < a.published then none else a.storage.slots slot

/-- A call stands where the arena is `a` cut down. -/
def Cutting (a : SharedArena tgt T) (A : σ → Prop) (c : Ctx (SharedArena tgt T) σ T) : Prop :=
  a.Cuts c.arena ∧ A c.source

section Cuts

variable {a a' : SharedArena tgt T} {A : σ → Prop} {E : Exit → Prop} {fresh : Source σ}

theorem Rests.cuts (h : a.Rests a') (hw : a.Whole) : a.Cuts a' where
  sane := h.sane
  allocated := h.storage ▸ hw.allocated
  published := h.published.le
  reserved := by rw [h.reserved, h.published, if_neg (Nat.lt_irrefl _)]
  slots := by
    intro slot
    rw [h.storage, h.published, if_neg fun hin => Nat.not_lt.mpr hin.1 hin.2]

theorem Cuts.set (hw : a.Whole) (h : a.Cuts a') : ∀ slot < a'.published,
    a'.storage.slots slot ≠ none := by
  intro slot hlt
  rw [h.slots, if_neg fun hin => Nat.not_lt.mpr hin.1 hlt]
  exact hw.set slot (Nat.lt_of_lt_of_le hlt h.published)

theorem Cuts.whole (hw : a.Whole) (h : a.Cuts a') : a'.Whole where
  ordered := by
    rw [h.reserved]
    split
    · exact Nat.le_refl _
    · exact Nat.le_trans h.published hw.ordered
  fits := by
    rw [h.reserved]
    split
    · exact Nat.le_trans h.published (Nat.le_trans hw.ordered hw.fits)
    · exact hw.fits
  set := h.set hw
  allocated := h.allocated

/-- The last published slot is emptied. -/
theorem run_takeSlot_cuts (hw : a.Whole) (h : a.Cuts a') {slot : Nat}
    (hslot : slot + 1 = a'.published) (src : σ) (d : List T) :
    ∃ v a'', (takeSlot slot).run ⟨a', src, d⟩ = .ok v ⟨a'', src, d⟩ ∧ a.Cuts a'' ∧
      a''.published = slot ∧ a.storage.slots slot = some v := by
  have hlt : slot < a'.published := hslot ▸ Nat.lt_succ_self slot
  have hlt' : slot < a.published := Nat.lt_of_lt_of_le hlt h.published
  obtain ⟨v, hv⟩ := Option.ne_none_iff_exists'.mp (h.set hw slot hlt)
  obtain ⟨st, htake, hst⟩ := ChunkedStorage.take_eq hv
  have hval : a.storage.slots slot = some v := by
    rw [← hv, h.slots, if_neg fun hin => Nat.not_lt.mpr hin.1 hlt]
  refine ⟨v, { a' with storage := st, published := slot, reserved := slot },
    by simp [takeSlot, htake, expect], ⟨h.sane, h.allocated.take htake, Nat.le_of_lt hlt', ?_, ?_⟩,
    rfl, hval⟩
  · rw [if_pos hlt']
  · intro i
    rw [hst, h.slots]
    rcases Nat.lt_trichotomy i slot with hi | rfl | hi
    · rw [if_neg (by omega), if_neg (by omega), if_neg (by simp only; omega)]
    · rw [if_pos rfl, if_pos ⟨Nat.le_refl _, hlt'⟩]
    · rw [if_neg (Nat.ne_of_gt hi)]
      by_cases hin : i < a.published
      · rw [if_pos ⟨by omega, hin⟩, if_pos ⟨Nat.le_of_lt hi, hin⟩]
      · rw [if_neg fun h => hin h.2, if_neg fun h => hin h.2]

theorem safe_takeDownTo (hx : Expects fresh A E) (hw : a.Whole) (panics : Dtor T)
    (targetLen fuel : Nat) : Safe (Cutting a A) (Cutting a A) E
      (takeDownTo panics targetLen fuel : Op (SharedArena tgt T) σ T Unit) := by
  induction fuel with
  | zero => exact .done
  | succ fuel ih =>
      rintro ⟨a', src, d⟩ ⟨h, hA⟩
      have h : a.Cuts a' := h
      rw [takeDownTo]
      simp only [EStateM.run_bind, EStateM.run_get, run_ite]
      split
      · obtain ⟨v, a'', hrun, h', -, -⟩ := run_takeSlot_cuts hw h
          (Nat.sub_add_cancel (Nat.lt_of_le_of_lt (Nat.zero_le _) ‹_›)) src d
        simp only [hrun, run_dropValue]
        cases panics (a'.published - 1) v with
        | true =>
            refine ⟨⟨h', hA⟩, ?_⟩
            rintro _ ⟨⟩
            exact hx.destructor
        | false => exact ih ⟨a'', src, d ++ [v]⟩ ⟨h', hA⟩
      · exact ⟨⟨h, hA⟩, fun _ he => by cases he⟩

/-- All published slots are emptied, from the last one down. -/
theorem run_takeAll_cuts (hw : a.Whole) (n : Nat) (vs : List T) {c : Ctx (SharedArena tgt T) σ T}
    (h : a.Cuts c.arena) (hn : n = c.arena.published) :
    ∃ vs' c', (takeAll n vs).run c = .ok vs' c' ∧ vs' = vs ++ (a.contents.take n).reverse ∧
      a.Cuts c'.arena ∧ c'.arena.published = 0 ∧ c'.source = c.source := by
  induction n generalizing vs c with
  | zero =>
      refine ⟨vs, c, rfl, ?_, h, hn.symm, rfl⟩
      rw [List.take_zero, List.reverse_nil, List.append_nil]
  | succ n ih =>
      obtain ⟨a', src, d⟩ := c
      obtain ⟨v, a'', hrun, h', hpub, hv⟩ := run_takeSlot_cuts hw h hn src d
      have hlt : n < a.published := Nat.lt_of_lt_of_le (hn ▸ Nat.lt_succ_self n) h.published
      have hget : a.contents[n]? = some v := by
        rw [getElem?_contents hw.set, if_pos hlt, hv]
      have htake : a.contents.take (n + 1) = a.contents.take n ++ [v] := by
        rw [List.take_add_one, hget]
        rfl
      rw [takeAll, htake, List.reverse_append, List.reverse_singleton, ← List.append_assoc]
      simp only [EStateM.run_bind, run_owning_ok vs hrun]
      exact ih _ h' hpub.symm

/-- What a request does that has no values to store. -/
theorem safe_serve (hx : Expects fresh A E) (hw : a.Whole) {req : Request T}
    (hreq : req.stored = []) : Safe (Resting a A) (Cutting a A) E
      (serve fresh req : Op (SharedArena tgt T) σ T (Reply T)) := by
  have hcuts : ∀ c : Ctx (SharedArena tgt T) σ T, Resting a A c → Cutting a A c :=
    fun c hc => ⟨hc.1.cuts hw, hc.2⟩
  have hcommit : ∀ n, Safe (Resting a A) (Resting a A) E
      (onIdentity (SharedIdentity.commit fresh n) : Op (SharedArena tgt T) σ T Unit) :=
    fun n => safe_onIdentity (SharedIdentity.safe_commit hx n)
  have hdown : ∀ (panics : Dtor T) (n : Nat) (c : Ctx (SharedArena tgt T) σ T),
      Safe (Resting a A) (Cutting a A) E
        (takeDownTo panics n c.arena.published : Op (SharedArena tgt T) σ T Unit) :=
    fun panics n c s hs => safe_takeDownTo hx hw panics n _ s (hcuts s hs)
  cases req with
  | tryRollback cp panics =>
      refine .map (.bind hcuts (safe_validateCheckpoint hx cp) fun r => ?_)
      cases r with
      | error e => exact .pure hcuts
      | ok u =>
          refine .bind hcuts (hcommit cp.len) fun _ => .get_bind fun c _ => ?_
          exact (hdown panics cp.len c).bind (fun _ h => h) fun _ => .done
  | reset panics =>
      exact .map (.bind hcuts (hcommit 0) fun _ => .get_bind fun c _ => hdown panics 0 c)
  | drain =>
      refine .map (.bind hcuts (hcommit 0) fun _ => .of_run fun c hc => ?_)
      obtain ⟨vs, c', hrun, -, h', -, hsrc⟩ :=
        run_takeAll_cuts hw c.arena.published [] (hc.1.cuts hw) rfl
      refine .inl ⟨vs.reverse, c', ?_, h', hsrc ▸ hc.2⟩
      simp only [EStateM.run_bind, EStateM.run_get, hrun]
      rfl
  | _ => exact (safe_plain hx hw hreq rfl).post hcuts

end Cuts

/-! ## Every request -/

/-- The arena is `a` with more in it: nothing was taken back. -/
structure Extends (a a' : SharedArena tgt T) : Prop where
  whole : a'.Whole
  published : a.published ≤ a'.published
  reserved : a.reserved ≤ a'.reserved
  kept : ∀ slot, a.storage.slots slot ≠ none → a'.storage.slots slot = a.storage.slots slot

theorem Extends.refl {a : SharedArena tgt T} (h : a.Whole) : a.Extends a :=
  ⟨h, Nat.le_refl _, Nat.le_refl _, fun _ _ => rfl⟩

theorem Extends.trans {a a' a'' : SharedArena tgt T} (h : a.Extends a') (h' : a'.Extends a'') :
    a.Extends a'' where
  whole := h'.whole
  published := Nat.le_trans h.published h'.published
  reserved := Nat.le_trans h.reserved h'.reserved
  kept := by
    intro slot hslot
    have hkept := h.kept slot hslot
    exact (h'.kept slot (hkept ▸ hslot)).trans hkept

/-- What is published stays, and more comes after it. -/
theorem Extends.contents_prefix {a a' : SharedArena tgt T} (h : a.Extends a') (hw : a.Whole) :
    a.contents <+: a'.contents := by
  refine List.prefix_iff_getElem?.mpr fun slot hlt => ?_
  have hget := getElem?_contents hw.set slot
  rw [List.getElem?_eq_getElem hlt] at hget
  rw [length_contents hw.set] at hlt
  rw [if_pos hlt] at hget
  rw [getElem?_contents h.whole.set, if_pos (Nat.lt_of_lt_of_le hlt h.published),
    h.kept slot (hw.set slot hlt), hget]

/-- The arena after a request, when it was `a` before. -/
structure Next (a a' : SharedArena tgt T) : Prop where
  whole : a'.Whole
  sane : a'.identity.Sane (a.identity = .new)
  reserved : a'.identity = .new → a'.reserved ≤ a.reserved
  kept : ∀ slot, a.published ≤ slot → a.storage.slots slot ≠ none →
    a'.storage.slots slot = a.storage.slots slot

section Next

variable {a a' : SharedArena tgt T} {fresh : Source σ}

theorem Cuts.next (hw : a.Whole) (h : a.Cuts a') : a.Next a' where
  whole := h.whole hw
  sane := h.sane
  reserved := by
    intro _
    rw [h.reserved]
    split
    · exact Nat.le_trans h.published hw.ordered
    · exact Nat.le_refl _
  kept := by
    intro slot hle _
    rw [h.slots, if_neg fun hin => Nat.not_lt.mpr hle hin.2]

/-- Slots that were filled and published one after the other. -/
theorem extends_of_laid (hw : a.Whole) {values : List T} {k n : Nat} {st : ChunkedStorage tgt T}
    (hfit : a.reserved + values.length ≤ tgt.usizeMax)
    (hk : k = stretch a.storage.free a.reserved values.length)
    (hal : st.Allocated) (hlaid : a.storage.Laid a.reserved (values.take k) st)
    (hn : n ≤ stretch st.filled a.published (a.reserved + values.length - a.published)) :
    a.Extends { a with storage := st, reserved := a.reserved + values.length,
                       published := a.published + n } := by
  have hkept : ∀ slot, a.storage.slots slot ≠ none → st.slots slot = a.storage.slots slot := by
    refine fun slot => hlaid.kept fun i hi => ?_
    rw [List.length_take, Nat.lt_min] at hi
    exact (ChunkedStorage.free_iff.mp (stretch_holds (hk ▸ hi.1))).1
  have hle := Nat.le_trans hn (stretch_le _ _ _)
  have hord := hw.ordered
  refine ⟨⟨?_, hfit, fun slot hlt => ?_, hal⟩, Nat.le_add_right _ _, Nat.le_add_right _ _, hkept⟩
  · show a.published + n ≤ a.reserved + values.length
    omega
  · have hlt : slot < a.published + n := hlt
    show st.slots slot ≠ none
    rcases Nat.lt_or_ge slot a.published with hpub | hpub
    · rw [hkept slot (hw.set slot hpub)]
      exact hw.set slot hpub
    · obtain ⟨i, rfl⟩ := Nat.exists_eq_add_of_le hpub
      have hi : i < n := Nat.lt_of_add_lt_add_left hlt
      exact ChunkedStorage.filled_iff.mp (stretch_holds (Nat.lt_of_lt_of_le hi hn))

/-- An allocation on an arena with an identity. -/
theorem placing_live (fresh : Source σ) (panics : Dtor T) (hw : a.Whole) {i : Identity}
    (hid : a.identity.Mirrors i) {values : List T} (hne : values ≠ []) (src : σ) (d : List T) :
    let a' := (left ((placing fresh panics values).run ⟨a, src, d⟩)).arena
    a'.identity = a.identity ∧ a.Extends a' := by
  rcases Nat.lt_or_ge tgt.usizeMax (a.reserved + values.length) with hfull | hfit
  · rw [run_placing_full panics hid hne hfull]
    exact ⟨rfl, .refl hw⟩
  · obtain ⟨st, hal, hlaid, hrun⟩ := run_placing panics fresh hw hid hne hfit src d
    rw [hrun]
    split
    · split <;> exact ⟨rfl, extends_of_laid hw hfit rfl hal hlaid (Nat.le_refl _)⟩
    · exact ⟨rfl, extends_of_laid hw hfit rfl hal hlaid (Nat.zero_le _)⟩

/-- An allocation takes nothing back, and does not take away the identity. -/
theorem placing_extends (fresh : Source σ) (panics : Dtor T) (hw : a.Whole)
    (hs : a.identity.Sane True)
    {values : List T} (hne : values ≠ []) (src : σ) (d : List T) :
    let a' := (left ((placing fresh panics values).run ⟨a, src, d⟩)).arena
    a.Extends a' ∧ (a' = a ∨ ∃ i, a'.identity.Mirrors i) := by
  rcases hs with ⟨hid, -⟩ | ⟨i, hid⟩
  · rcases hf : fresh src with ⟨p | s, src'⟩
    · rw [run_placing_error panics hf hid]
      exact ⟨.refl hw, .inl rfl⟩
    · rw [run_placing_new panics hf hid]
      have hborn : ({ a with identity := .born s } : SharedArena tgt T).identity.Mirrors (.new s) :=
        .of_born s
      obtain ⟨hid', hext⟩ := placing_live fresh panics (a := { a with identity := .born s })
        ⟨hw.ordered, hw.fits, hw.set, hw.allocated⟩ hborn hne src' d
      rw [← hid'] at hborn
      exact ⟨⟨hext.whole, hext.published, hext.reserved, hext.kept⟩, .inr ⟨_, hborn⟩⟩
  · obtain ⟨hid', hext⟩ := placing_live fresh panics hw hid hne src d
    exact ⟨hext, .inr ⟨i, hid' ▸ hid⟩⟩

/-- Whatever is asked of the arena, and however it ends. -/
theorem serve_next (hw : a.Whole) (hs : a.identity.Sane True) (req : Request T) (src : σ)
    (d : List T) : a.Next (left ((serve fresh req).run ⟨a, src, d⟩)).arena := by
  by_cases hreq : req.stored = []
  · exact (safe_serve (.any fresh) hw hreq ⟨a, src, d⟩ ⟨.refl hs, trivial⟩).1.1.next hw
  · rw [run_serve_placing hreq, left_run_map]
    obtain ⟨hext, hid⟩ := placing_extends fresh req.movedDtor hw hs hreq src d
    refine ⟨hext.whole, ?_, fun hn => ?_, fun slot _ => hext.kept slot⟩
    · rcases hid with hid | ⟨i, hm⟩
      · rw [hid]
        exact hs.imp_left fun h => ⟨h.1, h.1⟩
      · exact .of_mirrors hm
    · rcases hid with hid | ⟨i, hm⟩
      · exact (congrArg SharedArena.reserved hid).le
      · exact absurd (congrArg SharedIdentity.birth hn) hm.birth_ne_zero

/-- A request that takes nothing away. -/
theorem serve_extends (hw : a.Whole) (hs : a.identity.Sane True) {req : Request T}
    (hb : req.boundary = none) (src : σ) (d : List T) :
    a.Extends (left ((serve fresh req).run ⟨a, src, d⟩)).arena := by
  by_cases hreq : req.stored = []
  · have hrests := (safe_plain (.any fresh) hw hreq hb ⟨a, src, d⟩ ⟨.refl hs, trivial⟩).1.1
    refine ⟨⟨?_, hrests.reserved ▸ hw.fits, hrests.set hw, hrests.storage ▸ hw.allocated⟩,
      hrests.published.ge, hrests.reserved.ge, fun slot _ => by rw [hrests.storage]⟩
    rw [hrests.published, hrests.reserved]
    exact hw.ordered
  · rw [run_serve_placing hreq, left_run_map]
    exact (placing_extends fresh req.movedDtor hw hs hreq src d).1

end Next

end SharedArena

/-! ## Calls -/

/-- The panic of a call that found a slot not free. -/
def Panic.Refusal (p : Panic) : Prop :=
  p = .capacityOverflow ∨ p = .destructor ∨ ∃ slot, p = .slotOccupied slot

theorem ChunkedStorage.refusal_isRefusal (st : ChunkedStorage tgt T) (panics : Dtor T) (slot : Nat)
    (value : Option T) : (st.refusal panics slot value).Refusal := by
  rw [ChunkedStorage.refusal]
  split
  · split
    · exact .inr (.inl rfl)
    · exact .inr (.inr ⟨slot, rfl⟩)
  · exact .inl rfl

/-- What a call of `len` values knows of the slots, unless it was refused one. -/
def Pc.Knows (len : Nat) (a : SharedArena tgt T) (pc : Pc T) : Prop :=
  pc.Sound len a ∨ ∃ p : Panic, pc = .unwound p ∧ p.Refusal

theorem Pc.Knows.of_running {len : Nat} {a : SharedArena tgt T} {pc : Pc T} (h : pc.Knows len a)
    (hrun : pc.running = true) : pc.Sound len a := by
  rcases h with h | ⟨p, rfl, -⟩
  · exact h
  · cases hrun

/-- The range of a call is reserved, and as far as it is filled it holds the values. -/
def SharedArena.Backs (a : SharedArena tgt T) (values : List T) (r : Option (Nat × Nat)) : Prop :=
  ∀ q ∈ r, q.1 + values.length ≤ a.reserved ∧
    ∀ o < q.2, ∃ v, values[o]? = some v ∧ a.storage.slots (q.1 + o) = some v

theorem SharedArena.Backs.mono {a a' : SharedArena tgt T} {values : List T}
    {r : Option (Nat × Nat)} (h : a.Backs values r) (hext : a.Extends a') : a'.Backs values r := by
  refine fun q hq => ⟨Nat.le_trans (h q hq).1 hext.reserved, fun o ho => ?_⟩
  obtain ⟨v, hv, hslot⟩ := (h q hq).2 o ho
  exact ⟨v, hv, (hext.kept _ (hslot ▸ Option.some_ne_none v)).trans hslot⟩

namespace Shared

/-- What holds of a concurrent arena whatever fails on it. -/
structure Intact (s : Shared tgt T) : Prop where
  whole : s.arena.Whole
  assigned : s.Assigned
  unborn : s.arena.identity.birth = 0 → s.arena.identity = .new
  backed : ∀ (k : Nat) (c : Call T), s.calls[k]? = some c →
    s.arena.Backs c.ask.values (c.pc.range c.ask.values.length)
  knows : ∀ (k : Nat) (c : Call T), s.calls[k]? = some c →
    c.pc.Knows c.ask.values.length s.arena
  /-- The ranges of two calls have no slot in common. -/
  apart : ∀ (j k : Nat) (c d : Call T), s.calls[j]? = some c → s.calls[k]? = some d → j ≠ k →
    ∀ q r, c.pc.range c.ask.values.length = some q → d.pc.range d.ask.values.length = some r →
      q.1 + c.ask.values.length ≤ r.1 ∨ r.1 + d.ask.values.length ≤ q.1

section Intact

variable {s : Shared tgt T}

theorem Intact.idle_new : (Shared.idle (.new : SharedArena tgt T)).Intact where
  whole := .new
  assigned := .idle .new
  unborn := fun _ => rfl
  backed := fun _ _ hc => by cases hc
  knows := fun _ _ hc => by cases hc
  apart := fun _ _ _ _ hc => by cases hc

/-- With no call under way the identity is there or it is not. -/
theorem Intact.sane (h : s.Intact) (hquiet : s.quiet = true) : s.arena.identity.Sane True := by
  by_cases hb : s.arena.identity.birth = 0
  · exact .inl ⟨h.unborn hb, trivial⟩
  · refine .inr (SharedIdentity.Mirrors.of_assigned hb fun hc => ?_)
    obtain ⟨k, c, hk, hs⟩ := h.assigned.winner hb hc
    have hdone := List.all_eq_true.mp hquiet c (List.mem_of_getElem? hk)
    obtain ⟨use, fresh, hpc⟩ := Pc.storing_iff.mp hs
    rw [hpc] at hdone
    cases hdone

theorem Intact.start (h : s.Intact) (t : ThreadId) (ask : Ask T) : (s.start t ask).Intact where
  whole := h.whole
  assigned := h.assigned.start t ask
  unborn := h.unborn
  backed := by
    intro k c hk
    rw [getElem?_start] at hk
    split at hk
    · cases hk
      rw [(ask.start_sound s.arena).1]
      exact fun _ hq => by cases hq
    · exact h.backed k c hk
  knows := by
    intro k c hk
    rw [getElem?_start] at hk
    split at hk
    · cases hk
      exact .inl (ask.start_sound _).2
    · exact h.knows k c hk
  apart := by
    intro j k c d hj hk hne q r hq hr
    rw [getElem?_start] at hj hk
    split at hj
    · cases hj
      cases (ask.start_sound s.arena).1.symm.trans hq
    · split at hk
      · cases hk
        cases (ask.start_sound s.arena).1.symm.trans hr
      · exact h.apart j k c d hj hk hne q r hq hr

/-- What a request leaves of an arena that no call was under way on. -/
theorem Intact.next (h : s.Intact) {a : SharedArena tgt T} (hn : s.arena.Next a) (d : List T) :
    (⟨a, [], d⟩ : Shared tgt T).Intact := by
  have hsettled : a.Settled := by
    refine ⟨?_, fun hne hc => ?_⟩
    · rcases hn.sane with ⟨hid, -⟩ | ⟨i, hm⟩
      · rw [hid]
        exact Iff.rfl
      · exact ⟨fun hb => absurd hb hm.birth_ne_zero, fun hc => absurd hc hm.current_ne_zero⟩
    · rcases hn.sane with ⟨hid, hnew⟩ | ⟨i, hm⟩
      · have hzero : s.arena.reserved = 0 := by
          refine Classical.not_not.mp fun hne' => h.assigned.issued hne' ?_
          rw [hnew]
          rfl
        exact hne (Nat.le_zero.mp (hzero ▸ hn.reserved hid))
      · exact hm.current_ne_zero hc
  refine ⟨hn.whole, ⟨(Assigned.idle hsettled).unborn, (Assigned.idle hsettled).winner,
    (Assigned.idle hsettled).single, (Assigned.idle hsettled).issued,
    (Assigned.idle hsettled).agree⟩, fun hb => ?_, (fun _ _ hc => by cases hc),
    (fun _ _ hc => by cases hc), (fun _ _ _ _ hc => by cases hc)⟩
  rcases hn.sane with ⟨hid, -⟩ | ⟨i, hm⟩
  · exact hid
  · exact absurd hb hm.birth_ne_zero

end Intact

end Shared

/-! ## Moves -/

section Move

variable {a : SharedArena tgt T}

/-- Only a write to a slot changes the storage. -/
theorem Ask.move_storage (ask : Ask T) (answer : Except Panic Stamp) (mishap : Bool)
    (a : SharedArena tgt T) {pc : Pc T} (hpc : pc.filling = []) :
    (ask.move answer mishap a pc).1.storage = a.storage := by
  cases pc with
  | set stamp start offset => cases hpc
  | loadLen => rfl
  | load use => rw [Ask.move]; split <;> rfl
  | draw use => cases answer <;> rfl
  | exchangeBirth use fresh => rw [Ask.move]; split <;> rfl
  | storeCurrent use fresh => rfl
  | reread use => rw [Ask.move]; split <;> rfl
  | reserve stamp => rw [Ask.move]; split <;> rfl
  | loadPublished stamp start last => rw [Ask.move]; split <;> rfl
  | isSet stamp start last published => rw [Ask.move]; split <;> rfl
  | advance stamp start last published => rw [Ask.move]; split <;> rfl
  | returned reply => rfl
  | unwound p => rfl

/-- An effect that leaves the storage alone. -/
theorem Effect.extends {a' : SharedArena tgt T} {values : List T} {r r' : Option (Nat × Nat)}
    (he : Effect a values r a' r') (hw : a.Whole) (hst : a'.storage = a.storage) :
    a.Extends a' := by
  have hkept : ∀ slot, a.storage.slots slot ≠ none →
      a'.storage.slots slot = a.storage.slots slot := fun slot _ => by rw [hst]
  have hset : ∀ slot < a.published, a'.storage.slots slot ≠ none := hst ▸ hw.set
  have hal : a'.storage.Allocated := hst ▸ hw.allocated
  have hord := hw.ordered
  cases he with
  | quiet _ hres hpub =>
      exact ⟨⟨hpub ▸ hres ▸ hord, hres ▸ hw.fits, hpub ▸ hset, hal⟩, hpub.ge, hres.ge, hkept⟩
  | fills _ _ hres hpub =>
      exact ⟨⟨hpub ▸ hres ▸ hord, hres ▸ hw.fits, hpub ▸ hset, hal⟩, hpub.ge, hres.ge, hkept⟩
  | reserves _ hres hpub hfit =>
      refine ⟨⟨?_, hres ▸ hfit, hpub ▸ hset, hal⟩, hpub.ge, by omega, hkept⟩
      omega
  | publishes hfilled hlt _ hres hpub =>
      refine ⟨⟨by omega, hres ▸ hw.fits, fun slot hslot => ?_, hal⟩, by omega, hres.ge, hkept⟩
      rcases Nat.lt_succ_iff_lt_or_eq.mp (hpub ▸ hslot) with hlt | rfl
      · exact hset slot hlt
      · rwa [hst]

theorem Effect.backs {a' : SharedArena tgt T} {values : List T} {r r' : Option (Nat × Nat)}
    (he : Effect a values r a' r') (hst : a'.storage = a.storage) (hb : a.Backs values r) :
    a'.Backs values r' := by
  cases he with
  | quiet _ hres => rwa [SharedArena.Backs, hres, hst]
  | publishes _ _ _ hres => rwa [SharedArena.Backs, hres, hst]
  | reserves _ hres =>
      rintro _ ⟨⟩
      exact ⟨hres.ge, fun o ho => by cases ho⟩
  | fills hlt hslots hres =>
      obtain ⟨hbelow, hvalues⟩ := hb _ rfl
      rintro _ ⟨⟩
      refine ⟨hres ▸ hbelow, fun o ho => ?_⟩
      rcases Nat.lt_succ_iff_lt_or_eq.mp ho with ho | rfl
      · rw [hst]
        exact hvalues o ho
      · have hget := List.getElem?_eq_getElem hlt
        exact ⟨_, hget, by rw [hslots, if_pos rfl, hget]⟩

/-- A write to a slot fills it if it is free, and is the end of the call if it is not. -/
theorem Ask.move_set (ask : Ask T) (answer : Except Panic Stamp) (mishap : Bool) (stamp : Stamp)
    {start offset : Nat} (hw : a.Whole) (hlt : offset < ask.values.length)
    (hin : start + ask.values.length ≤ a.reserved) :
    ∃ st, ({ a with storage := st } : SharedArena tgt T).Whole ∧
      (ask.move answer mishap a (.set stamp start offset)).1 = { a with storage := st } ∧
      if a.storage.free (start + offset) then
        (∀ i, st.slots i = if i = start + offset then ask.values[offset]? else a.storage.slots i) ∧
          (ask.move answer mishap a (.set stamp start offset)).2
            = fillPc tgt ask.values stamp start (offset + 1)
      else (∀ i, st.slots i = a.storage.slots i) ∧
        (ask.move answer mishap a (.set stamp start offset)).2
          = .unwound (a.storage.refusal (fun _ _ => mishap) (start + offset)
              ask.values[offset]?) := by
  have hfits := hw.fits
  have hget : ask.values[offset]? = some ask.values[offset] := List.getElem?_eq_getElem hlt
  have hadd : tgt.checkedAdd start offset = some (start + offset) :=
    Target.checkedAdd_eq_some.mpr ⟨by omega, rfl⟩
  have hwhole : ∀ st : ChunkedStorage tgt T, st.Allocated →
      (∀ slot, a.storage.slots slot ≠ none → st.slots slot ≠ none) →
      ({ a with storage := st } : SharedArena tgt T).Whole := fun st hal hkept =>
    ⟨hw.ordered, hw.fits, fun slot hslot => hkept slot (hw.set slot hslot), hal⟩
  rcases hw.allocated.set_cases (show start + offset < tgt.usizeMax by omega) ask.values[offset]
    with ⟨hnone, ha, st, hset, hal, hst⟩ | ⟨v, st, hv, hset, hal, hst⟩ | ⟨hnone, ha, hset⟩
  · refine ⟨st, hwhole st hal fun slot hslot => ?_, ?_, ?_⟩
    · rw [hst]
      split
      · exact Option.some_ne_none _
      · exact hslot
    · rw [Ask.move, hget]
      simp only [hadd, hset]
    · rw [if_pos (ChunkedStorage.free_iff.mpr ⟨hnone, ha⟩), Ask.move, hget]
      simp only [hadd, hset]
      exact ⟨hst, trivial⟩
  · have hfilled : a.storage.filled (start + offset) = true := by
      rw [ChunkedStorage.filled, hv]
      rfl
    have hfree : a.storage.free (start + offset) = false := by
      rw [ChunkedStorage.free, hv]
      rfl
    refine ⟨st, hwhole st hal fun slot hslot => (hst slot).symm ▸ hslot, ?_, ?_⟩
    · rw [Ask.move, hget]
      simp only [hadd, hset]
    · rw [hfree, if_neg Bool.false_ne_true, Ask.move, hget, ChunkedStorage.refusal, if_pos hfilled]
      simp only [hadd, hset, Option.any_some]
      exact ⟨hst, trivial⟩
  · have hfilled : a.storage.filled (start + offset) = false := by
      rw [ChunkedStorage.filled, hnone]
      rfl
    have hfree : a.storage.free (start + offset) = false := by
      rw [ChunkedStorage.free, ha, Bool.and_false]
    refine ⟨a.storage, hw, ?_, ?_⟩
    · rw [Ask.move, hget]
      simp only [hadd, hset]
    · rw [hfree, if_neg Bool.false_ne_true, Ask.move, hget, ChunkedStorage.refusal, hfilled,
        if_neg Bool.false_ne_true]
      simp only [hadd, hset, implies_true, and_self]

/-- Every move extends the arena, and its call goes on knowing what it has to. -/
theorem Ask.move_intact {ask : Ask T} (answer : Except Panic Stamp)
    (hans : ∀ p, answer = .error p → p = .stampSpaceExhausted) (mishap : Bool) {pc : Pc T}
    (hw : a.Whole) (hk : pc.Knows ask.values.length a)
    (hb : a.Backs ask.values (pc.range ask.values.length)) :
    let m := ask.move answer mishap a pc
    a.Extends m.1 ∧ m.1.Backs ask.values (m.2.range ask.values.length) ∧
      m.2.Knows ask.values.length m.1 := by
  rcases hk with h | ⟨p, rfl, hp⟩
  · by_cases hpc : pc.filling = []
    · obtain ⟨he, hs⟩ :=
        ask.move_elsewhere answer hans mishap hpc h (fun q hq => (hb q hq).1) hw.fits
      have hst := ask.move_storage answer mishap a hpc
      exact ⟨he.extends hw hst, he.backs hst hb, .inl hs⟩
    · cases pc with
      | set stamp start offset =>
          have hlt : offset < ask.values.length := h
          obtain ⟨hbelow, hvalues⟩ := hb (start, offset) rfl
          obtain ⟨st, hw', hm, hst⟩ := ask.move_set answer mishap stamp hw hlt hbelow
          intro m
          rw [show m.1 = _ from hm]
          split at hst
          · obtain ⟨hslots, hm2⟩ := hst
            have hnext := fillPc_sound { a with storage := st } stamp (Nat.zero_lt_of_lt hlt) hlt
              (Nat.le_trans hbelow hw.fits)
            have hempty : a.storage.slots (start + offset) = none :=
              (ChunkedStorage.free_iff.mp ‹_›).1
            have hext : a.Extends { a with storage := st } := by
              refine ⟨hw', Nat.le_refl _, Nat.le_refl _, fun slot hslot => ?_⟩
              have hne : slot ≠ start + offset := by
                rintro rfl
                exact hslot hempty
              exact (hslots slot).trans (if_neg hne)
            rw [show m.2 = _ from hm2, hnext.1]
            refine ⟨hext, ?_, .inl hnext.2⟩
            rintro _ ⟨⟩
            refine ⟨hbelow, fun o ho => ?_⟩
            rcases Nat.lt_succ_iff_lt_or_eq.mp ho with ho | rfl
            · obtain ⟨v, hv, hslot⟩ := hvalues o ho
              exact ⟨v, hv, (hext.kept _ (hslot ▸ Option.some_ne_none v)).trans hslot⟩
            · have hget := List.getElem?_eq_getElem hlt
              exact ⟨_, hget, ((hslots _).trans (if_pos rfl)).trans hget⟩
          · obtain ⟨hslots, hm2⟩ := hst
            rw [show m.2 = _ from hm2]
            exact ⟨⟨hw', Nat.le_refl _, Nat.le_refl _, fun slot _ => hslots slot⟩,
              (fun _ hq => by cases hq), .inr ⟨_, rfl, a.storage.refusal_isRefusal ..⟩⟩
      | _ => exact absurd rfl hpc
  · exact ⟨.refl hw, (fun _ hq => by cases hq), .inr ⟨p, rfl, hp⟩⟩

/-- What an effect publishes was reserved before. -/
theorem Effect.published_le {a' : SharedArena tgt T} {values : List T} {r r' : Option (Nat × Nat)}
    (he : Effect a values r a' r') (hord : a.published ≤ a.reserved) :
    a'.published ≤ a.reserved := by
  cases he with
  | quiet _ _ hpub => exact hpub ▸ hord
  | reserves _ _ hpub => exact hpub ▸ hord
  | fills _ _ _ hpub => exact hpub ▸ hord
  | publishes _ hlt _ _ hpub => exact hpub ▸ hlt

/-- What a move publishes was reserved before. -/
theorem Ask.move_published {ask : Ask T} (answer : Except Panic Stamp)
    (hans : ∀ p, answer = .error p → p = .stampSpaceExhausted) (mishap : Bool) {pc : Pc T}
    (hw : a.Whole) (hk : pc.Knows ask.values.length a)
    (hb : a.Backs ask.values (pc.range ask.values.length)) :
    (ask.move answer mishap a pc).1.published ≤ a.reserved := by
  rcases hk with h | ⟨p, rfl, -⟩
  · by_cases hpc : pc.filling = []
    · have he := (ask.move_elsewhere answer hans mishap hpc h (fun q hq => (hb q hq).1) hw.fits).1
      exact he.published_le hw.ordered
    · cases pc with
      | set stamp start offset =>
          obtain ⟨st, -, hm, -⟩ := ask.move_set answer mishap stamp hw h (hb (start, offset) rfl).1
          rw [hm]
          exact hw.ordered
      | _ => exact absurd rfl hpc
  · exact hw.ordered

/-- A range begins where `reserved` stood, and stays there. -/
theorem Ask.move_range {ask : Ask T} (answer : Except Panic Stamp)
    (hans : ∀ p, answer = .error p → p = .stampSpaceExhausted) (mishap : Bool) {pc : Pc T}
    {a : SharedArena tgt T} (hw : a.Whole) (hk : pc.Knows ask.values.length a)
    (hb : a.Backs ask.values (pc.range ask.values.length)) {r : Nat × Nat}
    (hr : (ask.move answer mishap a pc).2.range ask.values.length = some r) :
    r.1 = a.reserved ∨ ∃ q, pc.range ask.values.length = some q ∧ q.1 = r.1 := by
  rcases hk with h | ⟨p, rfl, -⟩
  · by_cases hpc : pc.filling = []
    · have he := (ask.move_elsewhere answer hans mishap hpc h (fun q hq => (hb q hq).1) hw.fits).1
      revert he
      rw [hr]
      generalize pc.range ask.values.length = q
      generalize (ask.move answer mishap a pc).1 = a'
      intro he
      cases he with
      | quiet => exact .inr ⟨r, rfl, rfl⟩
      | reserves => exact .inl rfl
      | fills => exact .inr ⟨_, rfl, rfl⟩
      | publishes => exact .inr ⟨r, rfl, rfl⟩
    · cases pc with
      | set stamp start offset =>
          have hlt : offset < ask.values.length := h
          have hbelow := (hb (start, offset) rfl).1
          obtain ⟨st, -, -, hst⟩ := ask.move_set answer mishap stamp hw hlt hbelow
          split at hst
          · have hnext := fillPc_sound a stamp (Nat.zero_lt_of_lt hlt) hlt
              (Nat.le_trans hbelow hw.fits)
            rw [hst.2, hnext.1] at hr
            cases hr
            exact .inr ⟨_, rfl, rfl⟩
          · rw [hst.2] at hr
            cases hr
      | _ => exact absurd rfl hpc
  · cases hr

end Move

/-! ## Steps and runs -/

namespace Shared

section Step

variable {s : Shared tgt T} {i : Nat} {answer : Except Panic Stamp}

theorem Intact.extends_step (h : s.Intact)
    (hans : ∀ p, answer = .error p → p = .stampSpaceExhausted) (mishap : Bool) :
    s.arena.Extends (s.step i answer mishap).arena := by
  cases hc : s.calls[i]? with
  | none =>
      rw [step_of_none hc]
      exact .refl h.whole
  | some c =>
      rw [arena_step hc]
      exact (Ask.move_intact answer hans mishap h.whole (h.knows i c hc) (h.backed i c hc)).1

/-- The range of the call that moves has no slot in common with the others. -/
theorem Intact.range_apart (h : s.Intact)
    (hans : ∀ p, answer = .error p → p = .stampSpaceExhausted) (mishap : Bool) {c : Call T}
    (hc : s.calls[i]? = some c) (q : Nat × Nat)
    (hq : (c.ask.move answer mishap s.arena c.pc).2.range c.ask.values.length = some q) (k : Nat)
    (d : Call T) (hd : s.calls[k]? = some d) (hne : k ≠ i) (r : Nat × Nat)
    (hr : d.pc.range d.ask.values.length = some r) :
    q.1 + c.ask.values.length ≤ r.1 ∨ r.1 + d.ask.values.length ≤ q.1 := by
  rcases Ask.move_range answer hans mishap h.whole (h.knows i c hc) (h.backed i c hc) hq with
    hnew | ⟨q', hq', hsame⟩
  · exact .inr (hnew ▸ (h.backed k d hd r hr).1)
  · exact hsame ▸ h.apart i k c d hc hd hne.symm q' r hq' hr

theorem Intact.step (h : s.Intact) (hans : ∀ p, answer = .error p → p = .stampSpaceExhausted)
    (mishap : Bool) : (s.step i answer mishap).Intact := by
  cases hc : s.calls[i]? with
  | none => rwa [step_of_none hc]
  | some c =>
      obtain ⟨hext, hbacked, hknows⟩ :=
        Ask.move_intact answer hans mishap h.whole (h.knows i c hc) (h.backed i c hc)
      rw [← arena_step hc] at hext hbacked hknows
      have hapart := h.range_apart hans mishap hc
      refine ⟨hext.whole, h.assigned.step i answer mishap, fun hb => ?_, fun k d hk => ?_,
        fun k d hk => ?_, fun j k c' d hj hk hne q r hq hr => ?_⟩
      · have hgrows := h.assigned.grows_next (.step i answer mishap)
        have hzero : s.arena.identity.birth = 0 :=
          Classical.not_not.mp fun hne => hne ((hgrows.birth hne).symm.trans hb)
        rw [arena_step hc] at hb ⊢
        rcases c.ask.move_identity answer mishap s.arena c.pc with
          ⟨hid, -⟩ | ⟨use, fresh, -, -, hmove⟩ | ⟨use, fresh, hpc, hmove⟩
        · rw [hid]
          exact h.unborn hzero
        · rw [hmove] at hb
          exact absurd hb fresh.ne_zero
        · exact absurd hzero (h.assigned.storing ⟨c, hc, Pc.storing_iff.mpr ⟨use, fresh, hpc⟩⟩).1
      · rw [getElem?_step hc] at hk
        split at hk
        · cases hk
          exact hbacked
        · exact (h.backed k d hk).mono hext
      · rw [getElem?_step hc] at hk
        split at hk
        · cases hk
          exact hknows
        · refine (h.knows k d hk).imp_left fun hs => ?_
          exact hs.mono (fun slot hslot => (hext.kept slot hslot).symm ▸ hslot) hext.published
      · rw [getElem?_step hc] at hj hk
        split at hj
        · cases hj
          rw [if_neg (fun hki => hne (‹j = i›.trans hki.symm))] at hk
          exact hapart q hq k d hk (fun hki => hne (‹j = i›.trans hki.symm)) r hr
        · split at hk
          · cases hk
            exact (hapart r hr j c' hj ‹¬ j = i› q hq).symm
          · exact h.apart j k c' d hj hk hne q r hq hr

end Step

end Shared

namespace World

section Runs

variable {w : World tgt T}

/-- What holds of a process whatever fails in it. -/
structure Intact (w : World tgt T) : Prop where
  traced : w.Traced
  shareds : ∀ n, (w.shareds n).Intact

theorem Intact.initial : (initial : World tgt T).Intact := ⟨.initial, fun _ => .idle_new⟩

/-- A request changes the arena it has to itself as it may. -/
theorem Intact.next_alone (h : w.Intact) (t : ThreadId) {n : Nat} (req : Request T)
    (hquiet : (w.shareds n).quiet = true) :
    (w.shareds n).arena.Next ((w.step (.alone t n req)).shareds n).arena := by
  rw [World.step, if_pos hquiet, shareds_put_self]
  exact SharedArena.serve_next (h.shareds n).whole ((h.shareds n).sane hquiet) req _ _

/-- A step of a call takes nothing back. -/
theorem Intact.extends_step (h : w.Intact) (n i : Nat) (mishap : Bool) :
    (w.shareds n).arena.Extends ((w.step (.step n i mishap)).shareds n).arena := by
  rw [World.step]
  cases hc : (w.shareds n).calls[i]? with
  | none => exact .refl (h.shareds n).whole
  | some c =>
      simp only [shareds_put_self]
      exact (h.shareds n).extends_step (answer_spends h.traced.drawn.space c).2 mishap

theorem Intact.step (h : w.Intact) (e : Event T) : (w.step e).Intact := by
  refine ⟨h.traced.step e, fun n => ?_⟩
  by_cases howner : e.owner = some (.shared n)
  · cases e with
    | single e => exact h.shareds n
    | start m t ask =>
        cases howner
        rw [World.step, shareds_put_self]
        exact (h.shareds n).start t ask
    | step m i mishap =>
        cases howner
        rw [World.step]
        cases hc : (w.shareds n).calls[i]? with
        | none => exact h.shareds n
        | some c =>
            simp only [shareds_put_self]
            exact (h.shareds n).step (answer_spends h.traced.drawn.space c).2 mishap
    | alone t m req =>
        cases howner
        by_cases hquiet : (w.shareds n).quiet = true
        · have hnext := h.next_alone t req hquiet
          rw [World.step, if_pos hquiet, shareds_put_self] at hnext ⊢
          exact (h.shareds n).next hnext _
        · rw [World.step, if_neg hquiet]
          exact h.shareds n
  · rw [w.shareds_step_of_ne howner]
    exact h.shareds n

theorem Intact.run (h : w.Intact) (es : List (Event T)) : (w.run es).Intact := by
  induction es generalizing w with
  | nil => exact h
  | cons e es ih => exact ih (h.step e)

end Runs

end World

end SafeBump
