import SafeBump.Publication
import SafeBump.Served

/-!
# What a call on a concurrent arena delivers

While calls are under way a store only grows: values are added, or the first
capability is issued (`Store.Grown`).  The words of an identity stand for a
history at every moment of that (`SharedIdentity.Views`); it begins when the race
for `birth` is won, before `current` is there for anyone to read.

A call in `checkpoint` has found part of what the checkpoint will say, and it
stays true until the call returns, because growth takes nothing back
(`Pc.Delivers.grown`).  So what a call returns is good when it returns it
(`Ask.move_delivers`).
-/

namespace SafeBump

open Library (History)

variable {tgt : Target} {T : Type}

/-! ## Growth -/

/-- Values were added, or the store was begun. -/
structure Store.Grown (st st' : Store T) : Prop where
  epochs : st'.epochs = st.epochs ∨ st.epochs = none ∧ ∃ s, st'.epochs = some (.new s)
  values : st.values <+: st'.values

namespace Store

theorem values_of_epochs {st : Store T} (h : st.epochs = none) : st.values = [] := by
  cases st with
  | unused => rfl
  | live vs e => cases h

theorem Grown.refl (st : Store T) : st.Grown st := ⟨.inl rfl, List.prefix_refl _⟩

/-- Growth begins no epoch and keeps the values. -/
theorem Grown.extends {st st' : Store T} (h : st.Grown st') : st.Extends [] st' where
  history := by
    intro e he
    rcases h.epochs with hsame | ⟨hnone, -⟩
    · exact ⟨[], rfl, hsame.trans he⟩
    · cases hnone.symm.trans he
  kept := by
    intro slot v hv _
    obtain ⟨hlt, rfl⟩ := List.getElem?_eq_some_iff.mp hv
    exact List.prefix_iff_getElem?.mp h.values slot hlt

end Store

/-! ## The history behind an identity -/

/-- The history the words of an identity stand for. -/
inductive SharedIdentity.Views : SharedIdentity → Option Epochs → Prop where
  | unborn : Views .new none
  /-- The winner has not stored `current` yet. -/
  | elected (s : Stamp) : Views { SharedIdentity.new with birth := s.get } (some (.new s))
  | assigned {sid : SharedIdentity} {id : Identity} {h : Epochs} (hid : sid.Mirrors id)
      (hm : id.Models h) : Views sid (some h)

namespace SharedIdentity.Views

variable {sid : SharedIdentity} {eo : Option Epochs}

theorem of_current (h : sid.Views eo) (hc : sid.current ≠ 0) :
    ∃ id e, sid.Mirrors id ∧ id.Models e ∧ eo = some e := by
  cases h with
  | unborn => exact absurd rfl hc
  | elected s => exact absurd rfl hc
  | assigned hid hm => exact ⟨_, _, hid, hm, rfl⟩

theorem of_birth (h : sid.Views eo) (hb : sid.birth ≠ 0) :
    ∃ e, eo = some e ∧ sid.birth = e.birth.get := by
  cases h with
  | unborn => exact absurd rfl hb
  | elected s => exact ⟨_, rfl, rfl⟩
  | assigned hid hm => exact ⟨_, rfl, hid.birth.trans (congrArg Stamp.get hm.birth)⟩

theorem of_birth_zero (h : sid.Views eo) (hb : sid.birth = 0) : sid = .new ∧ eo = none := by
  cases h with
  | unborn => exact ⟨rfl, rfl⟩
  | elected s => exact absurd hb s.ne_zero
  | assigned hid hm => exact absurd hb hid.birth_ne_zero

theorem of_elected (h : sid.Views eo) (hc : sid.current = 0) {s : Stamp} (hb : sid.birth = s.get) :
    sid = { SharedIdentity.new with birth := s.get } ∧ eo = some (.new s) := by
  cases h with
  | unborn => exact absurd hb.symm s.ne_zero
  | elected s' =>
      have hs : s' = s := Stamp.get_inj.mp hb
      exact hs ▸ ⟨rfl, rfl⟩
  | assigned hid hm => exact absurd hc hid.current_ne_zero

/-- Without a current stamp no boundary was committed. -/
theorem of_current_zero (h : sid.Views eo) (hc : sid.current = 0) {e : Epochs} (he : eo = some e) :
    e.commits = [] := by
  cases h with
  | unborn => cases he
  | elected s =>
      cases he
      rfl
  | assigned hid hm => exact absurd hc hid.current_ne_zero

theorem distinct (h : sid.Views eo) {e : Epochs} (he : eo = some e) : e.Distinct := by
  cases h with
  | unborn => cases he
  | elected s =>
      cases he
      exact .new s
  | assigned hid hm =>
      cases he
      exact hm.distinct

end SharedIdentity.Views

/-! ## Checkpoints under way -/

/-- The prefix of length `len` is there, and `last` is the mark of its last slot. -/
def Store.Tail (st : Store T) (len : Nat) (last : Option Stamp) : Prop :=
  len ≤ st.values.length ∧ (len = 0 → last = none) ∧
    ∀ e, st.epochs = some e → Store.tailOf e len = last

/-- The mark a use wants. -/
def Use.mark (e : Epochs) : Use → Stamp
  | .range | .tail _ => e.current
  | .birthTail _ | .owner _ _ => e.birth

/-- What a call knows of the prefix it wants a stamp for. -/
def Use.Fits (st : Store T) (use : Use) : Prop :=
  match use with
  | .range => True
  | .tail len | .birthTail len => 0 < len ∧ len ≤ st.values.length ∧
      ∀ e, st.epochs = some e → Store.tailOf e len = some (use.mark e)
  | .owner len last => st.Tail len last

/-- What a call has found is true, and what it returns is good. -/
def Pc.Delivers (tgt : Target) (st : Store T) : Pc T → Prop
  | .load use => use.Fits st
  | .draw use | .exchangeBirth use _ | .storeCurrent use _ | .reread use =>
      use.Fits st ∧ ∀ e, st.epochs = some e → e.commits = []
  | .returned reply =>
      (∀ idx ∈ reply.issued tgt, st.isValid idx = true) ∧
        ∀ cp, reply = .checkpoint cp → st.validateCheckpoint cp = .ok ()
  | _ => True

section Grown

variable {st st' : Store T}

theorem Use.Fits.grown {use : Use} (h : use.Fits st) (hg : st.Grown st') : use.Fits st' := by
  have hlen := hg.values.length_le
  -- a store that is just begun holds nothing
  have hnew : ∀ {len : Nat}, len ≤ st.values.length → st.epochs = none → len = 0 := by
    intro len hle hnone
    rw [Store.values_of_epochs hnone] at hle
    exact Nat.le_zero.mp hle
  have hprefix : ∀ (mark : Epochs → Stamp) {len : Nat}, (0 < len ∧ len ≤ st.values.length ∧
      ∀ e, st.epochs = some e → Store.tailOf e len = some (mark e)) →
      0 < len ∧ len ≤ st'.values.length ∧
        ∀ e, st'.epochs = some e → Store.tailOf e len = some (mark e) := by
    rintro mark len ⟨hpos, hle, htail⟩
    refine ⟨hpos, Nat.le_trans hle hlen, fun e he => ?_⟩
    rcases hg.epochs with hsame | ⟨hnone, -⟩
    · exact htail e (hsame.symm.trans he)
    · exact absurd (hnew hle hnone) (Nat.ne_of_gt hpos)
  cases use with
  | range => trivial
  | tail len => exact hprefix History.current h
  | birthTail len => exact hprefix History.birth h
  | owner len last =>
      obtain ⟨hle, hzero, htail⟩ := h
      refine ⟨Nat.le_trans hle hlen, hzero, fun e he => ?_⟩
      rcases hg.epochs with hsame | ⟨hnone, -⟩
      · exact htail e (hsame.symm.trans he)
      · have h0 := hnew hle hnone
        rw [hzero h0, h0]
        rfl

theorem Pc.Delivers.grown {pc : Pc T} (h : pc.Delivers tgt st) (hg : st.Grown st') (hok : st'.Ok) :
    pc.Delivers tgt st' := by
  have hcommits : (∀ e, st.epochs = some e → e.commits = []) →
      ∀ e, st'.epochs = some e → e.commits = [] := by
    intro hnone e he
    rcases hg.epochs with hsame | ⟨-, s, hnew⟩
    · exact hnone e (hsame.symm.trans he)
    · cases hnew.symm.trans he
      rfl
  cases pc with
  | load use => exact Use.Fits.grown h hg
  | draw use => exact ⟨h.1.grown hg, hcommits h.2⟩
  | exchangeBirth use fresh => exact ⟨h.1.grown hg, hcommits h.2⟩
  | storeCurrent use fresh => exact ⟨h.1.grown hg, hcommits h.2⟩
  | reread use => exact ⟨h.1.grown hg, hcommits h.2⟩
  | returned reply =>
      refine ⟨fun idx hi => ?_, fun cp hcp => ?_⟩
      · exact (hg.extends.isValid_iff hok (h.1 idx hi)).mpr (by intros; contradiction)
      · exact (hg.extends.validateCheckpoint_iff hok (h.2 cp hcp)).mpr (by intros; contradiction)
  | loadLen => trivial
  | reserve stamp => trivial
  | set stamp start offset => trivial
  | loadPublished stamp start last => trivial
  | isSet stamp start last published => trivial
  | advance stamp start last published => trivial
  | unwound p => trivial

end Grown

/-! ## The moves of a call -/

section Move

variable {a : SharedArena tgt T} {st : Store T}

/-- Going on with the stamp a use wanted. -/
theorem Use.resume_delivers {use : Use} (h : use.Fits st) {e : Epochs} (he : st.epochs = some e) :
    (use.resume (use.mark e) : Pc T).Delivers tgt st := by
  have htail : ∀ {len : Nat} {stamp : Stamp}, 0 < len → len ≤ st.values.length →
      (∀ e, st.epochs = some e → Store.tailOf e len = some stamp) →
      (Pc.load (.owner len (some stamp)) : Pc T).Delivers tgt st :=
    fun hpos hle htail => ⟨hle, fun h0 => absurd h0 (Nat.ne_of_gt hpos), htail⟩
  cases use with
  | range => trivial
  | tail len =>
      refine htail h.1 h.2.1 fun e' he' => ?_
      cases he.symm.trans he'
      exact h.2.2 e he
  | birthTail len =>
      refine htail h.1 h.2.1 fun e' he' => ?_
      cases he.symm.trans he'
      exact h.2.2 e he
  | owner len last =>
      refine ⟨by intros; contradiction, fun cp hcp => ?_⟩
      cases hcp
      cases st with
      | unused => cases he
      | live vs e' =>
          cases he
          exact Store.validateCheckpoint_live.mpr ⟨rfl, h.1, h.2.2 _ rfl⟩

/-- Where no boundary was committed every use wants the same mark. -/
theorem Use.mark_of_newborn (use : Use) {e : Epochs} (h : e.commits = []) :
    use.mark e = e.current := by
  obtain ⟨b, cs⟩ := e
  subst h
  cases use <;> rfl

/-- The length `checkpoint` read, and the way it finds the tail. -/
theorem SharedIdentity.tailPc_delivers {sid : SharedIdentity} (hview : sid.Views st.epochs)
    {len : Nat} (hlen : len ≤ st.values.length) (hissued : len ≠ 0 → sid.current ≠ 0) :
    (sid.tailPc len : Pc T).Delivers tgt st := by
  cases len with
  | zero => exact ⟨hlen, fun _ => rfl, fun _ _ => rfl⟩
  | succ slot =>
      obtain ⟨id, e, hid, hm, he⟩ := hview.of_current (hissued (Nat.succ_ne_zero slot))
      have hone : ∀ e', st.epochs = some e' → e' = e := fun e' he' =>
        Option.some.inj (he'.symm.trans he)
      have htail : ∀ stamp, e.markAt slot = stamp →
          (Pc.load (.owner (slot + 1) (some stamp)) : Pc T).Delivers tgt st := by
        refine fun stamp hs => ⟨hlen, fun h0 => absurd h0 (Nat.succ_ne_zero slot), fun e' he' => ?_⟩
        rw [hone e' he', ← hs]
        rfl
      have hcold : ¬ sid.currentStart ≤ slot → id.stampOfCold slot = e.markAt slot := fun hlt =>
        hm.stampOfCold_eq (hid.start ▸ Nat.lt_of_not_le hlt)
      rw [tailPc]
      split
      · rename_i hcur
        refine ⟨Nat.succ_pos slot, hlen, fun e' he' => ?_⟩
        have hstart : e.start ≤ slot := by rwa [← hm.start, ← hid.start]
        rw [hone e' he']
        exact congrArg some (History.markAt_of_start_le hstart)
      · rename_i hlt
        split
        · rename_i heq
          refine htail _ ?_
          have hpos : 0 < id.currentStart := by
            rw [← hid.start, ← heq]
            exact Nat.succ_pos slot
          rw [hid.tail hpos, hm.tail (hm.start ▸ hpos), ← hm.start, ← hid.start, ← heq]
          rfl
        · have hbirth : id.stampOfCold slot = id.birth →
              (Pc.load (.birthTail (slot + 1)) : Pc T).Delivers tgt st := by
            refine fun hb => ⟨Nat.succ_pos slot, hlen, fun e' he' => ?_⟩
            rw [hone e' he']
            exact congrArg some (((hcold hlt).symm.trans hb).trans hm.birth)
          have htable := hid.table
          split
          · rename_i hnone
            rw [hnone] at htable
            refine hbirth ?_
            rw [Identity.stampOfCold, ← htable]
            rfl
          · rename_i table hsome
            rw [hsome] at htable
            have htable : table = id.table := htable
            subst htable
            split
            · rename_i hc
              exact hbirth (by rw [Identity.stampOfCold, hc]; rfl)
            · rename_i stamp hc
              exact htail stamp ((hcold hlt).symm.trans (by rw [Identity.stampOfCold, hc]; rfl))

/-- A published slot of the current epoch is good under the current stamp. -/
theorem Store.isValid_of_current (hview : a.identity.Views st.epochs) {stamp : Stamp} {slot : Nat}
    (hs : stamp.get = a.identity.current) (hstart : ∀ e, st.epochs = some e → e.start ≤ slot)
    (hslot : slot < st.values.length) : st.isValid ⟨stamp, slot⟩ = true := by
  obtain ⟨id, e, hid, hm, he⟩ := hview.of_current (hs ▸ stamp.ne_zero)
  have hcur : e.current = stamp := by
    rw [← hm.current, ← Stamp.get_inj, ← hid.current, hs]
  cases st with
  | unused => cases he
  | live vs e' =>
      cases he
      simp only [isValid, Bool.and_eq_true, decide_eq_true_iff]
      exact ⟨hslot, (History.markAt_of_start_le (hstart _ rfl)).trans hcur⟩

/-- What an allocation returns names its own slots. -/
theorem Ask.finish_delivers (hview : a.identity.Views st.epochs) (ask : Ask T) {stamp : Stamp}
    {start : Nat} (hs : stamp.get = a.identity.current)
    (hstart : ∀ e, st.epochs = some e → e.start ≤ start) (hpos : 0 < ask.values.length)
    (hslots : start + ask.values.length ≤ st.values.length) :
    (ask.finish tgt stamp start).Delivers tgt st := by
  have hvalid : ∀ offset < ask.values.length, st.isValid ⟨stamp, start + offset⟩ = true :=
    fun offset hlt => Store.isValid_of_current hview hs
      (fun e he => Nat.le_add_right_of_le (hstart e he)) (by omega)
  have hidx : (Pc.returned (.idx ⟨stamp, start⟩) : Pc T).Delivers tgt st := by
    refine ⟨fun idx hi => ?_, by intros; contradiction⟩
    rw [List.mem_singleton.mp hi]
    exact hvalid 0 hpos
  cases ask with
  | alloc value => exact hidx
  | checkpoint => exact hidx
  | allocBlock values =>
      rw [Ask.finish]
      split
      · rename_i hb
        cases Block.of_new hb
        refine ⟨fun idx hi => ?_, by intros; contradiction⟩
        obtain ⟨offset, hlt, -, rfl⟩ := Block.mem_idxs.mp hi
        exact hvalid offset hlt
      · trivial

theorem fillPc_delivers (values : List T) (stamp : Stamp) (start offset : Nat) :
    (fillPc tgt values stamp start offset).Delivers tgt st := by
  rw [fillPc]
  split
  · trivial
  · split <;> trivial

/-- A call goes on with what is true, and returns what is good.  The case split
is on the access it makes. -/
theorem Ask.move_delivers (hview : a.identity.Views st.epochs)
    (hlen : st.values.length = a.published)
    (hissued : a.published ≠ 0 → a.identity.current ≠ 0) {ask : Ask T} (answer : Except Panic Stamp)
    (mishap : Bool) {pc : Pc T} (hag : pc.Agrees a.identity) (hsound : pc.Sound ask.values.length a)
    (hrange : ∀ r ∈ pc.range ask.values.length, ∀ e, st.epochs = some e → e.start ≤ r.1)
    (h : pc.Delivers tgt st) : (ask.move answer mishap a pc).2.Delivers tgt st := by
  -- the word a use reads is the mark it wants
  have hword : ∀ (use : Use) (hw : use.word a.identity ≠ 0), ∃ e, st.epochs = some e ∧
      (⟨use.word a.identity, hw⟩ : Stamp) = use.mark e := by
    intro use hw
    have hcur : a.identity.current ≠ 0 → ∃ e, st.epochs = some e ∧
        a.identity.current = e.current.get := by
      intro hc
      obtain ⟨id, e, hid, hm, he⟩ := hview.of_current hc
      exact ⟨e, he, hid.current.trans (congrArg Stamp.get hm.current)⟩
    have hmark : ∃ e, st.epochs = some e ∧ use.word a.identity = (use.mark e).get := by
      cases use with
      | range => exact hcur hw
      | tail len => exact hcur hw
      | birthTail len => exact hview.of_birth hw
      | owner len last => exact hview.of_birth hw
    obtain ⟨e, he, heq⟩ := hmark
    exact ⟨e, he, Stamp.get_inj.mp heq⟩
  cases pc with
  | loadLen => exact SharedIdentity.tailPc_delivers hview (Nat.le_of_eq hlen.symm) hissued
  | load use =>
      rw [Ask.move]
      split
      · rename_i hz
        refine ⟨h, fun e he => ?_⟩
        cases use with
        | range => exact hview.of_current_zero hz he
        | tail len => exact hview.of_current_zero hz he
        | birthTail len => cases (hview.of_birth_zero hz).2.symm.trans he
        | owner len last => cases (hview.of_birth_zero hz).2.symm.trans he
      · rename_i hw
        obtain ⟨e, he, hmark⟩ := hword use hw
        rw [hmark]
        exact Use.resume_delivers h he
  | draw use =>
      cases answer with
      | error p => trivial
      | ok fresh => exact h
  | exchangeBirth use fresh =>
      rw [Ask.move]
      split <;> exact h
  | storeCurrent use fresh => exact h
  | reread use =>
      rw [Ask.move]
      split
      · exact h
      · rename_i hw
        obtain ⟨e, he, hmark⟩ := hword .range hw
        have hmark : (⟨a.identity.current, hw⟩ : Stamp) = use.mark e :=
          hmark.trans (use.mark_of_newborn (h.2 e he)).symm
        rw [hmark]
        exact Use.resume_delivers h.1 he
  | reserve stamp =>
      rw [Ask.move]
      split
      · trivial
      · exact fillPc_delivers _ _ _ _
  | set stamp start offset =>
      rw [Ask.move]
      split
      · exact fillPc_delivers _ _ _ _
      · split
        · trivial
        · split
          · trivial
          · trivial
          · exact fillPc_delivers _ _ _ _
  | loadPublished stamp start last =>
      obtain ⟨hlast, hpos⟩ : last + 1 = start + ask.values.length ∧ 0 < ask.values.length := hsound
      rw [Ask.move]
      split
      · have hpub : last < a.published := ‹_›
        refine Ask.finish_delivers hview ask hag (hrange _ rfl) hpos ?_
        rw [hlen, ← hlast]
        exact hpub
      · trivial
  | isSet stamp start last published => rw [Ask.move]; split <;> trivial
  | advance stamp start last published => rw [Ask.move]; split <;> trivial
  | returned reply => exact h
  | unwound p => trivial

end Move

end SafeBump
