import SafeBump.Assignment

/-!
# The publication protocol

Any number of calls reserve ranges, fill them slot by slot and move the
published prefix over slots that are filled, whoever filled them.
`Shared.Layout items s` describes a moment of this: below the prefix `items`
nothing changed, every slot reserved since then lies in the range of exactly one
call, a range is filled from its start as far as its call has come, and
everything published is filled.

A move of a call does one of four things to the slots (`Effect`), and each keeps
the layout (`Layout.step`).  The claims about whole runs follow by induction.
-/

namespace SafeBump

variable {tgt : Target} {T : Type}

/-- The range a call of `len` values has reserved: its start, and how many of
its slots are filled. -/
def Pc.range (len : Nat) : Pc T → Option (Nat × Nat)
  | .set _ start offset => some (start, offset)
  | .loadPublished _ start _ => some (start, len)
  | .isSet _ start _ _ => some (start, len)
  | .advance _ start _ _ => some (start, len)
  | .returned (.idx i) => some (i.slot, len)
  | .returned (.block b) => b.stamp.map fun _ => (b.start, len)
  | _ => none

/-- The slots a call fills with its next access. -/
def Pc.filling : Pc T → List Nat
  | .set _ start offset => [start + offset]
  | _ => []

/-- The use a call is getting a stamp for. -/
def Pc.use : Pc T → Option Use
  | .load use => some use
  | .draw use => some use
  | .exchangeBirth use _ => some use
  | .storeCurrent use _ => some use
  | .reread use => some use
  | _ => none

/-- What a call of `len` values knows of the slots. -/
def Pc.Sound (len : Nat) (a : SharedArena tgt T) : Pc T → Prop
  | .reserve _ => 0 < len
  | .set _ _ offset => offset < len
  | .loadPublished _ start last => last + 1 = start + len ∧ 0 < len
  | .isSet _ start last published => last + 1 = start + len ∧ 0 < len ∧ published ≤ last
  | .advance _ start last published =>
      last + 1 = start + len ∧ 0 < len ∧ published ≤ last ∧ a.storage.slots published ≠ none
  | .returned reply =>
      ∀ r ∈ Pc.range len (.returned reply : Pc T), 0 < len ∧ r.1 + len ≤ a.published
  | .unwound p => p = .slotSpaceExhausted ∨ p = .stampSpaceExhausted
  | pc => pc.use = some .range → 0 < len

/-- What a move can do to the slots, and to the range of the call that moves. -/
inductive Effect (a : SharedArena tgt T) (values : List T) :
    Option (Nat × Nat) → SharedArena tgt T → Option (Nat × Nat) → Prop where
  /-- It leaves them alone. -/
  | quiet {a' : SharedArena tgt T} (hst : a'.storage = a.storage)
      (hres : a'.reserved = a.reserved) (hpub : a'.published = a.published)
      (r : Option (Nat × Nat)) : Effect a values r a' r
  /-- It reserves a range. -/
  | reserves {a' : SharedArena tgt T} (hst : a'.storage = a.storage)
      (hres : a'.reserved = a.reserved + values.length) (hpub : a'.published = a.published)
      (hfit : a.reserved + values.length ≤ tgt.usizeMax) :
      Effect a values none a' (some (a.reserved, 0))
  /-- It fills the next slot of its range. -/
  | fills {a' : SharedArena tgt T} {start offset : Nat} (hlt : offset < values.length)
      (hslots : ∀ i, a'.storage.slots i =
        if i = start + offset then values[offset]? else a.storage.slots i)
      (hres : a'.reserved = a.reserved) (hpub : a'.published = a.published) :
      Effect a values (some (start, offset)) a' (some (start, offset + 1))
  /-- It publishes a filled slot. -/
  | publishes {a' : SharedArena tgt T} (hset : a.storage.slots a.published ≠ none)
      (hlt : a.published < a.reserved) (hst : a'.storage = a.storage)
      (hres : a'.reserved = a.reserved) (hpub : a'.published = a.published + 1)
      (r : Option (Nat × Nat)) : Effect a values r a' r

/-- The identity is no slot. -/
theorem Effect.identity (a : SharedArena tgt T) (values : List T) (r : Option (Nat × Nat))
    (id : SharedIdentity) : Effect a values r { a with identity := id } r := by
  apply Effect.quiet <;> rfl

section Move

variable {a : SharedArena tgt T}

theorem Use.resume_range (use : Use) (stamp : Stamp) (len : Nat) :
    (use.resume stamp : Pc T).range len = none := by
  cases use <;> rfl

theorem Use.resume_sound (use : Use) (stamp : Stamp) {len : Nat} (h : use = .range → 0 < len) :
    (use.resume stamp : Pc T).Sound len a := by
  cases use with
  | range => exact h rfl
  | tail n => exact fun hu => by cases hu
  | birthTail n => exact fun hu => by cases hu
  | owner n last => exact fun _ hr => by cases hr

theorem SharedIdentity.tailPc_sound (id : SharedIdentity) (n len : Nat) :
    (id.tailPc n : Pc T).range len = none ∧ (id.tailPc n : Pc T).Sound len a := by
  cases n with
  | zero => exact ⟨rfl, fun hu => by cases hu⟩
  | succ slot =>
      rw [tailPc]
      split
      · exact ⟨rfl, fun hu => by cases hu⟩
      · split
        · exact ⟨rfl, fun hu => by cases hu⟩
        · split
          · exact ⟨rfl, fun hu => by cases hu⟩
          · split <;> exact ⟨rfl, fun hu => by cases hu⟩

/-- The loop over the values goes on while there are any and then waits. -/
theorem fillPc_sound (a : SharedArena tgt T) {values : List T} (stamp : Stamp)
    {start offset : Nat} (hpos : 0 < values.length) (hle : offset ≤ values.length)
    (hfit : start + values.length ≤ tgt.usizeMax) :
    (fillPc tgt values stamp start offset).range values.length = some (start, offset) ∧
      (fillPc tgt values stamp start offset).Sound values.length a := by
  rw [fillPc]
  split
  · exact ⟨rfl, ‹_›⟩
  · have hlen : offset = values.length := Nat.le_antisymm hle (Nat.le_of_not_lt ‹_›)
    have hadd : tgt.checkedAdd start (values.length - 1) = some (start + (values.length - 1)) :=
      Target.checkedAdd_eq_some.mpr ⟨by omega, rfl⟩
    rw [hadd, hlen]
    exact ⟨rfl, by omega, hpos⟩

theorem Ask.finish_sound {ask : Ask T} (stamp : Stamp) {start : Nat}
    (hpos : 0 < ask.values.length) (hfit : start + ask.values.length ≤ tgt.usizeMax)
    (hpub : start + ask.values.length ≤ a.published) :
    (ask.finish tgt stamp start).range ask.values.length = some (start, ask.values.length) ∧
      (ask.finish tgt stamp start).Sound ask.values.length a := by
  have hin : ∀ r ∈ some (start, ask.values.length), 0 < ask.values.length ∧
      r.1 + ask.values.length ≤ a.published := by
    intro r hr
    cases hr
    exact ⟨hpos, hpub⟩
  cases ask with
  | alloc value => exact ⟨rfl, hin⟩
  | checkpoint => exact ⟨rfl, hin⟩
  | allocBlock values =>
      have hnew : Block.new tgt stamp start values.length
        = .ok ⟨some stamp, start, values.length⟩ :=
        Block.new_eq_ok hpos (Nat.le_succ_of_le hfit)
      rw [Ask.finish]
      simp only [hnew]
      exact ⟨rfl, hin⟩

/-- A range reserved lies below `reserved`, and is filled from its start. -/
def Placed (a : SharedArena tgt T) (values : List T) (r : Nat × Nat) : Prop :=
  r.1 + values.length ≤ a.reserved ∧
    ∀ o < values.length, a.storage.slots (r.1 + o) = if o < r.2 then values[o]? else none

/-- A move that fills no slot has one of the effects, whatever the slots hold, and
its call goes on knowing what it has to.  The case split is on the access the call
makes. -/
theorem Ask.move_elsewhere {ask : Ask T} (answer : Except Panic Stamp)
    (hans : ∀ p, answer = .error p → p = .stampSpaceExhausted) (mishap : Bool) {pc : Pc T}
    (hpc : pc.filling = []) (h : pc.Sound ask.values.length a)
    (hin : ∀ r ∈ pc.range ask.values.length, r.1 + ask.values.length ≤ a.reserved)
    (hfits : a.reserved ≤ tgt.usizeMax) :
    Effect a ask.values (pc.range ask.values.length) (ask.move answer mishap a pc).1
        ((ask.move answer mishap a pc).2.range ask.values.length) ∧
      (ask.move answer mishap a pc).2.Sound ask.values.length
        (ask.move answer mishap a pc).1 := by
  cases pc with
  | loadLen =>
      obtain ⟨hr, hs⟩ := a.identity.tailPc_sound (T := T) (a := a) a.published ask.values.length
      rw [Ask.move, hr]
      exact ⟨.quiet rfl rfl rfl none, hs⟩
  | load use =>
      rw [Ask.move]
      split
      · exact ⟨.quiet rfl rfl rfl none, h⟩
      · rw [use.resume_range]
        exact ⟨.quiet rfl rfl rfl none, use.resume_sound _ fun hu => h (hu ▸ rfl)⟩
  | draw use =>
      cases answer with
      | error p => exact ⟨.quiet rfl rfl rfl none, .inr (hans p rfl)⟩
      | ok fresh => exact ⟨.quiet rfl rfl rfl none, h⟩
  | exchangeBirth use fresh =>
      rw [Ask.move]
      split
      · exact ⟨.identity a _ none _, h⟩
      · exact ⟨.quiet rfl rfl rfl none, h⟩
  | storeCurrent use fresh => exact ⟨.identity a _ none _, h⟩
  | reread use =>
      rw [Ask.move]
      split
      · exact ⟨.quiet rfl rfl rfl none, h⟩
      · rw [use.resume_range]
        exact ⟨.quiet rfl rfl rfl none, use.resume_sound _ fun hu => h (hu ▸ rfl)⟩
  | reserve stamp =>
      rw [Ask.move]
      split
      · exact ⟨.quiet rfl rfl rfl none, .inl rfl⟩
      · obtain ⟨hfit, rfl⟩ := Target.checkedAdd_eq_some.mp ‹_›
        have hnext := fillPc_sound { a with reserved := a.reserved + ask.values.length } stamp h
          (Nat.zero_le _) hfit
        rw [hnext.1]
        exact ⟨.reserves rfl rfl rfl hfit, hnext.2⟩
  | set stamp start offset => cases hpc
  | loadPublished stamp start last =>
      have hbelow : start + ask.values.length ≤ a.reserved := hin _ rfl
      obtain ⟨hlast, hpos⟩ : last + 1 = start + ask.values.length ∧ 0 < ask.values.length := h
      rw [Ask.move]
      split
      · have hpub : last + 1 ≤ a.published := ‹_›
        have hdone := ask.finish_sound (a := a) stamp hpos (Nat.le_trans hbelow hfits)
          (hlast ▸ hpub)
        rw [hdone.1]
        exact ⟨.quiet rfl rfl rfl _, hdone.2⟩
      · exact ⟨.quiet rfl rfl rfl _, hlast, hpos, Nat.le_of_not_lt ‹_›⟩
  | isSet stamp start last published =>
      have hbelow : start + ask.values.length ≤ a.reserved := hin _ rfl
      obtain ⟨hlast, hpos, hle⟩ : last + 1 = start + ask.values.length ∧ 0 < ask.values.length ∧
        published ≤ last := h
      have hlt : published < tgt.usizeMax := by omega
      simp only [Ask.move, ChunkedStorage.isSet_eq hlt]
      cases hs : a.storage.slots published with
      | none => exact ⟨.quiet rfl rfl rfl _, hlast, hpos⟩
      | some v =>
          have hne : a.storage.slots published ≠ none := by
            rw [hs]
            exact Option.some_ne_none v
          exact ⟨.quiet rfl rfl rfl _, hlast, hpos, hle, hne⟩
  | advance stamp start last published =>
      have hbelow : start + ask.values.length ≤ a.reserved := hin _ rfl
      obtain ⟨hlast, hpos, hle, hset⟩ : last + 1 = start + ask.values.length ∧
        0 < ask.values.length ∧ published ≤ last ∧ a.storage.slots published ≠ none := h
      rw [Ask.move]
      split
      · obtain ⟨rfl, -⟩ := (‹_› : a.published = published ∧ _)
        have hlt : a.published < a.reserved := by omega
        exact ⟨by apply Effect.publishes hset hlt <;> rfl, hlast, hpos⟩
      · exact ⟨.quiet rfl rfl rfl _, hlast, hpos⟩
  | returned reply => exact ⟨.quiet rfl rfl rfl _, h⟩
  | unwound p => exact ⟨.quiet rfl rfl rfl _, h⟩

/-- Every move has one of the effects, and its call goes on knowing what it has to, as
long as there is memory for the slot it fills. -/
theorem Ask.move_effect {ask : Ask T} (answer : Except Panic Stamp)
    (hans : ∀ p, answer = .error p → p = .stampSpaceExhausted) (mishap : Bool) {pc : Pc T}
    (ha : tgt.Affords pc.filling) (h : pc.Sound ask.values.length a)
    (hin : ∀ r ∈ pc.range ask.values.length, Placed a ask.values r)
    (hfits : a.reserved ≤ tgt.usizeMax) :
    Effect a ask.values (pc.range ask.values.length) (ask.move answer mishap a pc).1
        ((ask.move answer mishap a pc).2.range ask.values.length) ∧
      (ask.move answer mishap a pc).2.Sound ask.values.length
        (ask.move answer mishap a pc).1 := by
  cases hpc : pc.filling with
  | nil => exact ask.move_elsewhere answer hans mishap hpc h (fun r hr => (hin r hr).1) hfits
  | cons slot slots =>
      cases pc with
      | set stamp start offset =>
          have hlt : offset < ask.values.length := h
          obtain ⟨hbelow, hslots⟩ := hin _ rfl
          have hadd : tgt.checkedAdd start offset = some (start + offset) :=
            Target.checkedAdd_eq_some.mpr ⟨by omega, rfl⟩
          have hempty : a.storage.slots (start + offset) = none := by
            rw [hslots offset hlt, if_neg (Nat.lt_irrefl _)]
          obtain ⟨st, hset, hst⟩ := ChunkedStorage.set_empty (ha _ List.mem_cons_self)
            (by omega : start + offset < tgt.usizeMax) hempty ask.values[offset]
          have hget : ask.values[offset]? = some ask.values[offset] :=
            List.getElem?_eq_getElem hlt
          have hnext := fillPc_sound { a with storage := st } stamp (Nat.zero_lt_of_lt hlt) hlt
            (Nat.le_trans hbelow hfits)
          rw [Ask.move, hget]
          simp only [hadd, hset]
          rw [hnext.1]
          exact ⟨.fills hlt (fun i => by rw [hst i, hget]) rfl rfl, hnext.2⟩
      | _ => cases hpc

end Move

/-- What a call knows survives while slots fill up and `published` moves on. -/
theorem Pc.Sound.mono {len : Nat} {a a' : SharedArena tgt T} {pc : Pc T} (h : pc.Sound len a)
    (hslots : ∀ i, a.storage.slots i ≠ none → a'.storage.slots i ≠ none)
    (hpub : a.published ≤ a'.published) : pc.Sound len a' := by
  cases pc with
  | advance stamp start last published => exact ⟨h.1, h.2.1, h.2.2.1, hslots _ h.2.2.2⟩
  | returned reply => exact fun r hr => ⟨(h r hr).1, Nat.le_trans (h r hr).2 hpub⟩
  | loadLen => exact h
  | load use => exact h
  | draw use => exact h
  | exchangeBirth use fresh => exact h
  | storeCurrent use fresh => exact h
  | reread use => exact h
  | reserve stamp => exact h
  | set stamp start offset => exact h
  | loadPublished stamp start last => exact h
  | isSet stamp start last published => exact h
  | unwound p => exact h

theorem Ask.start_sound (ask : Ask T) (a : SharedArena tgt T) :
    ask.start.range ask.values.length = none ∧ ask.start.Sound ask.values.length a := by
  cases ask with
  | alloc value => exact ⟨rfl, fun _ => Nat.one_pos⟩
  | checkpoint => exact ⟨rfl, fun hu => by cases hu⟩
  | allocBlock values =>
      cases values with
      | nil => exact ⟨rfl, fun _ hr => by cases hr⟩
      | cons v values => exact ⟨rfl, fun _ => Nat.succ_pos _⟩

/-! ## The layout -/

namespace Shared

/-- Call `k` has reserved the range `r` for its `values`. -/
def Reserved (s : Shared tgt T) (k : Nat) (values : List T) (r : Nat × Nat) : Prop :=
  ∃ c : Call T, s.calls[k]? = some c ∧ c.ask.values = values ∧
    c.pc.range values.length = some r

/-- The slots call `k` fills with its next access. -/
def filling (s : Shared tgt T) (k : Nat) : List Nat :=
  s.calls[k]?.elim [] fun c => c.pc.filling

theorem filling_of_call {s : Shared tgt T} {k : Nat} {c : Call T} (hc : s.calls[k]? = some c) :
    s.filling k = c.pc.filling := by
  rw [filling, hc]
  rfl

/-- The slots of an arena that held `items` when the first of the calls started. -/
structure Layout (items : List T) (s : Shared tgt T) : Prop where
  base : items.length ≤ s.arena.published
  ordered : s.arena.published ≤ s.arena.reserved
  fits : s.arena.reserved ≤ tgt.usizeMax
  old : ∀ i < items.length, s.arena.storage.slots i = items[i]?
  above : ∀ i, s.arena.reserved ≤ i → s.arena.storage.slots i = none
  set : ∀ i < s.arena.published, s.arena.storage.slots i ≠ none
  placed : ∀ k values r, s.Reserved k values r → items.length ≤ r.1 ∧ Placed s.arena values r
  apart : ∀ j k vs ws r t, s.Reserved j vs r → s.Reserved k ws t → j ≠ k →
    r.1 + vs.length ≤ t.1 ∨ t.1 + ws.length ≤ r.1
  cover : ∀ i, items.length ≤ i → i < s.arena.reserved →
    ∃ k vs r, s.Reserved k vs r ∧ r.1 ≤ i ∧ i < r.1 + vs.length
  sound : ∀ (k : Nat) (c : Call T), s.calls[k]? = some c →
    c.pc.Sound c.ask.values.length s.arena

section Effect

variable {items values : List T} {s s' : Shared tgt T} {i : Nat} {r r' : Option (Nat × Nat)}

/-- A filled slot keeps its value. -/
theorem Layout.slots_mono (h : s.Layout items)
    (hold : ∀ vs q, s.Reserved i vs q ↔ vs = values ∧ r = some q)
    (he : Effect s.arena values r s'.arena r') {slot : Nat}
    (hset : s.arena.storage.slots slot ≠ none) :
    s'.arena.storage.slots slot = s.arena.storage.slots slot := by
  cases he with
  | quiet hst => rw [hst]
  | reserves hst => rw [hst]
  | publishes _ _ hst => rw [hst]
  | @fills _ start offset hlt hslots =>
      have hempty := (h.placed i values _ ((hold _ _).mpr ⟨rfl, rfl⟩)).2.2 offset hlt
      rw [if_neg (Nat.lt_irrefl _)] at hempty
      have hne : slot ≠ start + offset := by
        rintro rfl
        exact hset hempty
      rw [hslots, if_neg hne]

theorem Layout.published_mono (he : Effect s.arena values r s'.arena r') :
    s.arena.published ≤ s'.arena.published := by
  cases he with
  | quiet _ _ hpub => exact Nat.le_of_eq hpub.symm
  | reserves _ _ hpub => exact Nat.le_of_eq hpub.symm
  | fills _ _ _ hpub => exact Nat.le_of_eq hpub.symm
  | publishes _ _ _ _ hpub => exact hpub ▸ Nat.le_succ _

/-- Nothing but `published` changed, and it moved over filled slots. -/
theorem Layout.of_published (h : s.Layout items)
    (hres' : ∀ k vs q, s'.Reserved k vs q ↔ s.Reserved k vs q)
    (hst : s'.arena.storage = s.arena.storage) (hres : s'.arena.reserved = s.arena.reserved)
    (hle : s.arena.published ≤ s'.arena.published)
    (hord : s'.arena.published ≤ s.arena.reserved)
    (hset : ∀ slot < s'.arena.published, s.arena.storage.slots slot ≠ none)
    (hsound : ∀ (k : Nat) (c : Call T), s'.calls[k]? = some c →
      c.pc.Sound c.ask.values.length s'.arena) : s'.Layout items where
  base := Nat.le_trans h.base hle
  ordered := hres ▸ hord
  fits := hres ▸ h.fits
  old := hst ▸ h.old
  above := hst ▸ hres ▸ h.above
  set := hst ▸ hset
  placed := by
    intro k vs q hq
    rw [Placed, hst, hres]
    exact h.placed k vs q ((hres' k vs q).mp hq)
  apart := fun j k vs ws q t hq ht =>
    h.apart j k vs ws q t ((hres' _ _ _).mp hq) ((hres' _ _ _).mp ht)
  cover := by
    intro slot hbase hlt
    obtain ⟨k, vs, q, hq, hin⟩ := h.cover slot hbase (hres ▸ hlt)
    exact ⟨k, vs, q, (hres' _ _ _).mpr hq, hin⟩
  sound := hsound

/-- A reservation puts a new, empty range at the end. -/
theorem Layout.of_reserve (h : s.Layout items)
    (hold : ∀ vs q, ¬ s.Reserved i vs q)
    (hnew : ∀ vs q, s'.Reserved i vs q ↔ vs = values ∧ q = (s.arena.reserved, 0))
    (hother : ∀ k vs q, k ≠ i → (s'.Reserved k vs q ↔ s.Reserved k vs q))
    (hst : s'.arena.storage = s.arena.storage)
    (hres : s'.arena.reserved = s.arena.reserved + values.length)
    (hpub : s'.arena.published = s.arena.published)
    (hfit : s.arena.reserved + values.length ≤ tgt.usizeMax)
    (hsound : ∀ (k : Nat) (c : Call T), s'.calls[k]? = some c →
      c.pc.Sound c.ask.values.length s'.arena) : s'.Layout items := by
  have hbase : items.length ≤ s.arena.reserved := Nat.le_trans h.base h.ordered
  have hcases : ∀ k vs q, s'.Reserved k vs q →
      k ≠ i ∧ s.Reserved k vs q ∨ k = i ∧ vs = values ∧ q = (s.arena.reserved, 0) := by
    intro k vs q hq
    by_cases hk : k = i
    · subst hk
      exact .inr ⟨rfl, (hnew vs q).mp hq⟩
    · exact .inl ⟨hk, (hother k vs q hk).mp hq⟩
  constructor
  case base => exact hpub ▸ h.base
  case ordered =>
    rw [hpub, hres]
    exact Nat.le_add_right_of_le h.ordered
  case fits => exact hres ▸ hfit
  case old => exact hst ▸ h.old
  case above =>
    intro slot hslot
    rw [hst]
    exact h.above slot (Nat.le_trans (Nat.le_add_right _ _) (hres ▸ hslot))
  case set => exact hst ▸ hpub ▸ h.set
  case placed =>
    intro k vs q hq
    rw [Placed, hst, hres]
    rcases hcases k vs q hq with ⟨-, hq⟩ | ⟨-, rfl, rfl⟩
    · obtain ⟨hq0, hle, hfill⟩ := h.placed k vs q hq
      exact ⟨hq0, Nat.le_add_right_of_le hle, hfill⟩
    · refine ⟨hbase, Nat.le_refl _, fun o _ => ?_⟩
      rw [if_neg (Nat.not_lt_zero o)]
      exact h.above _ (Nat.le_add_right _ _)
  case apart =>
    intro j k vs ws q t hq ht hne
    rcases hcases j vs q hq with ⟨-, hq⟩ | ⟨rfl, rfl, rfl⟩
    · rcases hcases k ws t ht with ⟨-, ht⟩ | ⟨-, -, rfl⟩
      · exact h.apart j k vs ws q t hq ht hne
      · exact .inl (h.placed j vs q hq).2.1
    · rcases hcases k ws t ht with ⟨-, ht⟩ | ⟨rfl, -, -⟩
      · exact .inr (h.placed k ws t ht).2.1
      · exact absurd rfl hne
  case cover =>
    intro slot hslot hlt
    rcases Nat.lt_or_ge slot s.arena.reserved with hbelow | hge
    · obtain ⟨k, vs, q, hq, hin⟩ := h.cover slot hslot hbelow
      have hne : k ≠ i := by
        rintro rfl
        exact hold vs q hq
      exact ⟨k, vs, q, (hother k vs q hne).mpr hq, hin⟩
    · exact ⟨i, values, _, (hnew _ _).mpr ⟨rfl, rfl⟩, hge, hres ▸ hlt⟩
  case sound => exact hsound

/-- Filling the next slot of a range. -/
theorem Layout.of_fill (h : s.Layout items) {start offset : Nat}
    (hold : ∀ vs q, s.Reserved i vs q ↔ vs = values ∧ q = (start, offset))
    (hnew : ∀ vs q, s'.Reserved i vs q ↔ vs = values ∧ q = (start, offset + 1))
    (hother : ∀ k vs q, k ≠ i → (s'.Reserved k vs q ↔ s.Reserved k vs q))
    (hlt : offset < values.length)
    (hslots : ∀ slot, s'.arena.storage.slots slot =
      if slot = start + offset then values[offset]? else s.arena.storage.slots slot)
    (hres : s'.arena.reserved = s.arena.reserved)
    (hpub : s'.arena.published = s.arena.published)
    (hsound : ∀ (k : Nat) (c : Call T), s'.calls[k]? = some c →
      c.pc.Sound c.ask.values.length s'.arena) : s'.Layout items := by
  have hi : s.Reserved i values (start, offset) := (hold _ _).mpr ⟨rfl, rfl⟩
  obtain ⟨hstart, hbelow, hfilled⟩ := h.placed i values _ hi
  have hkept : ∀ slot, slot ≠ start + offset →
      s'.arena.storage.slots slot = s.arena.storage.slots slot :=
    fun slot hne => by rw [hslots, if_neg hne]
  constructor
  case base => exact hpub ▸ h.base
  case ordered => exact hpub ▸ hres ▸ h.ordered
  case fits => exact hres ▸ h.fits
  case old =>
    intro slot hslot
    rw [hkept slot (by simp only at hstart; omega)]
    exact h.old slot hslot
  case above =>
    intro slot hslot
    rw [hkept slot (by simp only at hbelow; omega)]
    exact h.above slot (hres ▸ hslot)
  case set =>
    intro slot hslot
    rw [hslots]
    split
    · exact List.getElem?_eq_getElem hlt ▸ Option.some_ne_none _
    · exact h.set slot (hpub ▸ hslot)
  case placed =>
    intro k vs q hq
    by_cases hk : k = i
    · subst hk
      obtain ⟨rfl, rfl⟩ := (hnew vs q).mp hq
      refine ⟨hstart, hres ▸ hbelow, fun o ho => ?_⟩
      rw [hslots]
      rcases Nat.lt_trichotomy o offset with hlo | rfl | hhi
      · have hold' := hfilled o ho
        simp only at hold' ⊢
        rw [if_neg (by omega), hold', if_pos hlo, if_pos (Nat.lt_succ_of_lt hlo)]
      · simp
      · have hold' := hfilled o ho
        simp only at hold' ⊢
        rw [if_neg (by omega), hold', if_neg (by omega), if_neg (by omega)]
    · have hq := (hother k vs q hk).mp hq
      obtain ⟨hq0, hle, hfill⟩ := h.placed k vs q hq
      refine ⟨hq0, hres ▸ hle, fun o ho => ?_⟩
      have hne : q.1 + o ≠ start + offset := by
        have := h.apart k i vs values q _ hq hi hk
        simp only at this
        omega
      rw [hkept _ hne]
      exact hfill o ho
  case apart =>
    intro j k vs ws q t hq ht hne
    have hback : ∀ k vs q, s'.Reserved k vs q →
        ∃ n, s.Reserved k vs (q.1, n) := by
      intro k vs q hq
      by_cases hk : k = i
      · subst hk
        obtain ⟨rfl, rfl⟩ := (hnew vs q).mp hq
        exact ⟨offset, hi⟩
      · exact ⟨q.2, (hother k vs q hk).mp hq⟩
    obtain ⟨m, hq⟩ := hback j vs q hq
    obtain ⟨n, ht⟩ := hback k ws t ht
    exact h.apart j k vs ws (q.1, m) (t.1, n) hq ht hne
  case cover =>
    intro slot hslot hlt'
    obtain ⟨k, vs, q, hq, hin⟩ := h.cover slot hslot (hres ▸ hlt')
    by_cases hk : k = i
    · subst hk
      obtain ⟨rfl, rfl⟩ := (hold vs q).mp hq
      exact ⟨k, vs, _, (hnew _ _).mpr ⟨rfl, rfl⟩, hin⟩
    · exact ⟨k, vs, q, (hother k vs q hk).mpr hq, hin⟩
  case sound => exact hsound

/-- Each effect keeps the layout.  `i` is the call that moves. -/
theorem Layout.of_effect (h : s.Layout items)
    (hold : ∀ vs q, s.Reserved i vs q ↔ vs = values ∧ r = some q)
    (hnew : ∀ vs q, s'.Reserved i vs q ↔ vs = values ∧ r' = some q)
    (hother : ∀ k vs q, k ≠ i → (s'.Reserved k vs q ↔ s.Reserved k vs q))
    (he : Effect s.arena values r s'.arena r')
    (hsound : ∀ (k : Nat) (c : Call T), s'.calls[k]? = some c →
      c.pc.Sound c.ask.values.length s'.arena) : s'.Layout items := by
  have hsame : r' = r → ∀ k vs q, s'.Reserved k vs q ↔ s.Reserved k vs q := by
    intro hr k vs q
    by_cases hk : k = i
    · rw [hk, hold, hnew, hr]
    · exact hother k vs q hk
  cases he with
  | quiet hst hres hpub =>
      refine h.of_published (hsame rfl) hst hres (Nat.le_of_eq hpub.symm) ?_ ?_ hsound
      · exact hpub ▸ h.ordered
      · exact hpub ▸ h.set
  | publishes hset hlt hst hres hpub =>
      refine h.of_published (hsame rfl) hst hres ?_ ?_ ?_ hsound
      · exact hpub ▸ Nat.le_succ _
      · exact hpub ▸ hlt
      · intro slot hslot
        rw [hpub] at hslot
        rcases Nat.lt_succ_iff_lt_or_eq.mp hslot with hlt | rfl
        · exact h.set slot hlt
        · exact hset
  | reserves hst hres hpub hfit =>
      refine h.of_reserve (fun vs q hq => by cases ((hold vs q).mp hq).2)
        (fun vs q => ?_) hother hst
        hres hpub hfit hsound
      rw [hnew, Option.some.injEq, eq_comm (a := q)]
  | fills hlt hslots hres hpub =>
      refine h.of_fill (fun vs q => ?_) (fun vs q => ?_) hother hlt hslots hres hpub hsound
      · rw [hold, Option.some.injEq, eq_comm (a := q)]
      · rw [hnew, Option.some.injEq, eq_comm (a := q)]

end Effect

/-! ## Runs -/

/-- What `Stamp::fresh` answers: a stamp, or that there are none left. -/
def Label.Answered : Label T → Prop
  | .start _ _ => True
  | .step _ answer _ => ∀ p, answer = .error p → p = .stampSpaceExhausted

section Run

variable {items : List T} {s : Shared tgt T}

theorem reserved_of_call {i : Nat} {c : Call T} (hc : s.calls[i]? = some c) (vs : List T)
    (q : Nat × Nat) : s.Reserved i vs q ↔
      vs = c.ask.values ∧ c.pc.range c.ask.values.length = some q := by
  constructor
  · rintro ⟨d, hd, rfl, hr⟩
    cases hc.symm.trans hd
    exact ⟨rfl, hr⟩
  · rintro ⟨rfl, hr⟩
    exact ⟨c, hc, rfl, hr⟩

theorem reserved_of_getElem? {s' : Shared tgt T} {k : Nat} (h : s'.calls[k]? = s.calls[k]?)
    (vs : List T) (q : Nat × Nat) : s'.Reserved k vs q ↔ s.Reserved k vs q := by
  rw [Reserved, h]
  rfl

theorem Layout.idle {a : SharedArena tgt T} (h : a.Holds items) : (idle a).Layout items where
  base := Nat.le_of_eq h.published.symm
  ordered := Nat.le_of_eq (h.published.trans h.reserved.symm)
  fits := h.reserved ▸ h.fits
  old := fun i _ => h.filled i
  above := by
    intro i hi
    have hge : items.length ≤ i := h.reserved ▸ hi
    exact (h.filled i).trans (List.getElem?_eq_none hge)
  set := by
    intro i hi
    have hlt : i < items.length := h.published ▸ hi
    rw [show (Shared.idle a).arena.storage.slots i = items[i]? from h.filled i,
      List.getElem?_eq_getElem hlt]
    exact Option.some_ne_none _
  placed := by
    rintro k vs r ⟨c, hc, -⟩
    cases hc
  apart := by
    rintro j k vs ws r t ⟨c, hc, -⟩
    cases hc
  cover := by
    intro i hi hlt
    have hlt : i < items.length := h.reserved ▸ hlt
    exact absurd hlt (Nat.not_lt.mpr hi)
  sound := fun k c hc => by cases hc

theorem Layout.start (h : s.Layout items) (t : ThreadId) (ask : Ask T) :
    (s.start t ask).Layout items := by
  have hres : ∀ k vs q, (s.start t ask).Reserved k vs q ↔ s.Reserved k vs q := by
    intro k vs q
    by_cases hk : k = s.calls.length
    · have hnew : (s.start t ask).calls[k]? = some ⟨t, ask, ask.start⟩ := by
        rw [getElem?_start, if_pos hk]
      rw [reserved_of_call hnew, (ask.start_sound s.arena).1]
      constructor
      · exact fun hq => by cases hq.2
      · rintro ⟨c, hc, -⟩
        exact absurd (List.getElem?_eq_some_iff.mp hc).1 (hk ▸ Nat.lt_irrefl _)
    · exact reserved_of_getElem? (by rw [getElem?_start, if_neg hk]) vs q
  refine h.of_published hres rfl rfl (Nat.le_refl _) h.ordered h.set fun k c hk => ?_
  rw [getElem?_start] at hk
  split at hk
  · cases hk
    exact (ask.start_sound _).2
  · exact h.sound k c hk

/-- The effect of a step, on the arena and on what the calls know. -/
theorem Layout.step_effect (h : s.Layout items) {i : Nat} {answer : Except Panic Stamp}
    (hans : ∀ p, answer = .error p → p = .stampSpaceExhausted) (mishap : Bool) {c : Call T}
    (hc : s.calls[i]? = some c) (ha : tgt.Affords c.pc.filling) :
    Effect s.arena c.ask.values (c.pc.range c.ask.values.length)
        (s.step i answer mishap).arena
        ((c.ask.move answer mishap s.arena c.pc).2.range c.ask.values.length) ∧
      ((c.ask.move answer mishap s.arena c.pc).2).Sound c.ask.values.length
        (s.step i answer mishap).arena := by
  rw [arena_step hc]
  refine Ask.move_effect answer hans mishap ha (h.sound i c hc) (fun r hr => ?_) h.fits
  exact (h.placed i _ r ((reserved_of_call hc _ _).mpr ⟨rfl, hr⟩)).2

theorem Layout.step (h : s.Layout items) (i : Nat) {answer : Except Panic Stamp}
    (hans : ∀ p, answer = .error p → p = .stampSpaceExhausted) (mishap : Bool)
    (ha : tgt.Affords (s.filling i)) : (s.step i answer mishap).Layout items := by
  cases hc : s.calls[i]? with
  | none => rwa [step_of_none hc]
  | some c =>
      obtain ⟨he, hsound⟩ := h.step_effect hans mishap hc (filling_of_call hc ▸ ha)
      have hold := reserved_of_call hc
      have hself : (s.step i answer mishap).calls[i]? = some
          { c with pc := (c.ask.move answer mishap s.arena c.pc).2 } := by
        rw [getElem?_step hc, if_pos rfl]
      have hnew := reserved_of_call hself
      refine h.of_effect hold hnew (fun k vs q hk => ?_) he fun k d hd => ?_
      · exact reserved_of_getElem? (by rw [getElem?_step hc, if_neg hk]) vs q
      · rw [getElem?_step hc] at hd
        split at hd
        · cases hd
          exact hsound
        · refine (h.sound k d hd).mono (fun slot hset => ?_) (Layout.published_mono he)
          rwa [h.slots_mono hold he hset]

theorem Layout.next (hall : ∀ k, tgt.allocates k = true) (h : s.Layout items) {l : Label T}
    (hl : l.Answered) : (s.next l).Layout items := by
  cases l with
  | start t ask => exact h.start t ask
  | step i answer mishap => exact h.step i hl mishap (tgt.affords_all hall _)

/-- Every run keeps the layout. -/
theorem Layout.run (hall : ∀ k, tgt.allocates k = true) (h : s.Layout items) {ls : List (Label T)}
    (hls : ∀ l ∈ ls, l.Answered) : (s.run ls).Layout items := by
  induction ls generalizing s with
  | nil => exact h
  | cons l ls ih =>
      obtain ⟨hl, hls⟩ := List.forall_mem_cons.mp hls
      exact ih (h.next hall hl) hls

/-- A step keeps the values of filled slots and takes nothing back. -/
theorem Layout.step_mono (h : s.Layout items) (i : Nat) {answer : Except Panic Stamp}
    (hans : ∀ p, answer = .error p → p = .stampSpaceExhausted) (mishap : Bool)
    (ha : tgt.Affords (s.filling i)) :
    s.arena.published ≤ (s.step i answer mishap).arena.published ∧
      ∀ slot, s.arena.storage.slots slot ≠ none →
        (s.step i answer mishap).arena.storage.slots slot = s.arena.storage.slots slot := by
  cases hc : s.calls[i]? with
  | none =>
      rw [step_of_none hc]
      exact ⟨Nat.le_refl _, fun _ _ => rfl⟩
  | some c =>
      have he := (h.step_effect hans mishap hc (filling_of_call hc ▸ ha)).1
      exact ⟨Layout.published_mono he,
        fun slot hset => h.slots_mono (reserved_of_call hc) he hset⟩

theorem Layout.next_mono (hall : ∀ k, tgt.allocates k = true) (h : s.Layout items) {l : Label T}
    (hl : l.Answered) : s.arena.published ≤ (s.next l).arena.published ∧
      ∀ slot, s.arena.storage.slots slot ≠ none →
        (s.next l).arena.storage.slots slot = s.arena.storage.slots slot := by
  cases l with
  | start t ask => exact ⟨Nat.le_refl _, fun _ _ => rfl⟩
  | step i answer mishap => exact h.step_mono i hl mishap (tgt.affords_all hall _)

theorem Layout.run_mono (hall : ∀ k, tgt.allocates k = true) (h : s.Layout items)
    {ls : List (Label T)} (hls : ∀ l ∈ ls, l.Answered) :
    s.arena.published ≤ (s.run ls).arena.published ∧
      ∀ slot, s.arena.storage.slots slot ≠ none →
        (s.run ls).arena.storage.slots slot = s.arena.storage.slots slot := by
  induction ls generalizing s with
  | nil => exact ⟨Nat.le_refl _, fun _ _ => rfl⟩
  | cons l ls ih =>
      obtain ⟨hl, hls⟩ := List.forall_mem_cons.mp hls
      obtain ⟨hpub, hslots⟩ := h.next_mono hall hl
      obtain ⟨hpub', hslots'⟩ := ih (h.next hall hl) hls
      refine ⟨Nat.le_trans hpub hpub', fun slot hset => ?_⟩
      have hkept := hslots slot hset
      exact (hslots' slot (hkept ▸ hset)).trans hkept

end Run

/-! ## What the protocol guarantees -/

section Layout

variable {items : List T} {s : Shared tgt T}

/-- A published slot holds the value of the call that reserved it. -/
theorem Layout.owner (h : s.Layout items) {slot : Nat} (hbase : items.length ≤ slot)
    (hlt : slot < s.arena.published) :
    ∃ k vs q, s.Reserved k vs q ∧ q.1 ≤ slot ∧ slot < q.1 + vs.length ∧
      s.arena.storage.slots slot = vs[slot - q.1]? := by
  obtain ⟨k, vs, q, hq, hge, hin⟩ := h.cover slot hbase (Nat.lt_of_lt_of_le hlt h.ordered)
  refine ⟨k, vs, q, hq, hge, hin, ?_⟩
  have hslot := (h.placed k vs q hq).2.2 (slot - q.1) (by omega)
  rw [Nat.add_sub_cancel' hge] at hslot
  rw [hslot]
  split
  · rfl
  · rename_i hfill
    rw [if_neg hfill] at hslot
    exact absurd hslot (h.set slot hlt)

/-- Once no call is under way everything reserved is published. -/
theorem Layout.published_eq (h : s.Layout items) (hquiet : s.quiet = true) :
    s.arena.published = s.arena.reserved := by
  refine Nat.le_antisymm h.ordered (Nat.le_of_not_lt fun hlt => ?_)
  obtain ⟨k, vs, q, ⟨c, hc, rfl, hr⟩, hge, hin⟩ := h.cover s.arena.published h.base hlt
  have hdone := List.all_eq_true.mp hquiet c (List.mem_of_getElem? hc)
  have hsound := h.sound k c hc
  cases hpc : c.pc with
  | returned reply =>
      rw [hpc] at hsound hr
      have hin' := (hsound q hr).2
      omega
  | unwound p =>
      rw [hpc] at hr
      cases hr
  | _ =>
      rw [hpc] at hdone
      cases hdone

theorem Layout.holds (h : s.Layout items) (hquiet : s.quiet = true) :
    s.arena.Holds s.arena.contents ∧ items <+: s.arena.contents := by
  have hlen := SharedArena.length_contents h.set
  have heq := h.published_eq hquiet
  have hget := SharedArena.getElem?_contents h.set
  refine ⟨⟨hlen.symm, heq ▸ hlen.symm, fun i => ?_, ?_⟩, ?_⟩
  · rw [hget]
    split
    · rfl
    · exact h.above i (heq ▸ Nat.le_of_not_lt ‹_›)
  · rw [hlen, heq]
    exact h.fits
  · refine List.prefix_iff_getElem?.mpr fun i hi => ?_
    rw [hget, if_pos (Nat.lt_of_lt_of_le hi h.base), h.old i hi, List.getElem?_eq_getElem hi]

end Layout

/-- Calls that share an arena publish whole ranges in slot order, each slot once
and filled, whatever the interleaving. -/
theorem publication_is_safe (hall : ∀ k, tgt.allocates k = true) {a : SharedArena tgt T}
    {items : List T} (hidle : a.Holds items) (ls ls' : List (Label T))
    (hls : ∀ l ∈ ls, l.Answered) (hls' : ∀ l ∈ ls', l.Answered) :
    let s := (Shared.idle a).run ls
    let s' := s.run ls'
    s.arena.published ≤ s.arena.reserved ∧
    -- ranges do not overlap, and together they are what was reserved
    (∀ j k vs ws q t, s.Reserved j vs q → s.Reserved k ws t → j ≠ k →
      q.1 + vs.length ≤ t.1 ∨ t.1 + ws.length ≤ q.1) ∧
    (∀ slot, items.length ≤ slot → (slot < s.arena.reserved ↔
      ∃ k vs q, s.Reserved k vs q ∧ q.1 ≤ slot ∧ slot < q.1 + vs.length)) ∧
    -- a call that panics ran out of stamps or of slots, so no assertion fires
    (∀ c ∈ s.calls, ∀ p, c.pc = .unwound p → p = .slotSpaceExhausted ∨ p = .stampSpaceExhausted) ∧
    (∀ c ∈ s.calls, ∀ stamp start offset, c.pc = .set stamp start offset →
      s.arena.storage.slots (start + offset) = none) ∧
    -- what is published is there, now and later, and is what its call brought
    (∀ slot < s.arena.published, ∃ v,
      s.arena.storage.get slot = .ok v ∧ s'.arena.storage.get slot = .ok v ∧
      (∀ h : slot < items.length, items[slot] = v) ∧
      (items.length ≤ slot → ∃ k vs q, s.Reserved k vs q ∧ q.1 ≤ slot ∧ vs[slot - q.1]? = some v)) ∧
    s.arena.published ≤ s'.arena.published ∧
    -- a call returns after its whole range is published
    (∀ c ∈ s.calls, ∀ reply, c.pc = .returned reply →
      ∀ q ∈ c.pc.range c.ask.values.length, q.1 + c.ask.values.length ≤ s.arena.published) ∧
    -- readers of the published prefix do not panic
    (∃ vs, s.arena.iter = .ok vs ∧ vs.length = s.arena.published ∧
      (a.Settled → s.arena.published ≠ 0 →
        ∀ (fresh : Source StampSpace) src d, ∃ pairs : List (Idx × T),
          (SharedArena.iterIndexed fresh).run ⟨s.arena, src, d⟩ = .ok pairs ⟨s.arena, src, d⟩ ∧
          pairs.map Prod.snd = vs)) ∧
    -- and between calls the arena is as it was at the start, with more values
    (s.quiet = true → ∃ items', s.arena.Holds (items ++ items')) := by
  intro s s'
  have h : s.Layout items := (Layout.idle hidle).run hall hls
  obtain ⟨hgrow, hkept⟩ := h.run_mono hall hls'
  refine ⟨h.ordered, h.apart, fun slot hbase => ⟨h.cover slot hbase, ?_⟩, ?_, ?_, ?_, hgrow, ?_, ?_,
    ?_⟩
  · rintro ⟨k, vs, q, hq, -, hin⟩
    exact Nat.lt_of_lt_of_le hin (h.placed k vs q hq).2.1
  · intro c hc p hp
    obtain ⟨k, hk⟩ := List.mem_iff_getElem?.mp hc
    have hsound := h.sound k c hk
    rw [hp] at hsound
    exact hsound
  · intro c hc stamp start offset hpc
    obtain ⟨k, hk⟩ := List.mem_iff_getElem?.mp hc
    have hsound : offset < c.ask.values.length := by
      have hs := h.sound k c hk
      rwa [hpc] at hs
    have hq : s.Reserved k c.ask.values (start, offset) := ⟨c, hk, rfl, by rw [hpc]; rfl⟩
    have hslot := (h.placed k _ _ hq).2.2 offset hsound
    rwa [if_neg (Nat.lt_irrefl _)] at hslot
  · intro slot hlt
    obtain ⟨v, hv⟩ := Option.ne_none_iff_exists'.mp (h.set slot hlt)
    have hv' : s'.arena.storage.slots slot = some v := (hkept slot (h.set slot hlt)).trans hv
    refine ⟨v, ChunkedStorage.get_eq hv, ChunkedStorage.get_eq hv', fun hb => ?_, fun hb => ?_⟩
    · have hold := h.old slot hb
      rw [hv, List.getElem?_eq_getElem hb] at hold
      exact (Option.some.inj hold).symm
    · obtain ⟨k, vs, q, hq, hge, -, hval⟩ := h.owner hb hlt
      exact ⟨k, vs, q, hq, hge, hval.symm.trans hv⟩
  · intro c hc reply hpc q hq
    obtain ⟨k, hk⟩ := List.mem_iff_getElem?.mp hc
    have hsound := h.sound k c hk
    rw [hpc] at hsound hq
    exact (hsound q hq).2
  · refine ⟨s.arena.contents, SharedArena.iter_contents h.set,
      SharedArena.length_contents h.set, ?_⟩
    intro hset hpos fresh src d
    have hasg : s.Assigned := (Assigned.idle hset).run ls
    have hc : s.arena.identity.current ≠ 0 := by
      refine hasg.issued fun hz => hpos ?_
      exact Nat.le_zero.mp (hz ▸ h.ordered)
    have hb : s.arena.identity.birth ≠ 0 := fun hz => hc (hasg.unborn hz)
    obtain ⟨id, hid⟩ := SharedIdentity.Mirrors.of_assigned hb hc
    refine ⟨_, SharedArena.run_iterIndexed_contents (fun slot _ => hid.run_stampOf slot)
      h.set src d, ?_⟩
    rw [List.map_map]
    exact List.zipIdx_map_fst 0 s.arena.contents
  · intro hquiet
    obtain ⟨hholds, items', happ⟩ := h.holds hquiet
    exact ⟨items', happ ▸ hholds⟩

/-- The block wins the race for the identity and for the first slots, and the
other call publishes them. -/
theorem publication_is_safe_helped :
    let tgt : Target := ⟨8, fun _ => true⟩
    let ls : List (Label Nat) :=
      [.start 0 (.alloc 7), .start 1 (.allocBlock [8, 9])] ++
      [0, 1, 0, 1, 1, 0, 0, 1, 1, 1, 0, 0, 0, 0, 0, 1, 1, 0, 0, 0, 0, 0, 0, 0, 0, 0, 0, 1].map
        fun i => .step i (.ok (.nth i)) false
    ((idle (.new : SharedArena tgt Nat)).run ls).arena.Holds [8, 9, 7] := by
  intro tgt ls
  have hls : ∀ l ∈ ls, l.Answered := by
    refine List.forall_mem_append.mpr ⟨?_, List.forall_mem_map.mpr fun i _ p hp => by cases hp⟩
    exact List.forall_mem_cons.mpr
      ⟨trivial, List.forall_mem_cons.mpr ⟨trivial, List.forall_mem_nil _⟩⟩
  have hall : ∀ k, tgt.allocates k = true := fun _ => rfl
  have hquiet : ((idle (.new : SharedArena tgt Nat)).run ls).quiet = true := by decide +kernel
  have hcontents : ((idle (.new : SharedArena tgt Nat)).run ls).arena.contents = [8, 9, 7] := by
    decide +kernel
  obtain ⟨items, hholds⟩ := (publication_is_safe hall (SharedArena.Holds.new (T := Nat)) ls [] hls
    (List.forall_mem_nil _)).2.2.2.2.2.2.2.2.2 hquiet
  rwa [← hholds.contents_eq, hcontents] at hholds

end Shared

end SafeBump
