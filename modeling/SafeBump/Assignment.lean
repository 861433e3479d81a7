import SafeBump.Calls

/-!
# Racing for the identity

The first calls on a concurrent arena race to assign its identity.  `birth` goes
from 0 to the stamp of one winner, which then stores it to `current` as well;
everyone else waits for that store.  `Shared.Assigned` says so of a moment: when
`birth` is there and `current` is not, exactly one call is about to store it,
and every allocation past its first step holds the current stamp.

A word that is set stays as it is while calls are under way
(`SharedIdentity.Grows`).
-/

namespace SafeBump

variable {tgt : Target} {T : Type}

/-- Words may have been assigned, and nothing else. -/
structure SharedIdentity.Grows (id id' : SharedIdentity) : Prop where
  birth : id.birth ≠ 0 → id'.birth = id.birth
  current : id.current ≠ 0 → id'.current = id.current
  start : id'.currentStart = id.currentStart
  tail : id'.prefixTail = id.prefixTail
  table : id'.table = id.table

namespace SharedIdentity.Grows

theorem refl (id : SharedIdentity) : id.Grows id :=
  ⟨fun _ => rfl, fun _ => rfl, rfl, rfl, rfl⟩

theorem trans {id₁ id₂ id₃ : SharedIdentity} (h : id₁.Grows id₂) (h' : id₂.Grows id₃) :
    id₁.Grows id₃ where
  birth := fun hb => (h'.birth (h.birth hb ▸ hb)).trans (h.birth hb)
  current := fun hc => (h'.current (h.current hc ▸ hc)).trans (h.current hc)
  start := h'.start.trans h.start
  tail := h'.tail.trans h.tail
  table := h'.table.trans h.table

end SharedIdentity.Grows

/-- The stamp a reply issues its slots under. -/
def Reply.stamps : Reply T → List Stamp
  | .idx i => [i.stamp]
  | .block b => b.stamp.toList
  | _ => []

/-- What a call knows of the identity. -/
def Pc.Agrees (id : SharedIdentity) : Pc T → Prop
  | .storeCurrent _ fresh => id.current = 0 ∧ id.birth = fresh.get
  | .reread _ => id.birth ≠ 0
  | .reserve stamp => stamp.get = id.current
  | .set stamp _ _ => stamp.get = id.current
  | .loadPublished stamp _ _ => stamp.get = id.current
  | .isSet stamp _ _ _ => stamp.get = id.current
  | .advance stamp _ _ _ => stamp.get = id.current
  | .returned reply => ∀ stamp ∈ reply.stamps, stamp.get = id.current
  | _ => True

/-- The call is about to store the current stamp. -/
def Pc.storing : Pc T → Bool
  | .storeCurrent .. => true
  | _ => false

theorem Pc.storing_iff {pc : Pc T} :
    pc.storing = true ↔ ∃ use fresh, pc = .storeCurrent use fresh := by
  cases pc <;> simp [storing]

section Move

variable {a : SharedArena tgt T} {id : SharedIdentity}

theorem Use.resume_agrees (use : Use) {stamp : Stamp} (h : use = .range → stamp.get = id.current) :
    (use.resume stamp : Pc T).Agrees id := by
  cases use with
  | range => exact h rfl
  | tail len => trivial
  | birthTail len => trivial
  | owner len last => exact fun s hs => by cases hs

theorem fillPc_agrees (values : List T) {stamp : Stamp} (start offset : Nat)
    (h : stamp.get = id.current) : (fillPc tgt values stamp start offset).Agrees id := by
  rw [fillPc]
  split
  · exact h
  · split
    · trivial
    · exact h

theorem Ask.finish_agrees (ask : Ask T) {stamp : Stamp} (start : Nat)
    (h : stamp.get = id.current) : (ask.finish tgt stamp start).Agrees id := by
  have hidx : (Pc.returned (.idx ⟨stamp, start⟩) : Pc T).Agrees id :=
    fun s hs => List.mem_singleton.mp hs ▸ h
  cases ask with
  | alloc value => exact hidx
  | checkpoint => exact hidx
  | allocBlock values =>
      rw [Ask.finish]
      cases hb : Block.new tgt stamp start values.length with
      | error p => trivial
      | ok block =>
          cases Block.of_new hb
          exact fun s hs => List.mem_singleton.mp hs ▸ h

theorem SharedIdentity.tailPc_agrees (id : SharedIdentity) (len : Nat) :
    (id.tailPc len : Pc T).Agrees id := by
  cases len with
  | zero => trivial
  | succ slot =>
      rw [tailPc]
      split
      · trivial
      · split
        · trivial
        · split
          · trivial
          · split <;> trivial

theorem Use.resume_storing (use : Use) (stamp : Stamp) :
    (use.resume stamp : Pc T).storing = false := by
  cases use <;> rfl

theorem SharedIdentity.tailPc_storing (id : SharedIdentity) (len : Nat) :
    (id.tailPc len : Pc T).storing = false := by
  cases len with
  | zero => rfl
  | succ slot =>
      rw [tailPc]
      split
      · rfl
      · split
        · rfl
        · split
          · rfl
          · split <;> rfl

theorem fillPc_storing (values : List T) (stamp : Stamp) (start offset : Nat) :
    (fillPc tgt values stamp start offset).storing = false := by
  rw [fillPc]
  split
  · rfl
  · split <;> rfl

theorem Ask.finish_storing (ask : Ask T) (stamp : Stamp) (start : Nat) :
    (ask.finish tgt stamp start).storing = false := by
  cases ask with
  | alloc value => rfl
  | checkpoint => rfl
  | allocBlock values =>
      rw [Ask.finish]
      split <;> rfl

/-- What a move can do to the identity: nothing, or win the race for `birth`, or
store the current stamp after that. -/
theorem Ask.move_identity (ask : Ask T) (answer : Except Panic Stamp) (mishap : Bool)
    (a : SharedArena tgt T) (pc : Pc T) :
    (ask.move answer mishap a pc).1.identity = a.identity ∧
        pc.storing = false ∧ (ask.move answer mishap a pc).2.storing = false ∨
      (∃ use fresh, pc = .exchangeBirth use fresh ∧ a.identity.birth = 0 ∧
        ask.move answer mishap a pc =
          ({ a with identity := { a.identity with birth := fresh.get } },
            .storeCurrent use fresh)) ∨
      ∃ use fresh, pc = .storeCurrent use fresh ∧
        ask.move answer mishap a pc =
          ({ a with identity := { a.identity with current := fresh.get } }, .reread use) := by
  cases pc with
  | exchangeBirth use fresh =>
      rw [Ask.move]
      split
      · exact .inr (.inl ⟨use, fresh, rfl, ‹_›, rfl⟩)
      · exact .inl ⟨rfl, rfl, rfl⟩
  | storeCurrent use fresh => exact .inr (.inr ⟨use, fresh, rfl, rfl⟩)
  | loadLen => exact .inl ⟨rfl, rfl, a.identity.tailPc_storing _⟩
  | load use =>
      rw [Ask.move]
      split
      · exact .inl ⟨rfl, rfl, rfl⟩
      · exact .inl ⟨rfl, rfl, use.resume_storing _⟩
  | draw use => cases answer <;> exact .inl ⟨rfl, rfl, rfl⟩
  | reread use =>
      rw [Ask.move]
      split
      · exact .inl ⟨rfl, rfl, rfl⟩
      · exact .inl ⟨rfl, rfl, use.resume_storing _⟩
  | reserve stamp =>
      rw [Ask.move]
      split
      · exact .inl ⟨rfl, rfl, rfl⟩
      · exact .inl ⟨rfl, rfl, fillPc_storing _ _ _ _⟩
  | set stamp start offset =>
      rw [Ask.move]
      split
      · exact .inl ⟨rfl, rfl, fillPc_storing _ _ _ _⟩
      · split
        · exact .inl ⟨rfl, rfl, rfl⟩
        · split
          · exact .inl ⟨rfl, rfl, rfl⟩
          · exact .inl ⟨rfl, rfl, rfl⟩
          · exact .inl ⟨rfl, rfl, fillPc_storing _ _ _ _⟩
  | loadPublished stamp start last =>
      rw [Ask.move]
      split
      · exact .inl ⟨rfl, rfl, ask.finish_storing _ _⟩
      · exact .inl ⟨rfl, rfl, rfl⟩
  | isSet stamp start last published => rw [Ask.move]; split <;> exact .inl ⟨rfl, rfl, rfl⟩
  | advance stamp start last published => rw [Ask.move]; split <;> exact .inl ⟨rfl, rfl, rfl⟩
  | returned reply => exact .inl ⟨rfl, rfl, rfl⟩
  | unwound p => exact .inl ⟨rfl, rfl, rfl⟩

/-- A move assigns a word or leaves the identity alone. -/
theorem Ask.move_grows (ask : Ask T) (answer : Except Panic Stamp) (mishap : Bool) {pc : Pc T}
    (h : pc.Agrees a.identity) :
    a.identity.Grows (ask.move answer mishap a pc).1.identity := by
  rcases ask.move_identity answer mishap a pc with
    ⟨hid, -, -⟩ | ⟨use, fresh, rfl, hzero, hmove⟩ | ⟨use, fresh, rfl, hmove⟩
  · rw [hid]
    exact .refl _
  · rw [hmove]
    exact ⟨fun hne => absurd hzero hne, fun _ => rfl, rfl, rfl, rfl⟩
  · rw [hmove]
    exact ⟨fun _ => rfl, fun hne => absurd h.1 hne, rfl, rfl, rfl⟩

/-- A call goes on knowing what it has to. -/
theorem Ask.move_agrees (ask : Ask T) (answer : Except Panic Stamp) (mishap : Bool) {pc : Pc T}
    (hzero : a.identity.birth = 0 → a.identity.current = 0)
    (h : pc.Agrees a.identity) :
    (ask.move answer mishap a pc).2.Agrees (ask.move answer mishap a pc).1.identity := by
  cases pc with
  | loadLen => exact a.identity.tailPc_agrees a.published
  | load use =>
      rw [Ask.move]
      split
      · trivial
      · refine use.resume_agrees fun hu => ?_
        subst hu
        rfl
  | draw use => cases answer <;> trivial
  | exchangeBirth use fresh =>
      rw [Ask.move]
      split
      · exact ⟨hzero ‹_›, rfl⟩
      · assumption
  | storeCurrent use fresh =>
      have hne : a.identity.birth ≠ 0 := by
        rw [h.2]
        exact fresh.ne_zero
      exact hne
  | reread use =>
      rw [Ask.move]
      split
      · exact h
      · exact use.resume_agrees fun _ => rfl
  | reserve stamp =>
      rw [Ask.move]
      split
      · trivial
      · exact fillPc_agrees _ _ _ h
  | set stamp start offset =>
      rw [Ask.move]
      split
      · exact fillPc_agrees _ _ _ h
      · split
        · trivial
        · split
          · trivial
          · trivial
          · exact fillPc_agrees _ _ _ h
  | loadPublished stamp start last =>
      rw [Ask.move]
      split
      · exact ask.finish_agrees start h
      · exact h
  | isSet stamp start last published =>
      rw [Ask.move]
      split
      · trivial
      · exact h
      · exact h
  | advance stamp start last published =>
      rw [Ask.move]
      split <;> exact h
  | returned reply => exact h
  | unwound p => trivial

/-- Slots are reserved, filled and published under the current stamp only. -/
theorem Ask.move_slots (ask : Ask T) (answer : Except Panic Stamp) (mishap : Bool) {pc : Pc T}
    (h : pc.Agrees a.identity) :
    (∃ id, (ask.move answer mishap a pc).1 = { a with identity := id }) ∨
      a.identity.current ≠ 0 := by
  have hsame : ∃ id, a = { a with identity := id } := ⟨a.identity, rfl⟩
  have hstamp : ∀ stamp : Stamp, stamp.get = a.identity.current → a.identity.current ≠ 0 :=
    fun stamp he => he ▸ stamp.ne_zero
  cases pc with
  | reserve stamp => exact .inr (hstamp stamp h)
  | set stamp start offset => exact .inr (hstamp stamp h)
  | loadPublished stamp start last => exact .inr (hstamp stamp h)
  | isSet stamp start last published => exact .inr (hstamp stamp h)
  | advance stamp start last published => exact .inr (hstamp stamp h)
  | loadLen => exact .inl hsame
  | load use => rw [Ask.move]; split <;> exact .inl hsame
  | draw use => cases answer <;> exact .inl hsame
  | exchangeBirth use fresh =>
      rw [Ask.move]
      split
      · exact .inl ⟨_, rfl⟩
      · exact .inl hsame
  | storeCurrent use fresh => exact .inl ⟨_, rfl⟩
  | reread use => rw [Ask.move]; split <;> exact .inl hsame
  | returned reply => exact .inl hsame
  | unwound p => exact .inl hsame

end Move

/-- What a call knows survives the moves of the others, as long as none of
them stores the current stamp before it does. -/
theorem Pc.Agrees.grow {pc : Pc T} {id id' : SharedIdentity} (h : pc.Agrees id)
    (hg : id.Grows id') (hs : pc.storing = true → id'.current = id.current) : pc.Agrees id' := by
  have hstamp : ∀ stamp : Stamp, stamp.get = id.current → stamp.get = id'.current :=
    fun stamp he => he.trans (hg.current (he ▸ stamp.ne_zero)).symm
  cases pc with
  | storeCurrent use fresh =>
      have hne : id.birth ≠ 0 := by
        rw [h.2]
        exact fresh.ne_zero
      exact ⟨(hs rfl).trans h.1, (hg.birth hne).trans h.2⟩
  | reread use =>
      have hne : id'.birth ≠ 0 := by
        rw [hg.birth h]
        exact h
      exact hne
  | reserve stamp => exact hstamp stamp h
  | set stamp start offset => exact hstamp stamp h
  | loadPublished stamp start last => exact hstamp stamp h
  | isSet stamp start last published => exact hstamp stamp h
  | advance stamp start last published => exact hstamp stamp h
  | returned reply => exact fun stamp hmem => hstamp stamp (h stamp hmem)
  | loadLen => trivial
  | load use => trivial
  | draw use => trivial
  | exchangeBirth use fresh => trivial
  | unwound p => trivial

theorem Ask.start_agrees (ask : Ask T) (id : SharedIdentity) :
    ask.start.Agrees id ∧ ask.start.storing = false := by
  cases ask with
  | alloc value => exact ⟨trivial, rfl⟩
  | checkpoint => exact ⟨trivial, rfl⟩
  | allocBlock values =>
      cases values with
      | nil => exact ⟨fun s hs => (by cases hs), rfl⟩
      | cons v values => exact ⟨trivial, rfl⟩

/-! ## The race -/

/-- Between calls both words are there or neither is, and they are wherever
slots were reserved. -/
structure SharedArena.Settled (a : SharedArena tgt T) : Prop where
  born : a.identity.birth = 0 ↔ a.identity.current = 0
  issued : a.reserved ≠ 0 → a.identity.current ≠ 0

theorem SharedArena.Settled.new : (new : SharedArena tgt T).Settled :=
  ⟨Iff.rfl, fun h => absurd rfl h⟩

namespace Shared

/-- Call `k` is about to store the current stamp. -/
def Storing (s : Shared tgt T) (k : Nat) : Prop :=
  ∃ c : Call T, s.calls[k]? = some c ∧ c.pc.storing = true

/-- Where the race for the identity stands. -/
structure Assigned (s : Shared tgt T) : Prop where
  unborn : s.arena.identity.birth = 0 → s.arena.identity.current = 0
  winner : s.arena.identity.birth ≠ 0 → s.arena.identity.current = 0 → ∃ k, s.Storing k
  single : ∀ j k, s.Storing j → s.Storing k → j = k
  issued : s.arena.reserved ≠ 0 → s.arena.identity.current ≠ 0
  agree : ∀ (k : Nat) (c : Call T), s.calls[k]? = some c → c.pc.Agrees s.arena.identity

/-- A call about to store the current stamp finds none and knows who won. -/
theorem Assigned.storing {s : Shared tgt T} (h : s.Assigned) {k : Nat} (hs : s.Storing k) :
    s.arena.identity.birth ≠ 0 ∧ s.arena.identity.current = 0 := by
  obtain ⟨c, hc, hs⟩ := hs
  obtain ⟨use, fresh, hpc⟩ := Pc.storing_iff.mp hs
  have hag := h.agree k c hc
  rw [hpc] at hag
  exact ⟨hag.2 ▸ fresh.ne_zero, hag.1⟩

theorem Assigned.idle {a : SharedArena tgt T} (h : a.Settled) : (idle a).Assigned where
  unborn := h.born.mp
  winner := fun hb hc => absurd (h.born.mpr hc) hb
  single := by
    rintro _ _ ⟨c, hc, -⟩
    cases hc
  issued := h.issued
  agree := fun _ _ hc => by cases hc

theorem storing_start {s : Shared tgt T} {t : ThreadId} {ask : Ask T} {k : Nat} :
    (s.start t ask).Storing k ↔ s.Storing k := by
  rw [Storing, getElem?_start]
  split
  · rename_i heq
    subst heq
    constructor
    · rintro ⟨c, hc, hs⟩
      cases hc
      rw [(ask.start_agrees s.arena.identity).2] at hs
      cases hs
    · rintro ⟨c, hc, -⟩
      exact absurd (List.getElem?_eq_some_iff.mp hc).1 (Nat.lt_irrefl _)
  · exact Iff.rfl

theorem storing_step {s : Shared tgt T} {i : Nat} {c : Call T} (hc : s.calls[i]? = some c)
    (answer : Except Panic Stamp) (mishap : Bool) (k : Nat) :
    (s.step i answer mishap).Storing k ↔
      if k = i then (c.ask.move answer mishap s.arena c.pc).2.storing = true
      else s.Storing k := by
  rw [Storing, getElem?_step hc]
  split
  · constructor
    · rintro ⟨d, hd, hs⟩
      cases hd
      exact hs
    · exact fun hs => ⟨_, rfl, hs⟩
  · exact Iff.rfl

theorem Assigned.start {s : Shared tgt T} (h : s.Assigned) (t : ThreadId) (ask : Ask T) :
    (s.start t ask).Assigned where
  unborn := h.unborn
  winner := by
    intro hb hc
    obtain ⟨k, hk⟩ := h.winner hb hc
    exact ⟨k, storing_start.mpr hk⟩
  single := fun j k hj hk => h.single j k (storing_start.mp hj) (storing_start.mp hk)
  issued := h.issued
  agree := by
    intro k c hk
    rw [getElem?_start] at hk
    split at hk
    · cases hk
      exact (ask.start_agrees _).1
    · exact h.agree k c hk

/-- What a step does to the race: nothing, or its call wins, or the winner
stores the current stamp. -/
theorem Assigned.race {s : Shared tgt T} (h : s.Assigned) {i : Nat} {c : Call T}
    (hc : s.calls[i]? = some c) (answer : Except Panic Stamp) (mishap : Bool) :
    (s.step i answer mishap).arena.identity = s.arena.identity ∧
        (∀ k, (s.step i answer mishap).Storing k ↔ s.Storing k) ∨
      ((s.step i answer mishap).arena.identity.birth ≠ 0 ∧
        (s.step i answer mishap).arena.identity.current = s.arena.identity.current ∧
        ∀ k, (s.step i answer mishap).Storing k ↔ k = i) ∨
      (s.arena.identity.birth ≠ 0 ∧ s.Storing i ∧
        (s.step i answer mishap).arena.identity.birth = s.arena.identity.birth ∧
        (s.step i answer mishap).arena.identity.current ≠ 0 ∧
        ∀ k, ¬ (s.step i answer mishap).Storing k) := by
  have hself : s.Storing i ↔ c.pc.storing = true :=
    ⟨fun ⟨d, hd, hs⟩ => Option.some.inj (hc.symm.trans hd) ▸ hs, fun hs => ⟨c, hc, hs⟩⟩
  have hstep := storing_step hc answer mishap
  rw [arena_step hc]
  rcases c.ask.move_identity answer mishap s.arena c.pc with
    ⟨hid, hs, hs'⟩ | ⟨use, fresh, hpc, hzero, hmove⟩ | ⟨use, fresh, hpc, hmove⟩
  · refine .inl ⟨hid, fun k => ?_⟩
    rw [hstep, hs']
    split
    · rename_i heq
      rw [heq, hself, hs]
    · exact Iff.rfl
  · rw [hmove] at hstep ⊢
    refine .inr (.inl ⟨fresh.ne_zero, rfl, fun k => ?_⟩)
    rw [hstep]
    split
    · exact ⟨fun _ => ‹_›, fun _ => rfl⟩
    · exact ⟨fun hk => absurd hzero (h.storing hk).1, fun hk => absurd hk ‹_›⟩
  · rw [hmove] at hstep ⊢
    have hi : s.Storing i := hself.mpr (by rw [hpc]; rfl)
    refine .inr (.inr ⟨(h.storing hi).1, hi, rfl, fresh.ne_zero, fun k hk => ?_⟩)
    rw [hstep] at hk
    split at hk
    · cases hk
    · exact absurd (h.single k i hk hi) ‹_›

theorem Assigned.step {s : Shared tgt T} (h : s.Assigned) (i : Nat) (answer : Except Panic Stamp)
    (mishap : Bool) : (s.step i answer mishap).Assigned := by
  cases hc : s.calls[i]? with
  | none => rwa [step_of_none hc]
  | some c =>
      have hag := h.agree i c hc
      have hgrows := c.ask.move_grows answer mishap hag
      have hslots := c.ask.move_slots answer mishap hag
      have hself := c.ask.move_agrees answer mishap h.unborn hag
      rw [← arena_step hc] at hgrows hslots hself
      have hissued : (s.step i answer mishap).arena.reserved ≠ 0 →
          (s.step i answer mishap).arena.identity.current ≠ 0 := by
        intro hne
        have hcur : s.arena.identity.current ≠ 0 := by
          rcases hslots with ⟨id, he⟩ | hcur
          · rw [he] at hne
            exact h.issued hne
          · exact hcur
        rw [hgrows.current hcur]
        exact hcur
      have hrace := h.race hc answer mishap
      have hagree : ∀ (k : Nat) (d : Call T), (s.step i answer mishap).calls[k]? = some d →
          d.pc.Agrees (s.step i answer mishap).arena.identity := by
        intro k d hk
        rw [getElem?_step hc] at hk
        split at hk
        · cases hk
          exact hself
        · refine (h.agree k d hk).grow hgrows fun hs => ?_
          rcases hrace with ⟨hid, -⟩ | ⟨-, hcur, -⟩ | ⟨-, hi, -⟩
          · rw [hid]
          · exact hcur
          · exact absurd (h.single k i ⟨d, hk, hs⟩ hi) ‹_›
      rcases hrace with ⟨hid, hst⟩ | ⟨hb, hcur, hst⟩ | ⟨hb, -, hbirth, hcur, hst⟩
      · refine ⟨by rw [hid]; exact h.unborn, ?_, ?_, hissued, hagree⟩
        · rw [hid]
          intro hb hc
          obtain ⟨k, hk⟩ := h.winner hb hc
          exact ⟨k, (hst k).mpr hk⟩
        · exact fun j k hj hk => h.single j k ((hst j).mp hj) ((hst k).mp hk)
      · refine ⟨fun hz => absurd hz hb, fun _ _ => ⟨i, (hst i).mpr rfl⟩, ?_, hissued, hagree⟩
        exact fun j k hj hk => ((hst j).mp hj).trans ((hst k).mp hk).symm
      · refine ⟨fun hz => absurd (hbirth ▸ hz) hb, fun _ hz => absurd hz hcur, ?_, hissued, hagree⟩
        exact fun j _ hj => absurd hj (hst j)

theorem Assigned.next {s : Shared tgt T} (h : s.Assigned) (l : Label T) : (s.next l).Assigned := by
  cases l with
  | start t ask => exact h.start t ask
  | step i answer mishap => exact h.step i answer mishap

/-- Every run keeps the race going as it should. -/
theorem Assigned.run {s : Shared tgt T} (h : s.Assigned) (ls : List (Label T)) :
    (s.run ls).Assigned := by
  induction ls generalizing s with
  | nil => exact h
  | cons l ls ih => exact ih (h.next l)

theorem Assigned.grows_next {s : Shared tgt T} (h : s.Assigned) (l : Label T) :
    s.arena.identity.Grows (s.next l).arena.identity := by
  cases l with
  | start t ask => exact .refl _
  | step i answer mishap =>
      rw [Shared.next]
      cases hc : s.calls[i]? with
      | none =>
          rw [step_of_none hc]
          exact .refl _
      | some c =>
          rw [arena_step hc]
          exact c.ask.move_grows answer mishap (h.agree i c hc)

/-- Over a run each word is assigned at most once. -/
theorem Assigned.grows_run {s : Shared tgt T} (h : s.Assigned) (ls : List (Label T)) :
    s.arena.identity.Grows (s.run ls).arena.identity := by
  induction ls generalizing s with
  | nil => exact .refl _
  | cons l ls ih => exact (h.grows_next l).trans (ih (h.next l))

end Shared

end SafeBump
