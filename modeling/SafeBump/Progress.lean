import SafeBump.Publication

/-!
# The wait for publication ends

A call waits in two loops: in `assign` for the winner's store, and in
`advance_published` for slots below its own.  A step that goes round such a loop
is idle, every other step is productive (`Pc.productive`).

`Shared.work` is what is left to do.  A productive step makes it smaller and an
idle one leaves it (`step_work`), and some call can always make a productive step
by itself (`exists_productive`): the winner of the race has its store ahead of
it, and the slot `published` points at is filled, or a call with its `set` ahead
owns it.  So all calls can be run to their ends (`exists_quiet`).
-/

namespace SafeBump

variable {tgt : Target} {T : Type}

/-- The next step of the call is not one round of a wait loop. -/
def Pc.productive (a : SharedArena tgt T) (mishap : Bool) : Pc T → Bool
  | .reread _ => a.identity.current != 0
  | .loadPublished _ _ last => decide (last < a.published)
  | .isSet .. => false
  | .advance _ _ _ published => a.published == published && !mishap
  | .returned _ => false
  | .unwound _ => false
  | _ => true

/-- The call is in a wait loop. -/
def Pc.waiting : Pc T → Bool
  | .reread _ => true
  | .loadPublished .. => true
  | .isSet .. => true
  | .advance .. => true
  | _ => false

/-- Outside the wait loops every step is productive. -/
theorem Pc.productive_of_not_waiting {pc : Pc T} (a : SharedArena tgt T) (mishap : Bool)
    (hrun : pc.running = true) (hwait : pc.waiting ≠ true) : pc.productive a mishap = true := by
  cases pc with
  | returned reply => cases hrun
  | unwound p => cases hrun
  | reread use => exact absurd rfl hwait
  | loadPublished stamp start last => exact absurd rfl hwait
  | isSet stamp start last published => exact absurd rfl hwait
  | advance stamp start last published => exact absurd rfl hwait
  | _ => rfl

/-- The productive steps a call of `len` values has left once it has the stamp. -/
def Use.rest (len : Nat) : Use → Nat
  | .range => len + 2
  | .tail _ => 5
  | .birthTail _ => 5
  | .owner _ _ => 0

/-- A bound on the productive steps a call of `len` values has left. -/
def Pc.stage (len : Nat) : Pc T → Nat
  | .loadLen => 11
  | .load use => use.rest len + 5
  | .draw use => use.rest len + 4
  | .exchangeBirth use _ => use.rest len + 3
  | .storeCurrent use _ => use.rest len + 2
  | .reread use => use.rest len + 1
  | .reserve _ => len + 2
  | .set _ _ offset => len - offset + 1
  | .loadPublished .. => 1
  | .isSet .. => 1
  | .advance .. => 1
  | .returned _ => 0
  | .unwound _ => 0

/-- The slots a call of `len` values has still to reserve. -/
def Pc.pending (len : Nat) : Pc T → Nat
  | .set .. => 0
  | .loadPublished .. => 0
  | .isSet .. => 0
  | .advance .. => 0
  | .returned _ => 0
  | .unwound _ => 0
  | _ => len

/-- What a call has left to do, the slots it has still to reserve included. -/
def Pc.left (len : Nat) (pc : Pc T) : Nat := pc.stage len + pc.pending len

section Left

variable {len : Nat} {use : Use} {stamp : Stamp} {start last offset published : Nat}

@[simp] theorem Pc.left_loadLen : (Pc.loadLen : Pc T).left len = 11 + len := rfl

@[simp] theorem Pc.left_load : (Pc.load use : Pc T).left len = use.rest len + 5 + len := rfl

@[simp] theorem Pc.left_draw : (Pc.draw use : Pc T).left len = use.rest len + 4 + len := rfl

@[simp] theorem Pc.left_exchangeBirth :
    (Pc.exchangeBirth use stamp : Pc T).left len = use.rest len + 3 + len := rfl

@[simp] theorem Pc.left_storeCurrent :
    (Pc.storeCurrent use stamp : Pc T).left len = use.rest len + 2 + len := rfl

@[simp] theorem Pc.left_reread : (Pc.reread use : Pc T).left len = use.rest len + 1 + len := rfl

@[simp] theorem Pc.left_reserve : (Pc.reserve stamp : Pc T).left len = len + 2 + len := rfl

@[simp] theorem Pc.left_set :
    (Pc.set stamp start offset : Pc T).left len = len - offset + 1 := rfl

@[simp] theorem Pc.left_loadPublished :
    (Pc.loadPublished stamp start last : Pc T).left len = 1 := rfl

@[simp] theorem Pc.left_isSet : (Pc.isSet stamp start last published : Pc T).left len = 1 := rfl

@[simp] theorem Pc.left_advance :
    (Pc.advance stamp start last published : Pc T).left len = 1 := rfl

@[simp] theorem Pc.left_returned (reply : Reply T) :
    (Pc.returned reply : Pc T).left len = 0 := rfl

@[simp] theorem Pc.left_unwound (p : Panic) : (Pc.unwound p : Pc T).left len = 0 := rfl

end Left

section Move

variable {a : SharedArena tgt T}

theorem Use.left_resume (use : Use) (stamp : Stamp) (len : Nat) :
    (use.resume stamp : Pc T).left len ≤ use.rest len + len := by
  cases use <;> simp [resume, rest]

theorem SharedIdentity.left_tailPc (id : SharedIdentity) (n len : Nat) :
    (id.tailPc n : Pc T).left len ≤ 10 + len := by
  cases n with
  | zero => simp [tailPc, Use.rest]
  | succ slot =>
      rw [tailPc]
      split
      · simp [Use.rest]
      · split
        · simp [Use.rest]
        · split
          · simp [Use.rest]
          · split <;> simp [Use.rest]

theorem left_fillPc (tgt : Target) (values : List T) (stamp : Stamp) (start offset : Nat) :
    (fillPc tgt values stamp start offset).left values.length ≤ values.length - offset + 1 := by
  rw [fillPc]
  split
  · simp
  · split <;> simp

theorem Ask.left_finish (ask : Ask T) (stamp : Stamp) (start len : Nat) :
    (ask.finish tgt stamp start).left len = 0 := by
  cases ask with
  | alloc value => rfl
  | checkpoint => rfl
  | allocBlock values =>
      rw [Ask.finish]
      split <;> rfl

/-- A productive move leaves less to do and an idle one leaves the same. -/
theorem Ask.move_work (ask : Ask T) (answer : Except Panic Stamp) (mishap : Bool) {pc : Pc T}
    (h : pc.Sound ask.values.length a)
    (hin : ∀ r ∈ pc.range ask.values.length, Placed a ask.values r)
    (hord : a.published ≤ a.reserved) (hfits : a.reserved ≤ tgt.usizeMax) :
    (pc.productive a mishap = true →
      (ask.move answer mishap a pc).2.left ask.values.length
          + ((ask.move answer mishap a pc).1.reserved - (ask.move answer mishap a pc).1.published)
        < pc.left ask.values.length + (a.reserved - a.published)) ∧
      (pc.productive a mishap = false →
        (ask.move answer mishap a pc).2.left ask.values.length +
          ((ask.move answer mishap a pc).1.reserved
            - (ask.move answer mishap a pc).1.published)
          = pc.left ask.values.length + (a.reserved - a.published)) := by
  cases pc with
  | loadLen =>
      refine ⟨fun _ => ?_, fun hp => by cases hp⟩
      have htail := a.identity.left_tailPc (T := T) a.published ask.values.length
      simp only [Ask.move, Pc.left_loadLen]
      omega
  | load use =>
      refine ⟨fun _ => ?_, fun hp => by cases hp⟩
      rw [Ask.move]
      split
      · simp
      · have hnext := use.left_resume (T := T) ⟨use.word a.identity, ‹_›⟩ ask.values.length
        simp only [Pc.left_load]
        omega
  | draw use =>
      refine ⟨fun _ => ?_, fun hp => by cases hp⟩
      cases answer with
      | error p =>
          simp only [Ask.move, Pc.left_draw, Pc.left_unwound]
          omega
      | ok fresh => simp [Ask.move]
  | exchangeBirth use fresh =>
      refine ⟨fun _ => ?_, fun hp => by cases hp⟩
      rw [Ask.move]
      split
      · simp
      · simp only [Pc.left_exchangeBirth, Pc.left_reread]
        omega
  | storeCurrent use fresh =>
      refine ⟨fun _ => ?_, fun hp => by cases hp⟩
      simp [Ask.move]
  | reread use =>
      rw [Ask.move, Pc.productive]
      split
      · rename_i hzero
        exact ⟨fun hp => absurd hzero (by simpa using hp), fun _ => rfl⟩
      · rename_i hne
        have hnext := use.left_resume (T := T) ⟨a.identity.current, hne⟩ ask.values.length
        refine ⟨fun _ => ?_, fun hp => absurd (by simpa using hp) hne⟩
        simp only [Pc.left_reread]
        omega
  | reserve stamp =>
      refine ⟨fun _ => ?_, fun hp => by cases hp⟩
      rw [Ask.move]
      split
      · simp only [Pc.left_reserve, Pc.left_unwound]
        omega
      · obtain ⟨-, rfl⟩ := Target.checkedAdd_eq_some.mp ‹_›
        have hnext := left_fillPc tgt ask.values stamp a.reserved 0
        simp only [Pc.left_reserve]
        omega
  | set stamp start offset =>
      have hoff : offset < ask.values.length := h
      have hget : ask.values[offset]? = some ask.values[offset] := List.getElem?_eq_getElem hoff
      refine ⟨fun _ => ?_, fun hp => by cases hp⟩
      rw [Ask.move, hget]
      simp only [Pc.left_set]
      split
      · simp only [Pc.left_unwound]
        omega
      · split
        · simp only [Pc.left_unwound]
          omega
        · simp only [Pc.left_unwound]
          omega
        · have hnext := left_fillPc tgt ask.values stamp start (offset + 1)
          simp only
          omega
  | loadPublished stamp start last =>
      rw [Ask.move, Pc.productive]
      split
      · rename_i hlt
        refine ⟨fun _ => ?_, fun hp => absurd hlt (of_decide_eq_false hp)⟩
        simp [ask.left_finish]
      · rename_i hge
        exact ⟨fun hp => absurd (of_decide_eq_true hp) hge, fun _ => rfl⟩
  | isSet stamp start last published =>
      obtain ⟨hbelow, -⟩ := hin _ rfl
      obtain ⟨hlast, -, hle⟩ : last + 1 = start + ask.values.length ∧ 0 < ask.values.length ∧
        published ≤ last := h
      refine ⟨(fun hp => by cases hp), fun _ => ?_⟩
      have hlt : published < tgt.usizeMax := by omega
      simp only [Ask.move, ChunkedStorage.isSet_eq hlt]
      cases a.storage.slots published <;> rfl
  | advance stamp start last published =>
      obtain ⟨hbelow, -⟩ := hin _ rfl
      obtain ⟨hlast, -, hle, -⟩ : last + 1 = start + ask.values.length ∧
        0 < ask.values.length ∧ published ≤ last ∧ a.storage.slots published ≠ none := h
      rw [Ask.move, Pc.productive]
      split
      · obtain ⟨rfl, rfl⟩ := (‹_› : a.published = published ∧ mishap = false)
        refine ⟨fun _ => ?_, fun hp => by simp at hp⟩
        simp only [Pc.left_advance, Pc.left_loadPublished]
        omega
      · rename_i hfail
        exact ⟨fun hp => absurd (by simpa using hp) hfail, fun _ => rfl⟩
  | returned reply => exact ⟨(fun hp => by cases hp), fun _ => rfl⟩
  | unwound p => exact ⟨(fun hp => by cases hp), fun _ => rfl⟩

theorem Use.pending_resume (use : Use) (stamp : Stamp) (len : Nat) :
    (use.resume stamp : Pc T).pending len ≤ len := by
  cases use <;> simp [resume, Pc.pending]

theorem SharedIdentity.pending_tailPc (id : SharedIdentity) (n len : Nat) :
    (id.tailPc n : Pc T).pending len = len ∧ ∀ p, (id.tailPc n : Pc T) ≠ .unwound p := by
  cases n with
  | zero => exact ⟨rfl, fun _ he => by cases he⟩
  | succ slot =>
      rw [tailPc]
      split
      · exact ⟨rfl, fun _ he => by cases he⟩
      · split
        · exact ⟨rfl, fun _ he => by cases he⟩
        · split
          · exact ⟨rfl, fun _ he => by cases he⟩
          · split <;> exact ⟨rfl, fun _ he => by cases he⟩

theorem pending_fillPc (tgt : Target) (values : List T) (stamp : Stamp) (start offset len : Nat) :
    (fillPc tgt values stamp start offset).pending len = 0 := by
  rw [fillPc]
  split
  · rfl
  · split <;> rfl

theorem Ask.pending_finish (ask : Ask T) (stamp : Stamp) (start len : Nat) :
    (ask.finish tgt stamp start).pending len = 0 := by
  cases ask with
  | alloc value => rfl
  | checkpoint => rfl
  | allocBlock values =>
      rw [Ask.finish]
      split <;> rfl

/-- Slots go from those still to reserve to those reserved. -/
theorem Ask.move_demand (ask : Ask T) (answer : Except Panic Stamp) (mishap : Bool)
    (a : SharedArena tgt T) (pc : Pc T) :
    (ask.move answer mishap a pc).2.pending ask.values.length
        + (ask.move answer mishap a pc).1.reserved
      ≤ pc.pending ask.values.length + a.reserved := by
  cases pc with
  | loadLen => rw [Ask.move, (a.identity.pending_tailPc _ _).1]; exact Nat.le_refl _
  | load use =>
      rw [Ask.move]
      split
      · exact Nat.le_refl _
      · exact Nat.add_le_add_right (use.pending_resume _ _) _
  | draw use =>
      cases answer with
      | error p => exact Nat.add_le_add_right (Nat.zero_le _) _
      | ok fresh => exact Nat.le_refl _
  | exchangeBirth use fresh => rw [Ask.move]; split <;> exact Nat.le_refl _
  | storeCurrent use fresh => exact Nat.le_refl _
  | reread use =>
      rw [Ask.move]
      split
      · exact Nat.le_refl _
      · exact Nat.add_le_add_right (use.pending_resume _ _) _
  | reserve stamp =>
      rw [Ask.move]
      split
      · exact Nat.add_le_add_right (Nat.zero_le _) _
      · obtain ⟨-, rfl⟩ := Target.checkedAdd_eq_some.mp ‹_›
        have hnone := pending_fillPc tgt ask.values stamp a.reserved 0 ask.values.length
        have hall : (Pc.reserve stamp : Pc T).pending ask.values.length = ask.values.length := rfl
        simp only [hnone, hall]
        omega
  | set stamp start offset =>
      rw [Ask.move]
      split
      · rw [pending_fillPc]
        exact Nat.le_refl _
      · split
        · exact Nat.le_refl _
        · split
          · exact Nat.le_refl _
          · exact Nat.le_refl _
          · rw [pending_fillPc]
            exact Nat.le_refl _
  | loadPublished stamp start last =>
      rw [Ask.move]
      split
      · rw [ask.pending_finish]
        exact Nat.le_refl _
      · exact Nat.le_refl _
  | isSet stamp start last published => rw [Ask.move]; split <;> exact Nat.le_refl _
  | advance stamp start last published => rw [Ask.move]; split <;> exact Nat.le_refl _
  | returned reply => exact Nat.le_refl _
  | unwound p => exact Nat.le_refl _

/-- With stamps and slots enough a call does not panic. -/
theorem Ask.move_ne_unwound (hall : ∀ k, tgt.allocates k = true) {ask : Ask T} {stamp : Stamp}
    (mishap : Bool) {pc : Pc T} (hrun : pc.running = true) (h : pc.Sound ask.values.length a)
    (hin : ∀ r ∈ pc.range ask.values.length, Placed a ask.values r)
    (hfits : a.reserved ≤ tgt.usizeMax)
    (hroom : a.reserved + pc.pending ask.values.length ≤ tgt.usizeMax) (p : Panic) :
    (ask.move (.ok stamp) mishap a pc).2 ≠ .unwound p := by
  have heffect := (Ask.move_effect (.ok stamp) (fun p hp => by cases hp) mishap
    (tgt.affords_all hall _) h hin hfits).1
  -- a call keeps its range, and one that panics has none
  have hkeeps : ∀ r, pc.range ask.values.length = some r →
      (ask.move (.ok stamp) mishap a pc).2 ≠ .unwound p := by
    intro r hr hp
    rw [hr, hp] at heffect
    cases heffect
  cases pc with
  | loadLen => exact (a.identity.pending_tailPc _ 0).2 p
  | load use =>
      rw [Ask.move]
      split
      · exact fun he => by cases he
      · cases use <;> exact fun he => by cases he
  | draw use => exact fun he => by cases he
  | exchangeBirth use fresh => rw [Ask.move]; split <;> exact fun he => by cases he
  | storeCurrent use fresh => exact fun he => by cases he
  | reread use =>
      rw [Ask.move]
      split
      · exact fun he => by cases he
      · cases use <;> exact fun he => by cases he
  | reserve stamp' =>
      have hadd : tgt.checkedAdd a.reserved ask.values.length
          = some (a.reserved + ask.values.length) := Target.checkedAdd_eq_some.mpr ⟨hroom, rfl⟩
      have hnext := (fillPc_sound a stamp' h (Nat.zero_le _) hroom).1
      simp only [Ask.move, hadd]
      intro hp
      rw [hp] at hnext
      cases hnext
  | set stamp' start offset => exact hkeeps _ rfl
  | loadPublished stamp' start last => exact hkeeps _ rfl
  | isSet stamp' start last published => exact hkeeps _ rfl
  | advance stamp' start last published => exact hkeeps _ rfl
  | returned reply => cases hrun
  | unwound q => cases hrun

end Move

theorem sum_map_set {α : Type} (f : α → Nat) {l : List α} {i : Nat} {c : α} (h : l[i]? = some c)
    (d : α) : ((l.set i d).map f).sum + f c = (l.map f).sum + f d := by
  induction l generalizing i with
  | nil => cases h
  | cons b l ih =>
      cases i with
      | zero =>
          cases h
          simp only [List.set_cons_zero, List.map_cons, List.sum_cons]
          omega
      | succ i =>
          have hrest := ih h
          simp only [List.set_cons_succ, List.map_cons, List.sum_cons]
          omega

namespace Shared

/-- The next step of call `i` is productive. -/
def productive (s : Shared tgt T) (i : Nat) (mishap : Bool) : Bool :=
  match s.calls[i]? with
  | none => false
  | some c => c.pc.productive s.arena mishap

/-- What is left to do until every call has ended. -/
def work (s : Shared tgt T) : Nat :=
  (s.calls.map fun c => c.pc.left c.ask.values.length).sum
    + (s.arena.reserved - s.arena.published)

/-- The slots reserved, and those the calls under way will still ask for. -/
def demand (s : Shared tgt T) : Nat :=
  (s.calls.map fun c => c.pc.pending c.ask.values.length).sum + s.arena.reserved

/-- The calls `is` make a step each in turn.  No compare-exchange fails without
a reason, and a call that draws a stamp in step `k` draws `draws k`. -/
def schedule (s : Shared tgt T) (draws : Nat → Stamp) : List Nat → Shared tgt T
  | [] => s
  | i :: is => (s.step i (.ok (draws 0)) false).schedule (fun k => draws (k + 1)) is

theorem schedule_append (s : Shared tgt T) (draws : Nat → Stamp) (is js : List Nat) :
    s.schedule draws (is ++ js)
      = (s.schedule draws is).schedule (fun k => draws (k + is.length)) js := by
  induction is generalizing s draws with
  | nil => rfl
  | cons i is ih => exact ih _ _

/-- Call `i` makes a productive step after at most `k` idle ones, by itself. -/
def GoesOn (s : Shared tgt T) (i k : Nat) : Prop :=
  ∃ n ≤ k, ∀ draws, (s.schedule draws (List.replicate n i)).productive i false = true

section Progress

variable {items : List T} {s : Shared tgt T} {i : Nat} {c : Call T}

theorem productive_of_call (hc : s.calls[i]? = some c) (mishap : Bool) :
    s.productive i mishap = c.pc.productive s.arena mishap := by
  rw [productive, hc]

theorem Layout.placed_of_call (h : s.Layout items) (hc : s.calls[i]? = some c) :
    ∀ r ∈ c.pc.range c.ask.values.length, Placed s.arena c.ask.values r :=
  fun r hr => (h.placed i _ r ((reserved_of_call hc _ _).mpr ⟨rfl, hr⟩)).2

/-- A productive step leaves less to do and an idle one leaves the same. -/
theorem Layout.step_work (h : s.Layout items) (i : Nat) (answer : Except Panic Stamp)
    (mishap : Bool) :
    (s.productive i mishap = true → (s.step i answer mishap).work < s.work) ∧
      (s.productive i mishap = false → (s.step i answer mishap).work = s.work) := by
  cases hc : s.calls[i]? with
  | none =>
      rw [productive, hc, step_of_none hc]
      exact ⟨(fun hp => by cases hp), fun _ => rfl⟩
  | some c =>
      have hmove := c.ask.move_work answer mishap (h.sound i c hc)
        (h.placed_of_call hc) h.ordered h.fits
      have hsum := sum_map_set (fun c : Call T => c.pc.left c.ask.values.length) hc
        { c with pc := (c.ask.move answer mishap s.arena c.pc).2 }
      rw [productive_of_call hc, work, work, arena_step hc, calls_step hc]
      simp only at hsum
      exact ⟨fun hp => by have := hmove.1 hp; omega, fun hp => by have := hmove.2 hp; omega⟩

theorem step_demand (s : Shared tgt T) (i : Nat) (answer : Except Panic Stamp) (mishap : Bool) :
    (s.step i answer mishap).demand ≤ s.demand := by
  cases hc : s.calls[i]? with
  | none =>
      rw [step_of_none hc]
  | some c =>
      have hmove := c.ask.move_demand answer mishap s.arena c.pc
      have hsum := sum_map_set (fun c : Call T => c.pc.pending c.ask.values.length) hc
        { c with pc := (c.ask.move answer mishap s.arena c.pc).2 }
      rw [demand, demand, arena_step hc, calls_step hc]
      simp only at hsum
      omega

/-- A call asks for no more than all of them. -/
theorem demand_of_call (hc : s.calls[i]? = some c) :
    s.arena.reserved + c.pc.pending c.ask.values.length ≤ s.demand := by
  -- compare with the calls in which this one asks for nothing
  have hsum := sum_map_set (fun c : Call T => c.pc.pending c.ask.values.length) hc
    { c with pc := .returned .done }
  have hnone : (Pc.returned .done : Pc T).pending c.ask.values.length = 0 := rfl
  rw [demand]
  simp only [hnone] at hsum
  omega

/-! ## Some call can go on -/

theorem GoesOn.of_productive (h : s.productive i false = true) (k : Nat) : s.GoesOn i k :=
  ⟨0, Nat.zero_le k, fun _ => h⟩

theorem GoesOn.of_step {k : Nat} {s' : Shared tgt T}
    (hstep : ∀ stamp, s.step i (.ok stamp) false = s') (h : s'.GoesOn i k) :
    s.GoesOn i (k + 1) := by
  obtain ⟨n, hn, hp⟩ := h
  refine ⟨n + 1, Nat.succ_le_succ hn, fun draws => ?_⟩
  rw [List.replicate_succ, schedule, hstep]
  exact hp _

theorem GoesOn.mono {k l : Nat} (h : s.GoesOn i k) (hkl : k ≤ l) : s.GoesOn i l := by
  obtain ⟨n, hn, hp⟩ := h
  exact ⟨n, Nat.le_trans hn hkl, hp⟩

/-- The call moves on, the arena stays. -/
theorem step_same (hc : s.calls[i]? = some c) {answer : Except Panic Stamp} {mishap : Bool}
    {pc : Pc T} (hmove : c.ask.move answer mishap s.arena c.pc = (s.arena, pc))
    (hpc : ∀ p, pc ≠ .unwound p) :
    s.step i answer mishap = { s with calls := s.calls.set i { c with pc := pc } } := by
  rw [step, hc]
  simp only [hmove]

/-- Reading `published` with the slot there filled, a call is soon past it. -/
theorem goesOn_loadPublished (hc : s.calls[i]? = some c) {stamp : Stamp} {start last : Nat}
    (hpc : c.pc = .loadPublished stamp start last)
    (hready : last < s.arena.published ∨ s.arena.published < tgt.usizeMax ∧
      s.arena.storage.slots s.arena.published ≠ none) :
    s.GoesOn i 2 := by
  obtain ⟨hi, _⟩ := List.getElem?_eq_some_iff.mp hc
  rcases Nat.lt_or_ge last s.arena.published with hlt | hge
  · refine GoesOn.of_productive ?_ 2
    rw [productive_of_call hc, hpc]
    exact decide_eq_true hlt
  · obtain ⟨hfit, hset⟩ := hready.resolve_left (Nat.not_lt.mpr hge)
    have hisSet : s.arena.storage.isSet s.arena.published = .ok true := by
      rw [ChunkedStorage.isSet_eq hfit, Option.isSome_iff_ne_none.mpr hset]
    -- the call loads `published`, finds the slot filled, and exchanges
    let c₁ : Call T := { c with pc := .isSet stamp start last s.arena.published }
    let c₂ : Call T := { c with pc := .advance stamp start last s.arena.published }
    have hstep₁ : ∀ st, s.step i (.ok st) false = { s with calls := s.calls.set i c₁ } := by
      refine fun st => step_same hc ?_ fun _ he => by cases he
      rw [hpc, Ask.move, if_neg (Nat.not_lt.mpr hge)]
    have hc₁ : ({ s with calls := s.calls.set i c₁ } : Shared tgt T).calls[i]? = some c₁ :=
      List.getElem?_set_self hi
    have hstep₂ : ∀ st, ({ s with calls := s.calls.set i c₁ } : Shared tgt T).step i (.ok st) false
        = { s with calls := (s.calls.set i c₁).set i c₂ } := by
      refine fun st => step_same hc₁ ?_ fun _ he => by cases he
      simp only [c₁, Ask.move, hisSet]
    have hc₂ : ({ s with calls := (s.calls.set i c₁).set i c₂ } : Shared tgt T).calls[i]?
        = some c₂ := List.getElem?_set_self (by rwa [List.length_set])
    refine GoesOn.of_step hstep₁ (GoesOn.of_step hstep₂ (GoesOn.of_productive ?_ 0))
    rw [productive_of_call hc₂]
    simp [c₂, Pc.productive]

theorem goesOn_advance (hc : s.calls[i]? = some c) {stamp : Stamp} {start last published : Nat}
    (hpc : c.pc = .advance stamp start last published)
    (hready : last < s.arena.published ∨ s.arena.published < tgt.usizeMax ∧
      s.arena.storage.slots s.arena.published ≠ none) :
    s.GoesOn i 3 := by
  obtain ⟨hi, _⟩ := List.getElem?_eq_some_iff.mp hc
  by_cases hp : s.arena.published = published
  · refine GoesOn.of_productive ?_ 3
    rw [productive_of_call hc, hpc]
    simp [Pc.productive, hp]
  · let c₁ : Call T := { c with pc := .loadPublished stamp start last }
    have hstep : ∀ st, s.step i (.ok st) false = { s with calls := s.calls.set i c₁ } := by
      refine fun st => step_same hc ?_ fun _ he => by cases he
      rw [hpc, Ask.move, if_neg fun h => hp h.1]
    have hc₁ : ({ s with calls := s.calls.set i c₁ } : Shared tgt T).calls[i]? = some c₁ :=
      List.getElem?_set_self hi
    exact GoesOn.of_step hstep (goesOn_loadPublished hc₁ rfl hready)

theorem goesOn_isSet (hc : s.calls[i]? = some c) {stamp : Stamp} {start last published : Nat}
    (hpc : c.pc = .isSet stamp start last published) (hfit : published < tgt.usizeMax)
    (hready : last < s.arena.published ∨ s.arena.published < tgt.usizeMax ∧
      s.arena.storage.slots s.arena.published ≠ none) :
    s.GoesOn i 4 := by
  obtain ⟨hi, _⟩ := List.getElem?_eq_some_iff.mp hc
  have hisSet : s.arena.storage.isSet published
      = .ok (s.arena.storage.slots published).isSome := ChunkedStorage.isSet_eq hfit
  cases hset : (s.arena.storage.slots published).isSome with
  | false =>
      let c₁ : Call T := { c with pc := .loadPublished stamp start last }
      have hstep : ∀ st, s.step i (.ok st) false = { s with calls := s.calls.set i c₁ } := by
        refine fun st => step_same hc ?_ fun _ he => by cases he
        rw [hpc, Ask.move, hisSet, hset]
      have hc₁ : ({ s with calls := s.calls.set i c₁ } : Shared tgt T).calls[i]? = some c₁ :=
        List.getElem?_set_self hi
      exact (GoesOn.of_step hstep (goesOn_loadPublished hc₁ rfl hready)).mono (Nat.le_succ 3)
  | true =>
      let c₁ : Call T := { c with pc := .advance stamp start last published }
      have hstep : ∀ st, s.step i (.ok st) false = { s with calls := s.calls.set i c₁ } := by
        refine fun st => step_same hc ?_ fun _ he => by cases he
        rw [hpc, Ask.move, hisSet, hset]
      have hc₁ : ({ s with calls := s.calls.set i c₁ } : Shared tgt T).calls[i]? = some c₁ :=
        List.getElem?_set_self hi
      exact GoesOn.of_step hstep (goesOn_advance hc₁ rfl hready)

/-- While every call waits for publication, the slot `published` points at is
filled, or the waiting call is done. -/
theorem Layout.ready (h : s.Layout items)
    (hset : ∀ (k : Nat) (d : Call T), s.calls[k]? = some d → d.pc.running = true →
      d.pc.waiting = true)
    {last start len : Nat} (hlast : last + 1 = start + len) (hle : start + len ≤ s.arena.reserved) :
    last < s.arena.published ∨ s.arena.published < tgt.usizeMax ∧
      s.arena.storage.slots s.arena.published ≠ none := by
  rcases Nat.lt_or_ge last s.arena.published with hlt | hge
  · exact .inl hlt
  · have hbelow : s.arena.published < s.arena.reserved := by omega
    obtain ⟨k, vs, q, ⟨d, hd, rfl, hr⟩, hq, hin⟩ := h.cover s.arena.published h.base hbelow
    have hslot := (h.placed k _ q ⟨d, hd, rfl, hr⟩).2.2 (s.arena.published - q.1) (by omega)
    rw [Nat.add_sub_cancel' hq] at hslot
    -- the call that owns the slot is past its last `set`
    have hfull : q.2 = d.ask.values.length := by
      have hwait := hset k d hd
      cases hpc : d.pc with
      | set stamp start offset =>
          rw [hpc] at hwait
          cases hwait rfl
      | returned reply =>
          rw [hpc] at hr
          cases reply with
          | idx i => cases hr; rfl
          | block b =>
              obtain ⟨stamp, -, rfl⟩ := Option.map_eq_some_iff.mp hr
              rfl
          | _ => cases hr
      | loadPublished stamp start last => rw [hpc] at hr; cases hr; rfl
      | isSet stamp start last published => rw [hpc] at hr; cases hr; rfl
      | advance stamp start last published => rw [hpc] at hr; cases hr; rfl
      | _ => rw [hpc] at hr; cases hr
    refine .inr ⟨Nat.lt_of_lt_of_le hbelow h.fits, ?_⟩
    rw [hslot, if_pos (by omega), List.getElem?_eq_getElem (by omega)]
    exact Option.some_ne_none _

/-- In every state some call that has not ended makes a productive step after at
most four idle ones, by itself. -/
theorem exists_productive (h : s.Layout items) (ha : s.Assigned) (hrun : s.quiet = false) :
    ∃ i, ∃ c : Call T, s.calls[i]? = some c ∧ c.pc.running = true ∧ s.GoesOn i 4 := by
  by_cases hset : ∀ (k : Nat) (d : Call T), s.calls[k]? = some d → d.pc.running = true →
      d.pc.waiting = true
  · obtain ⟨c, hmem, hc⟩ := List.all_eq_false.mp hrun
    have hc : c.pc.running = true := by simpa using hc
    obtain ⟨i, hi⟩ := List.mem_iff_getElem?.mp hmem
    refine ⟨i, c, hi, hc, ?_⟩
    have hwait := hset i c hi hc
    have hsound := h.sound i c hi
    have hplaced := h.placed_of_call hi
    cases hpc : c.pc with
    | reread use =>
        have hbirth : s.arena.identity.birth ≠ 0 := by
          have hag := ha.agree i c hi
          rwa [hpc] at hag
        have hcur : s.arena.identity.current ≠ 0 := by
          intro hz
          -- the winner is not waiting
          obtain ⟨k, d, hd, hs⟩ := ha.winner hbirth hz
          obtain ⟨use, fresh, hd'⟩ := Pc.storing_iff.mp hs
          have hw := hset k d hd (by rw [hd']; rfl)
          rw [hd'] at hw
          cases hw
        refine GoesOn.of_productive ?_ 4
        rw [productive_of_call hi, hpc]
        simpa [Pc.productive] using hcur
    | loadPublished stamp start last =>
        rw [hpc] at hsound hplaced
        have hready := h.ready hset hsound.1 (hplaced _ rfl).1
        exact (goesOn_loadPublished hi hpc hready).mono (Nat.le_add_left 2 2)
    | isSet stamp start last published =>
        rw [hpc] at hsound hplaced
        have hbelow := (hplaced _ rfl).1
        have hready := h.ready hset hsound.1 hbelow
        have hfit : published < tgt.usizeMax := by
          obtain ⟨hlast, -, hle⟩ := hsound
          have := h.fits
          simp only at hbelow
          omega
        exact goesOn_isSet hi hpc hfit hready
    | advance stamp start last published =>
        rw [hpc] at hsound hplaced
        have hready := h.ready hset hsound.1 (hplaced _ rfl).1
        exact (goesOn_advance hi hpc hready).mono (Nat.le_succ 3)
    | _ =>
        rw [hpc] at hwait
        cases hwait
  · push Not at hset
    obtain ⟨i, c, hi, hc, hwait⟩ := hset
    refine ⟨i, c, hi, hc, GoesOn.of_productive ?_ 4⟩
    rw [productive_of_call hi]
    exact Pc.productive_of_not_waiting _ _ hc hwait

/-! ## Running calls to their ends -/

/-- The call has not panicked. -/
def Fine (s : Shared tgt T) (k : Nat) : Prop :=
  ∃ c : Call T, s.calls[k]? = some c ∧ ∀ p, c.pc ≠ .unwound p

theorem Fine.step (hall : ∀ k, tgt.allocates k = true) (h : s.Layout items)
    (hroom : s.demand ≤ tgt.usizeMax) {k : Nat} (hk : s.Fine k) (i : Nat) (stamp : Stamp)
    (mishap : Bool) : (s.step i (.ok stamp) mishap).Fine k := by
  obtain ⟨c, hc, hfine⟩ := hk
  cases hi : s.calls[i]? with
  | none =>
      rw [step_of_none hi]
      exact ⟨c, hc, hfine⟩
  | some d =>
      by_cases hki : k = i
      · subst hki
        cases hi.symm.trans hc
        refine ⟨_, by rw [getElem?_step hc, if_pos rfl], fun p => ?_⟩
        cases hrun : c.pc.running with
        | true =>
            exact Ask.move_ne_unwound hall mishap hrun (h.sound k c hc) (h.placed_of_call hc)
              h.fits (Nat.le_trans (demand_of_call hc) hroom) p
        | false =>
            cases hpc : c.pc with
            | returned reply => exact fun he => by cases he
            | unwound q => exact absurd hpc (hfine q)
            | _ =>
                rw [hpc] at hrun
                cases hrun
      · exact ⟨c, by rw [getElem?_step hi, if_neg hki, hc], hfine⟩

/-- What a schedule keeps. -/
theorem Layout.schedule (hall : ∀ k, tgt.allocates k = true) (h : s.Layout items)
    (ha : s.Assigned) (draws : Nat → Stamp) (is : List Nat) :
    (s.schedule draws is).Layout items ∧ (s.schedule draws is).Assigned ∧
      (s.schedule draws is).work ≤ s.work ∧
      (s.demand ≤ tgt.usizeMax → ∀ k, s.Fine k → (s.schedule draws is).Fine k) := by
  induction is generalizing s draws with
  | nil => exact ⟨h, ha, Nat.le_refl _, fun _ _ hk => hk⟩
  | cons i is ih =>
      have hstep : (s.step i (.ok (draws 0)) false).Layout items :=
        h.step i (fun p hp => by cases hp) false (tgt.affords_all hall _)
      obtain ⟨hl, hag, hwork, hfine⟩ := ih hstep (ha.step i _ false) fun k => draws (k + 1)
      have hone : (s.step i (.ok (draws 0)) false).work ≤ s.work := by
        obtain ⟨hprod, hidle⟩ := h.step_work i (.ok (draws 0)) false
        cases hp : s.productive i false with
        | true => exact Nat.le_of_lt (hprod hp)
        | false => exact Nat.le_of_eq (hidle hp)
      refine ⟨hl, hag, Nat.le_trans hwork hone, fun hroom k hk => ?_⟩
      exact hfine (Nat.le_trans (step_demand s i _ false) hroom) k
        (hk.step hall h hroom i (draws 0) false)

/-- From every state all calls can be run to their ends.  The induction is on
the work left. -/
theorem exists_quiet (hall : ∀ k, tgt.allocates k = true) (h : s.Layout items) (ha : s.Assigned)
    (draws : Nat → Stamp) : ∃ is, (s.schedule draws is).quiet = true := by
  induction hw : s.work using Nat.strong_induction_on generalizing s draws with
  | _ w ih =>
      cases hq : s.quiet with
      | true => exact ⟨[], hq⟩
      | false =>
          obtain ⟨i, -, -, -, n, -, hprod⟩ := exists_productive h ha hq
          obtain ⟨hl, hag, hwork, -⟩ := h.schedule hall ha draws (List.replicate n i)
          have hlt := (hl.step_work i (.ok (draws n)) false).1 (hprod draws)
          have hstep : ((s.schedule draws (List.replicate n i)).step i (.ok (draws n)) false).Layout
              items := hl.step i (fun p hp => by cases hp) false (tgt.affords_all hall _)
          obtain ⟨is, his⟩ := ih _ (hw ▸ Nat.lt_of_lt_of_le hlt hwork) hstep
            (hag.step i _ false) (fun k => draws (k + 1 + n)) rfl
          refine ⟨List.replicate n i ++ i :: is, ?_⟩
          rw [schedule_append, List.length_replicate, Shared.schedule, Nat.zero_add]
          exact his

end Progress

/-- Whatever calls share an arena and however they interleave: one of those that
have not ended can go on by itself, productive steps use up the work there is and
idle steps do not add to it, so all calls can be run to their ends. -/
theorem publication_makes_progress (hall : ∀ k, tgt.allocates k = true) {a : SharedArena tgt T}
    {items : List T} (hidle : a.Holds items) (hset : a.Settled) (ls : List (Label T))
    (hls : ∀ l ∈ ls, l.Answered) :
    let s := (Shared.idle a).run ls
    (s.quiet = false → ∃ i, ∃ c : Call T, s.calls[i]? = some c ∧ c.pc.running = true ∧
      ∃ n ≤ 4, ∀ draws : Nat → Stamp,
        (s.schedule draws (List.replicate n i)).productive i false = true) ∧
    (∀ i answer mishap,
      (s.productive i mishap = true → (s.step i answer mishap).work < s.work) ∧
      (s.productive i mishap = false → (s.step i answer mishap).work = s.work)) ∧
    ∀ draws : Nat → Stamp, ∃ is : List Nat, (s.schedule draws is).quiet = true ∧
      (s.demand ≤ tgt.usizeMax → ∀ (k : Nat) (c : Call T), s.calls[k]? = some c →
        c.pc.running = true → ∃ (d : Call T) (reply : Reply T), (s.schedule draws is).calls[k]? = some d ∧
          d.pc = .returned reply) := by
  intro s
  have h : s.Layout items := (Layout.idle hidle).run hall hls
  have ha : s.Assigned := (Assigned.idle hset).run ls
  refine ⟨exists_productive h ha, fun i answer mishap => h.step_work i answer mishap, ?_⟩
  intro draws
  obtain ⟨is, hquiet⟩ := exists_quiet hall h ha draws
  refine ⟨is, hquiet, fun hroom k c hc hrun => ?_⟩
  have hfine : s.Fine k := ⟨c, hc, fun p hp => by rw [hp] at hrun; cases hrun⟩
  obtain ⟨d, hd, hnot⟩ := (h.schedule hall ha draws is).2.2.2 hroom k hfine
  have hended := List.all_eq_true.mp hquiet d (List.mem_of_getElem? hd)
  cases hpc : d.pc with
  | returned reply => exact ⟨d, reply, hd, hpc⟩
  | unwound p => exact absurd hpc (hnot p)
  | _ =>
      rw [hpc] at hended
      cases hended

/-- The second of two calls has filled its slot and waits for the first, which
has not. -/
theorem publication_makes_progress_waiting :
    let tgt : Target := ⟨8, fun _ => true⟩
    let ls : List (Label Nat) := [.start 0 (.alloc 7), .start 1 (.alloc 8)] ++
      [0, 0, 0, 0, 0, 0, 1, 1, 1, 1, 1].map fun i => .step i (.ok (.nth 0)) false
    ∃ is, ∃ (d : Call Nat) (reply : Reply Nat),
      (((idle (.new : SharedArena tgt Nat)).run ls).schedule Stamp.nth is).calls[1]? = some d ∧
        d.pc = .returned reply := by
  intro tgt ls
  have hls : ∀ l ∈ ls, l.Answered := by
    refine List.forall_mem_append.mpr ⟨?_, List.forall_mem_map.mpr fun i _ p hp => by cases hp⟩
    exact List.forall_mem_cons.mpr
      ⟨trivial, List.forall_mem_cons.mpr ⟨trivial, List.forall_mem_nil _⟩⟩
  have hall : ∀ k, tgt.allocates k = true := fun _ => rfl
  have hroom : ((idle (.new : SharedArena tgt Nat)).run ls).demand ≤ tgt.usizeMax := by
    decide +kernel
  obtain ⟨is, -, hreturn⟩ := (publication_makes_progress hall (SharedArena.Holds.new (T := Nat))
    .new ls hls).2.2 Stamp.nth
  have hwaits : (((idle (.new : SharedArena tgt Nat)).run ls).calls[1]?.any
      fun c => c.pc.running) = true := by
    decide +kernel
  obtain ⟨c, hc, hrun⟩ := (Option.any_eq_true _ _).mp hwaits
  exact ⟨is, hreturn hroom 1 c hc hrun⟩

end Shared

end SafeBump
