import SafeBump.Publication

/-!
# Turns

An allocation takes its turn when it reserves its range, or finds that there is no
room for it.  `Shared.turns` lists the calls of a run by their turns.  What a call gets
is settled at its turn (`Shared.Dealt`): filling, publishing and waiting add nothing to
it, whoever does them, so the values that are published are those of the calls in the
order of their turns (`Shared.Ordered.contents`).

A call takes its turn between its start and its end, so the order is one that the
callers cannot tell from their own (`Shared.turns_in_time`).
-/

namespace SafeBump

variable {tgt : Target} {T : Type}

/-! ## What a call gets -/

/-- What a call of `len` values got at its turn, if it has had it: the start of a range,
or no range. -/
def Pc.turn (len : Nat) : Pc T → Option (Option Nat)
  | .unwound .slotSpaceExhausted => some none
  | pc => (pc.range len).map fun q => some q.1

theorem Pc.turn_of_range {len : Nat} {pc : Pc T} {q : Nat × Nat} (h : pc.range len = some q) :
    pc.turn len = some (some q.1) := by
  cases pc with
  | unwound p => cases h
  | _ =>
      rw [turn]
      · rw [h]
        rfl
      · intro he
        cases he

section Move

variable {a : SharedArena tgt T} {len : Nat}

theorem Use.resume_turn (use : Use) (stamp : Stamp) :
    (use.resume stamp : Pc T).turn len = none := by
  cases use <;> rfl

theorem SharedIdentity.tailPc_turn (id : SharedIdentity) (n : Nat) :
    (id.tailPc n : Pc T).turn len = none := by
  cases n with
  | zero => rfl
  | succ slot =>
      rw [tailPc]
      split
      · rfl
      · split
        · rfl
        · split
          · rfl
          · split <;> rfl

theorem Ask.start_turn (ask : Ask T) : ask.start.turn ask.values.length = none := by
  cases ask with
  | alloc value => rfl
  | checkpoint => rfl
  | allocBlock values => cases values <;> rfl

/-- At its turn a call gets the next slots, or none if they do not fit. -/
theorem Ask.move_reserve {ask : Ask T} (stamp : Stamp) (answer : Except Panic Stamp)
    (mishap : Bool) (hpos : 0 < ask.values.length) :
    (ask.move answer mishap a (.reserve stamp)).2.turn ask.values.length
        = some (if a.reserved + ask.values.length ≤ tgt.usizeMax then some a.reserved else none) ∧
      (ask.move answer mishap a (.reserve stamp)).1.reserved
        = if a.reserved + ask.values.length ≤ tgt.usizeMax then a.reserved + ask.values.length
          else a.reserved := by
  rw [Ask.move]
  split
  · have hfull := Target.checkedAdd_eq_none.mp ‹_›
    rw [if_neg (Nat.not_le.mpr hfull), if_neg (Nat.not_le.mpr hfull)]
    exact ⟨rfl, rfl⟩
  · obtain ⟨hfit, rfl⟩ := Target.checkedAdd_eq_some.mp ‹_›
    rw [if_pos hfit, if_pos hfit]
    exact ⟨Pc.turn_of_range (fillPc_sound a stamp hpos (Nat.zero_le _) hfit).1, rfl⟩

/-- No other move is a turn, and none changes what the call got. -/
theorem Ask.move_turn {ask : Ask T} (answer : Except Panic Stamp)
    (hans : ∀ p, answer = .error p → p = .stampSpaceExhausted) (mishap : Bool) {pc : Pc T}
    (ha : tgt.Affords pc.filling) (h : pc.Sound ask.values.length a)
    (hin : ∀ r ∈ pc.range ask.values.length, Placed a ask.values r)
    (hfits : a.reserved ≤ tgt.usizeMax) (hpc : ∀ stamp, pc ≠ .reserve stamp) :
    (ask.move answer mishap a pc).2.turn ask.values.length = pc.turn ask.values.length ∧
      (ask.move answer mishap a pc).1.reserved = a.reserved := by
  cases pc with
  | reserve stamp => exact absurd rfl (hpc stamp)
  | loadLen => exact ⟨a.identity.tailPc_turn a.published, rfl⟩
  | load use =>
      rw [Ask.move]
      split
      · exact ⟨rfl, rfl⟩
      · exact ⟨use.resume_turn _, rfl⟩
  | draw use =>
      cases answer with
      | ok fresh => exact ⟨rfl, rfl⟩
      | error p =>
          cases hans p rfl
          exact ⟨rfl, rfl⟩
  | exchangeBirth use fresh => rw [Ask.move]; split <;> exact ⟨rfl, rfl⟩
  | storeCurrent use fresh => exact ⟨rfl, rfl⟩
  | reread use =>
      rw [Ask.move]
      split
      · exact ⟨rfl, rfl⟩
      · exact ⟨use.resume_turn _, rfl⟩
  | set stamp start offset =>
      have he := (Ask.move_effect answer hans mishap ha h hin hfits).1
      revert he
      generalize (ask.move answer mishap a (.set stamp start offset)).2 = pc'
      generalize hr : pc'.range ask.values.length = r
      generalize (ask.move answer mishap a (.set stamp start offset)).1 = a'
      intro he
      cases he with
      | quiet _ hres => exact ⟨Pc.turn_of_range hr, hres⟩
      | fills _ _ hres =>
          have ht := Pc.turn_of_range hr
          exact ⟨ht, hres⟩
      | publishes _ _ _ hres => exact ⟨Pc.turn_of_range hr, hres⟩
  | loadPublished stamp start last =>
      have hbelow : start + ask.values.length ≤ a.reserved := (hin _ rfl).1
      obtain ⟨hlast, hpos⟩ : last + 1 = start + ask.values.length ∧ 0 < ask.values.length := h
      rw [Ask.move]
      split
      · have hpub : last + 1 ≤ a.published := ‹_›
        have hdone := ask.finish_sound (a := a) stamp hpos (Nat.le_trans hbelow hfits)
          (hlast ▸ hpub)
        exact ⟨Pc.turn_of_range hdone.1, rfl⟩
      · exact ⟨rfl, rfl⟩
  | isSet stamp start last published =>
      have hbelow : start + ask.values.length ≤ a.reserved := (hin _ rfl).1
      obtain ⟨hlast, hpos, hle⟩ : last + 1 = start + ask.values.length ∧ 0 < ask.values.length ∧
        published ≤ last := h
      have hlt : published < tgt.usizeMax := by omega
      simp only [Ask.move, ChunkedStorage.isSet_eq hlt]
      cases a.storage.slots published <;> exact ⟨rfl, rfl⟩
  | advance stamp start last published => rw [Ask.move]; split <;> exact ⟨rfl, rfl⟩
  | returned reply => exact ⟨rfl, rfl⟩
  | unwound p => exact ⟨rfl, rfl⟩

end Move

/-! ## The order of the turns -/

namespace Shared

/-- The call that takes its turn in a step. -/
def turn (s : Shared tgt T) : Label T → List Nat
  | .start _ _ => []
  | .step i _ _ =>
      match s.calls[i]? with
      | some ⟨_, _, .reserve _⟩ => [i]
      | _ => []

/-- The calls that take their turn in a run, in order. -/
def turns : Shared tgt T → List (Label T) → List Nat
  | _, [] => []
  | s, l :: ls => s.turn l ++ turns (s.next l) ls

/-- The calls `order` took their turns one after the other, the first of them on the
list `log`, and left `log'`. -/
def Dealt (s : Shared tgt T) : List T → List Nat → List T → Prop
  | log, [], log' => log' = log
  | log, k :: order, log' =>
      ∃ c, s.calls[k]? = some c ∧ c.ask.values ≠ [] ∧
        if log.length + c.ask.values.length ≤ tgt.usizeMax then
          c.pc.turn c.ask.values.length = some (some log.length) ∧
            s.Dealt (log ++ c.ask.values) order log'
        else c.pc.turn c.ask.values.length = some none ∧ s.Dealt log order log'

section Turns

variable {s s' : Shared tgt T}

theorem turns_append (s : Shared tgt T) (ls ls' : List (Label T)) :
    s.turns (ls ++ ls') = s.turns ls ++ (s.run ls).turns ls' := by
  induction ls generalizing s with
  | nil => rfl
  | cons l ls ih => rw [List.cons_append, turns, turns, ih, run_cons, List.append_assoc]

theorem turn_step {i : Nat} {c : Call T} (hc : s.calls[i]? = some c) (answer : Except Panic Stamp)
    (mishap : Bool) :
    (∃ stamp, c.pc = .reserve stamp ∧ s.turn (.step i answer mishap) = [i]) ∨
      (∀ stamp, c.pc ≠ .reserve stamp) ∧ s.turn (.step i answer mishap) = [] := by
  obtain ⟨t, ask, pc⟩ := c
  rw [turn, hc]
  cases pc with
  | reserve stamp => exact .inl ⟨stamp, rfl, rfl⟩
  | _ => exact .inr ⟨(fun _ he => by cases he), rfl⟩

/-- The call that takes its turn is under way. -/
theorem mem_turn {l : Label T} {k : Nat} (h : k ∈ s.turn l) :
    ∃ c, s.calls[k]? = some c ∧ c.pc.running = true := by
  cases l with
  | start t ask => cases h
  | step i answer mishap =>
      cases hc : s.calls[i]? with
      | none =>
          rw [turn, hc] at h
          cases h
      | some c =>
          rcases turn_step hc answer mishap with ⟨stamp, hpc, ht⟩ | ⟨-, ht⟩
          · rw [ht] at h
            cases List.mem_singleton.mp h
            exact ⟨c, hc, by rw [hpc]; rfl⟩
          · rw [ht] at h
            cases h

/-- A call that is over stays as it is. -/
theorem next_of_over {k : Nat} {c : Call T} (hc : s.calls[k]? = some c)
    (hover : c.pc.running = false) (l : Label T) : (s.next l).calls[k]? = some c := by
  have hlt := (List.getElem?_eq_some_iff.mp hc).1
  cases l with
  | start t ask => rw [next, getElem?_start, if_neg (Nat.ne_of_lt hlt), hc]
  | step i answer mishap =>
      rw [next]
      cases hi : s.calls[i]? with
      | none => rw [step_of_none hi, hc]
      | some d =>
          rw [getElem?_step hi]
          split
          · rename_i heq
            subst heq
            cases hc.symm.trans hi
            obtain ⟨t, ask, pc⟩ := c
            cases pc with
            | returned reply => rfl
            | unwound p => rfl
            | _ => cases hover
          · exact hc

/-- Who takes a turn was not over before. -/
theorem not_mem_turns {k : Nat} {c : Call T} (hc : s.calls[k]? = some c)
    (hover : c.pc.running = false) (ls : List (Label T)) : k ∉ s.turns ls := by
  induction ls generalizing s with
  | nil => exact List.not_mem_nil
  | cons l ls ih =>
      rw [turns, List.mem_append, not_or]
      refine ⟨fun hk => ?_, ih (next_of_over hc hover l)⟩
      obtain ⟨d, hd, hrun⟩ := mem_turn hk
      cases hc.symm.trans hd
      cases hover.symm.trans hrun

theorem length_calls_next (s : Shared tgt T) (l : Label T) :
    s.calls.length ≤ (s.next l).calls.length := by
  cases l with
  | start t ask => exact Nat.le_of_lt (by simp [next, Shared.start])
  | step i answer mishap =>
      rw [next]
      cases hi : s.calls[i]? with
      | none => rw [step_of_none hi]
      | some c => rw [calls_step hi, List.length_set]

theorem length_calls_run (s : Shared tgt T) (ls : List (Label T)) :
    s.calls.length ≤ (s.run ls).calls.length := by
  induction ls generalizing s with
  | nil => exact Nat.le_refl _
  | cons l ls ih => exact Nat.le_trans (s.length_calls_next l) (ih _)

/-- Who took a turn was started before. -/
theorem lt_of_mem_turns {k : Nat} {ls : List (Label T)} (h : k ∈ s.turns ls) :
    k < (s.run ls).calls.length := by
  induction ls generalizing s with
  | nil => cases h
  | cons l ls ih =>
      rcases List.mem_append.mp h with hk | hk
      · obtain ⟨c, hc, -⟩ := mem_turn hk
        have hlt := (List.getElem?_eq_some_iff.mp hc).1
        exact Nat.lt_of_lt_of_le hlt (s.length_calls_run (l :: ls))
      · exact ih hk

/-- A call that is over before another one starts takes its turn before it. -/
theorem turns_in_time (s : Shared tgt T) (ls ls' : List (Label T)) {j k : Nat} {c : Call T}
    (hc : (s.run ls).calls[j]? = some c) (hover : c.pc.running = false)
    (hk : (s.run ls).calls.length ≤ k) (hj' : j ∈ s.turns (ls ++ ls'))
    (hk' : k ∈ s.turns (ls ++ ls')) : [j, k].Sublist (s.turns (ls ++ ls')) := by
  rw [turns_append] at hj' hk' ⊢
  have hj : j ∈ s.turns ls :=
    (List.mem_append.mp hj').resolve_right (not_mem_turns hc hover ls')
  have hk : k ∈ (s.run ls).turns ls' := by
    refine (List.mem_append.mp hk').resolve_left fun hin => ?_
    exact Nat.not_lt.mpr hk (lt_of_mem_turns hin)
  exact (List.singleton_sublist.mpr hj).append (List.singleton_sublist.mpr hk)

end Turns

section Dealt

variable {s s' : Shared tgt T} {log log' log'' : List T} {order order' : List Nat}

theorem Dealt.append (h : s.Dealt log order log') (h' : s.Dealt log' order' log'') :
    s.Dealt log (order ++ order') log'' := by
  induction order generalizing log with
  | nil =>
      have heq : log' = log := h
      exact heq ▸ h'
  | cons k order ih =>
      obtain ⟨c, hc, hne, hrest⟩ := h
      refine ⟨c, hc, hne, ?_⟩
      split at hrest
      · rw [if_pos ‹_›]
        exact ⟨hrest.1, ih hrest.2⟩
      · rw [if_neg ‹_›]
        exact ⟨hrest.1, ih hrest.2⟩

/-- What the calls got stays theirs. -/
theorem Dealt.kept (h : s.Dealt log order log')
    (hkept : ∀ k ∈ order, ∀ c, s.calls[k]? = some c → ∃ c', s'.calls[k]? = some c' ∧
      c'.ask = c.ask ∧ c'.pc.turn c'.ask.values.length = c.pc.turn c.ask.values.length) :
    s'.Dealt log order log' := by
  induction order generalizing log with
  | nil => exact h
  | cons k order ih =>
      obtain ⟨c, hc, hne, hrest⟩ := h
      obtain ⟨c', hc', hask, hturn⟩ := hkept k List.mem_cons_self c hc
      have htail := fun j hj => hkept j (List.mem_cons_of_mem k hj)
      refine ⟨c', hc', hask ▸ hne, ?_⟩
      rw [hturn, hask]
      split at hrest
      · rw [if_pos ‹_›]
        exact ⟨hrest.1, ih hrest.2 htail⟩
      · rw [if_neg ‹_›]
        exact ⟨hrest.1, ih hrest.2 htail⟩

theorem Dealt.isPrefix (h : s.Dealt log order log') : log <+: log' := by
  induction order generalizing log with
  | nil =>
      have heq : log' = log := h
      exact heq ▸ List.prefix_refl _
  | cons k order ih =>
      obtain ⟨c, hc, hne, hrest⟩ := h
      split at hrest
      · exact (List.prefix_append _ _).trans (ih hrest.2)
      · exact ih hrest.2

/-- A call that took its turn has its values where its range says. -/
theorem Dealt.values (h : s.Dealt log order log') {k : Nat} (hk : k ∈ order) :
    ∃ c, s.calls[k]? = some c ∧ c.ask.values ≠ [] ∧ c.pc.turn c.ask.values.length ≠ none ∧
      ∀ start, c.pc.turn c.ask.values.length = some (some start) →
        ∀ o < c.ask.values.length, log'[start + o]? = c.ask.values[o]? := by
  induction order generalizing log with
  | nil => cases hk
  | cons j order ih =>
      obtain ⟨c, hc, hne, hrest⟩ := h
      rcases List.mem_cons.mp hk with rfl | hk
      · refine ⟨c, hc, hne, ?_⟩
        split at hrest
        · obtain ⟨hturn, hrest⟩ := hrest
          rw [hturn]
          refine ⟨Option.some_ne_none _, ?_⟩
          rintro _ ⟨⟩ o ho
          have hlt : log.length + o < (log ++ c.ask.values).length := by
            rw [List.length_append]
            exact Nat.add_lt_add_left ho _
          rw [List.prefix_iff_getElem?.mp hrest.isPrefix _ hlt, ← List.getElem?_eq_getElem hlt,
            List.getElem?_append_right (Nat.le_add_right _ _), Nat.add_sub_cancel_left]
        · rw [hrest.1]
          exact ⟨Option.some_ne_none _, by rintro _ ⟨⟩⟩
      · split at hrest
        · exact ih hrest.2 hk
        · exact ih hrest.2 hk

/-- The calls that took their turns, and what they left of the list `items`. -/
structure Ordered (items : List T) (order : List Nat) (log : List T) (s : Shared tgt T) :
    Prop where
  nodup : order.Nodup
  dealt : s.Dealt items order log
  reserved : s.arena.reserved = log.length
  complete : ∀ (k : Nat) (c : Call T), s.calls[k]? = some c →
    c.pc.turn c.ask.values.length ≠ none → k ∈ order

section Ordered

variable {items : List T}

theorem Ordered.idle {a : SharedArena tgt T} (h : a.Holds items) :
    (Shared.idle a).Ordered items [] items where
  nodup := List.nodup_nil
  dealt := rfl
  reserved := h.reserved
  complete := fun _ _ hc => by cases hc

theorem Ordered.start (h : s.Ordered items order log) (t : ThreadId) (ask : Ask T) :
    (s.start t ask).Ordered items order log where
  nodup := h.nodup
  dealt := by
    refine h.dealt.kept fun k _ c hc => ⟨c, ?_, rfl, rfl⟩
    have hlt := (List.getElem?_eq_some_iff.mp hc).1
    rw [getElem?_start, if_neg (Nat.ne_of_lt hlt), hc]
  reserved := h.reserved
  complete := by
    intro k c hc hturn
    rw [getElem?_start] at hc
    split at hc
    · cases hc
      exact absurd ask.start_turn hturn
    · exact h.complete k c hc hturn

/-- A step is the turn of its call, or changes nothing of what the calls got. -/
theorem Ordered.step (h : s.Ordered items order log) (hl : s.Layout items) (i : Nat)
    {answer : Except Panic Stamp} (hans : ∀ p, answer = .error p → p = .stampSpaceExhausted)
    (mishap : Bool) (ha : tgt.Affords (s.filling i)) :
    ∃ log', (s.step i answer mishap).Ordered items
      (order ++ s.turn (.step i answer mishap)) log' := by
  cases hc : s.calls[i]? with
  | none =>
      rw [step_of_none hc, turn, hc, List.append_nil]
      exact ⟨log, h⟩
  | some c =>
      have hself : (s.step i answer mishap).calls[i]? = some
          { c with pc := (c.ask.move answer mishap s.arena c.pc).2 } := by
        rw [getElem?_step hc, if_pos rfl]
      have hother : ∀ k, k ≠ i → (s.step i answer mishap).calls[k]? = s.calls[k]? := by
        intro k hk
        rw [getElem?_step hc, if_neg hk]
      rcases turn_step hc answer mishap with ⟨stamp, hpc, hturn⟩ | ⟨hpc, hturn⟩
      · have hpos : 0 < c.ask.values.length := by
          have hs := hl.sound i c hc
          rw [hpc] at hs
          exact hs
        -- it had no turn before
        have hnew : i ∉ order := by
          intro hi
          obtain ⟨d, hd, -, hne, -⟩ := h.dealt.values hi
          cases hc.symm.trans hd
          rw [hpc] at hne
          exact hne rfl
        have hmove := Ask.move_reserve (a := s.arena) stamp answer mishap hpos
        rw [← hpc] at hmove
        have hdealt : (s.step i answer mishap).Dealt items order log := by
          refine h.dealt.kept fun k hk d hd => ⟨d, ?_, rfl, rfl⟩
          rw [hother k fun he => hnew (he ▸ hk), hd]
        have hnodup : (order ++ [i]).Nodup :=
          List.nodup_append.mpr ⟨h.nodup, List.nodup_singleton i, by
            rintro k hk _ hi rfl
            exact hnew (List.mem_singleton.mp hi ▸ hk)⟩
        have hcomplete : ∀ (k : Nat) (d : Call T), (s.step i answer mishap).calls[k]? = some d →
            d.pc.turn d.ask.values.length ≠ none → k ∈ order ++ [i] := by
          intro k d hd hne
          by_cases hk : k = i
          · exact List.mem_append_right _ (List.mem_singleton.mpr hk)
          · exact List.mem_append_left _ (h.complete k d ((hother k hk).symm.trans hd) hne)
        rw [hturn]
        rw [h.reserved] at hmove
        have hlast : (s.step i answer mishap).Dealt log [i]
            (if log.length + c.ask.values.length ≤ tgt.usizeMax then log ++ c.ask.values
              else log) := by
          refine ⟨_, hself, List.length_pos_iff.mp hpos, ?_⟩
          split
          · rw [if_pos ‹_›] at hmove
            exact ⟨hmove.1, rfl⟩
          · rw [if_neg ‹_›] at hmove
            exact ⟨hmove.1, rfl⟩
        refine ⟨_, hnodup, hdealt.append hlast, ?_, hcomplete⟩
        rw [arena_step hc, hmove.2]
        split
        · rw [List.length_append]
        · rfl
      · have hmove := Ask.move_turn (a := s.arena) answer hans mishap (filling_of_call hc ▸ ha)
          (hl.sound i c hc) (fun r hr => (hl.placed i _ r
            ((reserved_of_call hc _ _).mpr ⟨rfl, hr⟩)).2) hl.fits hpc
        rw [hturn, List.append_nil]
        refine ⟨log, h.nodup, h.dealt.kept fun k _ d hd => ?_, ?_, fun k d hd hne => ?_⟩
        · by_cases hk : k = i
          · subst hk
            cases hc.symm.trans hd
            exact ⟨_, hself, rfl, hmove.1⟩
          · exact ⟨d, (hother k hk).trans hd, rfl, rfl⟩
        · rw [arena_step hc, hmove.2, h.reserved]
        · by_cases hk : k = i
          · subst hk
            cases hself.symm.trans hd
            exact h.complete k c hc fun he => hne (hmove.1.trans he)
          · exact h.complete k d ((hother k hk).symm.trans hd) hne

theorem Ordered.next (hall : ∀ k, tgt.allocates k = true) (h : s.Ordered items order log)
    (hl : s.Layout items) {l : Label T} (hans : l.Answered) :
    ∃ log', (s.next l).Ordered items (order ++ s.turn l) log' := by
  cases l with
  | start t ask =>
      rw [turn, List.append_nil]
      exact ⟨log, h.start t ask⟩
  | step i answer mishap => exact h.step hl i hans mishap (tgt.affords_all hall _)

theorem Ordered.run (hall : ∀ k, tgt.allocates k = true) (h : s.Ordered items order log)
    (hl : s.Layout items) {ls : List (Label T)} (hls : ∀ l ∈ ls, l.Answered) :
    ∃ log', (s.run ls).Ordered items (order ++ s.turns ls) log' := by
  induction ls generalizing s order log with
  | nil =>
      rw [turns, List.append_nil]
      exact ⟨log, h⟩
  | cons l ls ih =>
      obtain ⟨hl', hls⟩ := List.forall_mem_cons.mp hls
      obtain ⟨log', h'⟩ := h.next hall hl hl'
      rw [turns, ← List.append_assoc]
      exact ih h' (hl.next hall hl') hls

/-- What is published is there in order. -/
theorem Ordered.contents (h : s.Ordered items order log) (hl : s.Layout items) :
    s.arena.contents <+: log := by
  refine List.prefix_iff_getElem?.mpr fun slot hlt => ?_
  have hget := SharedArena.getElem?_contents hl.set slot
  rw [List.getElem?_eq_getElem hlt] at hget
  rw [SharedArena.length_contents hl.set] at hlt
  rw [if_pos hlt] at hget
  rw [hget]
  rcases Nat.lt_or_ge slot items.length with hold | hnew
  · rw [List.prefix_iff_getElem?.mp h.dealt.isPrefix slot hold, hl.old slot hold,
      List.getElem?_eq_getElem hold]
  · obtain ⟨k, vs, q, ⟨c, hc, rfl, hr⟩, hle, hin, hslot⟩ := hl.owner hnew hlt
    have hturn := Pc.turn_of_range hr
    have hk : k ∈ order := h.complete k c hc (hturn ▸ Option.some_ne_none _)
    obtain ⟨d, hd, -, -, hvalues⟩ := h.dealt.values hk
    cases hc.symm.trans hd
    have hv := hvalues _ hturn (slot - q.1) (by omega)
    rw [Nat.add_sub_cancel' hle] at hv
    rw [hslot, hv]

end Ordered

end Dealt

end Shared

end SafeBump
