import SafeBump.Assignment
import SafeBump.Capabilities
import SafeBump.Supply
import SafeBump.World

/-!
# Where the stamps in circulation come from

A call under way carries stamps too.  It got them from its arena, or drew them
itself; a stamp it drew and has not offered yet it only holds (`Pc.held`), and goes
on to carry when it wins the race for `birth` with it (`Ask.move_carried`).  So in a
process where everything stored and carried is allowed, it stays so unless a stamp
that is not allowed wins a race (`World.Supplied.step`).

Two readings of "allowed" are of use.  Everything stored or carried was drawn
before, so a stamp fresh from the source is found nowhere else
(`World.Traced.step`).  And a stamp that is found nowhere, and held only where the
race is over, is never seen again (`World.Buried.run`).
-/

namespace SafeBump

open Library.Unwind

variable {tgt : Target} {T : Type}

/-! ## Calls -/

/-- The stamp a call has drawn and not offered yet. -/
def Pc.held : Pc T → Option Stamp
  | .exchangeBirth _ fresh => some fresh
  | _ => none

theorem SharedIdentity.tailPc_held (id : SharedIdentity) (len : Nat) :
    (id.tailPc len : Pc T).held = none := by
  cases len with
  | zero => rfl
  | succ slot =>
      rw [tailPc]
      split
      · rfl
      · split
        · rfl
        · split
          · rfl
          · split <;> rfl

theorem fillPc_held (values : List T) (stamp : Stamp) (start offset : Nat) :
    (fillPc tgt values stamp start offset).held = none := by
  rw [fillPc]
  split
  · rfl
  · split <;> rfl

/-- A call holds the stamp it has just drawn, for one step. -/
theorem Ask.move_held {ask : Ask T} {answer : Except Panic Stamp} {mishap : Bool}
    {a : SharedArena tgt T} {pc : Pc T} {s : Stamp}
    (h : (ask.move answer mishap a pc).2.held = some s) :
    ∃ use, pc = .draw use ∧ answer = .ok s := by
  cases pc with
  | draw use =>
      cases answer with
      | error p => cases h
      | ok fresh =>
          cases h
          exact ⟨use, rfl, rfl⟩
  | loadLen => rw [Ask.move, SharedIdentity.tailPc_held] at h; cases h
  | load use =>
      rw [Ask.move] at h
      split at h
      · cases h
      · cases use <;> cases h
  | exchangeBirth use fresh => rw [Ask.move] at h; split at h <;> cases h
  | storeCurrent use fresh => cases h
  | reread use =>
      rw [Ask.move] at h
      split at h
      · cases h
      · cases use <;> cases h
  | reserve stamp =>
      rw [Ask.move] at h
      split at h
      · cases h
      · simp only [fillPc_held] at h
        cases h
  | set stamp start offset =>
      rw [Ask.move] at h
      split at h
      · simp only [fillPc_held] at h
        cases h
      · split at h
        · cases h
        · split at h
          · cases h
          · cases h
          · simp only [fillPc_held] at h
            cases h
  | loadPublished stamp start last =>
      rw [Ask.move] at h
      split at h
      · rw [Ask.finish.eq_def] at h
        split at h
        · split at h <;> cases h
        · cases h
      · cases h
  | isSet stamp start last published => rw [Ask.move] at h; split at h <;> cases h
  | advance stamp start last published => rw [Ask.move] at h; split at h <;> cases h
  | returned reply => cases h
  | unwound p => cases h

namespace Shared

/-- The stamps drawn by calls that have not offered them yet. -/
def held (s : Shared tgt T) : List Stamp := s.calls.filterMap fun c => c.pc.held

theorem mem_held {s : Shared tgt T} {stamp : Stamp} :
    stamp ∈ s.held ↔ ∃ (k : Nat) (c : Call T), s.calls[k]? = some c ∧ c.pc.held = some stamp := by
  rw [held, List.mem_filterMap]
  constructor
  · rintro ⟨c, hc, hs⟩
    obtain ⟨k, hk⟩ := List.mem_iff_getElem?.mp hc
    exact ⟨k, c, hk, hs⟩
  · rintro ⟨k, c, hk, hs⟩
    exact ⟨c, List.mem_of_getElem? hk, hs⟩

theorem held_start (s : Shared tgt T) (t : ThreadId) (ask : Ask T) :
    (s.start t ask).held = s.held := by
  have hnone : ask.start.held = none := by
    cases ask with
    | alloc value => rfl
    | checkpoint => rfl
    | allocBlock values => cases values <;> rfl
  simp [held, Shared.start, List.filterMap_append, hnone]

end Shared

/-- The stamps a call keeps for later while it wants another. -/
def Use.carried : Use → List Stamp
  | .owner _ last => last.toList
  | _ => []

/-- The stamps a call has got.  One it has drawn and not offered yet is not among them. -/
def Pc.carried : Pc T → List Stamp
  | .load use | .draw use | .exchangeBirth use _ | .reread use => use.carried
  | .storeCurrent use fresh => fresh :: use.carried
  | .reserve stamp | .set stamp _ _ | .loadPublished stamp _ _ | .isSet stamp _ _ _
  | .advance stamp _ _ _ => [stamp]
  | .returned reply => reply.carried
  | .loadLen | .unwound _ => []

theorem Use.resume_carried {use : Use} {stamp x : Stamp} :
    x ∈ (use.resume stamp : Pc T).carried ↔ x = stamp ∨ x ∈ use.carried := by
  cases use with
  | range => simp [Use.resume, Pc.carried, Use.carried]
  | tail len => simp [Use.resume, Pc.carried, Use.carried]
  | birthTail len => simp [Use.resume, Pc.carried, Use.carried]
  | owner len last => simp [Use.resume, Pc.carried, Use.carried, Reply.carried, Checkpoint.stamps]

theorem SharedIdentity.tailPc_carried {id : SharedIdentity} {len : Nat} {x : Stamp}
    (h : x ∈ (id.tailPc len : Pc T).carried) : x ∈ id.stamps := by
  cases len with
  | zero => cases h
  | succ slot =>
      rw [tailPc] at h
      split at h
      · cases h
      · split at h
        · exact mem_stamps.mpr (.inr (.inr (.inl ⟨by omega, List.mem_singleton.mp h⟩)))
        · split at h
          · cases h
          · rename_i table ht
            split at h
            · cases h
            · rename_i stamp hcover
              rw [List.mem_singleton.mp h]
              refine mem_stamps.mpr (.inr (.inr (.inr ?_)))
              rw [ht]
              exact Identity.coveringStamp_mem hcover

theorem fillPc_carried {values : List T} {stamp x : Stamp} {start offset : Nat}
    (h : x ∈ (fillPc tgt values stamp start offset).carried) : x = stamp := by
  rw [fillPc] at h
  split at h
  · exact List.mem_singleton.mp h
  · split at h
    · cases h
    · exact List.mem_singleton.mp h

theorem Ask.finish_carried {ask : Ask T} {stamp x : Stamp} {start : Nat}
    (h : x ∈ (ask.finish tgt stamp start).carried) : x = stamp := by
  cases ask with
  | alloc value => exact List.mem_singleton.mp h
  | checkpoint => exact List.mem_singleton.mp h
  | allocBlock values =>
      rw [Ask.finish] at h
      split at h
      · rename_i block hb
        cases Block.of_new hb
        exact List.mem_singleton.mp h
      · cases h

theorem Ask.start_carried (ask : Ask T) : ask.start.carried = [] ∧ ask.start.held = none := by
  cases ask with
  | alloc value => exact ⟨rfl, rfl⟩
  | checkpoint => exact ⟨rfl, rfl⟩
  | allocBlock values => cases values <;> exact ⟨rfl, rfl⟩

section Move

variable {ask : Ask T} {answer : Except Panic Stamp} {mishap : Bool} {a : SharedArena tgt T}
  {pc : Pc T} {x : Stamp}

/-- What the arena stores after a move. -/
theorem Ask.move_stamps (h : x ∈ (ask.move answer mishap a pc).1.identity.stamps) :
    x ∈ a.identity.stamps ∨ x ∈ pc.carried ∨ pc.held = some x ∧ a.identity.birth = 0 := by
  rcases ask.move_identity answer mishap a pc with
    ⟨hid, -, -⟩ | ⟨use, fresh, rfl, hzero, hmove⟩ | ⟨use, fresh, rfl, hmove⟩
  · rw [hid] at h
    exact .inl h
  · rw [hmove, SharedIdentity.mem_stamps] at h
    rcases h with h | h
    · cases Stamp.get_inj.mp h
      exact .inr (.inr ⟨rfl, hzero⟩)
    · exact .inl (SharedIdentity.mem_stamps.mpr (.inr h))
  · rw [hmove, SharedIdentity.mem_stamps] at h
    rcases h with h | h | h
    · exact .inl (SharedIdentity.mem_stamps.mpr (.inl h))
    · cases Stamp.get_inj.mp h
      exact .inr (.inl List.mem_cons_self)
    · exact .inl (SharedIdentity.mem_stamps.mpr (.inr (.inr h)))

/-- What the call carries after a move. -/
theorem Ask.move_carried (h : x ∈ (ask.move answer mishap a pc).2.carried) :
    x ∈ a.identity.stamps ∨ x ∈ pc.carried ∨ pc.held = some x ∧ a.identity.birth = 0 := by
  have hword : ∀ {raw : Nat} (hne : raw ≠ 0), raw = a.identity.birth ∨ raw = a.identity.current →
      (⟨raw, hne⟩ : Stamp) ∈ a.identity.stamps :=
    fun hne hraw => SharedIdentity.mem_stamps.mpr (hraw.imp id .inl)
  cases pc with
  | loadLen => exact .inl (SharedIdentity.tailPc_carried h)
  | load use =>
      rw [Ask.move] at h
      split at h
      · exact .inr (.inl h)
      · rcases Use.resume_carried.mp h with rfl | h
        · refine .inl (hword ‹_› ?_)
          cases use <;> first | exact .inl rfl | exact .inr rfl
        · exact .inr (.inl h)
  | draw use =>
      cases answer with
      | error p => cases h
      | ok fresh => exact .inr (.inl h)
  | exchangeBirth use fresh =>
      rw [Ask.move] at h
      split at h
      · rcases List.mem_cons.mp h with rfl | h
        · exact .inr (.inr ⟨rfl, ‹_›⟩)
        · exact .inr (.inl h)
      · exact .inr (.inl h)
  | storeCurrent use fresh => exact .inr (.inl (List.mem_cons_of_mem _ h))
  | reread use =>
      rw [Ask.move] at h
      split at h
      · exact .inr (.inl h)
      · rcases Use.resume_carried.mp h with rfl | h
        · exact .inl (hword ‹_› (.inr rfl))
        · exact .inr (.inl h)
  | reserve stamp =>
      rw [Ask.move] at h
      split at h
      · cases h
      · rw [fillPc_carried h]
        exact .inr (.inl List.mem_cons_self)
  | set stamp start offset =>
      have hfill : ∀ {k : Nat}, x ∈ (fillPc tgt ask.values stamp start k).carried →
          x ∈ (Pc.set stamp start offset : Pc T).carried :=
        fun h => List.mem_singleton.mpr (fillPc_carried h)
      rw [Ask.move] at h
      split at h
      · exact .inr (.inl (hfill h))
      · split at h
        · cases h
        · split at h
          · cases h
          · cases h
          · exact .inr (.inl (hfill h))
  | loadPublished stamp start last =>
      rw [Ask.move] at h
      split at h
      · rw [Ask.finish_carried h]
        exact .inr (.inl List.mem_cons_self)
      · exact .inr (.inl h)
  | isSet stamp start last published =>
      rw [Ask.move] at h
      split at h
      · cases h
      · exact .inr (.inl h)
      · exact .inr (.inl h)
  | advance stamp start last published =>
      rw [Ask.move] at h
      split at h <;> exact .inr (.inl h)
  | returned reply => exact .inr (.inl h)
  | unwound p => cases h

end Move

/-! ## Processes -/

namespace World

/-- What is stored and carried in the process is allowed. -/
structure Supplied (A : StampSpace → Prop) (S : StampSpace → Stamp → Prop) (w : World tgt T) :
    Prop where
  space : A w.process.stamps
  singles : ∀ n, ∀ x ∈ (w.process.arenas n).stamps, S w.process.stamps x
  shareds : ∀ n, ∀ x ∈ (w.shareds n).arena.identity.stamps, S w.process.stamps x
  calls : ∀ n, ∀ c ∈ (w.shareds n).calls, ∀ x ∈ c.pc.carried, S w.process.stamps x

/-- The stamps of a process keep to what is allowed. -/
structure Rations (A : StampSpace → Prop) (S : StampSpace → Stamp → Prop) : Prop where
  fresh : ∀ t, Supplies (StampSpace.fresh t) A S
  exit : ∀ {sp} t, A sp → A (sp.exit t)
  mono : ∀ {sp x} t, A sp → S sp x → S (sp.exit t) x

/-- The stamp that wins a race in an event. -/
def wins (w : World tgt T) : Event T → Option Stamp
  | .step n i _ =>
      match (w.shareds n).calls[i]? with
      | some c => if (w.shareds n).arena.identity.birth = 0 then c.pc.held else none
      | none => none
  | _ => none

section Supplied

variable {A A' : StampSpace → Prop} {S S' : StampSpace → Stamp → Prop} {w : World tgt T}

/-- The allowance carries over to a process with other stamps and one arena changed. -/
theorem Supplied.put (h : w.Supplied A S) {n : Nat} {sp : StampSpace} {s : Shared tgt T}
    (hA : A' sp) (hS : ∀ x, S w.process.stamps x → S' sp x)
    (harena : ∀ x ∈ s.arena.identity.stamps, S' sp x)
    (hcalls : ∀ c ∈ s.calls, ∀ x ∈ c.pc.carried, S' sp x) : (w.put n sp s).Supplied A' S' where
  space := hA
  singles := fun m x hx => hS x (h.singles m x hx)
  shareds := by
    intro m
    rcases eq_or_ne m n with rfl | hne
    · rw [shareds_put_self]
      exact harena
    · rw [shareds_put_of_ne _ hne]
      exact fun x hx => hS x (h.shareds m x hx)
  calls := by
    intro m
    rcases eq_or_ne m n with rfl | hne
    · rw [shareds_put_self]
      exact hcalls
    · rw [shareds_put_of_ne _ hne]
      exact fun c hc x hx => hS x (h.calls m c hc x hx)

/-- A step of a call brings into circulation the stamp it wins with, if it wins. -/
theorem Supplied.step_call (h : w.Supplied A S) {n i : Nat} {c : Call T}
    (hc : (w.shareds n).calls[i]? = some c) (answer : Except Panic Stamp) (mishap : Bool)
    {sp : StampSpace} (hA : A' sp) (hS : ∀ x, S w.process.stamps x → S' sp x)
    (hwin : ∀ x, c.pc.held = some x → (w.shareds n).arena.identity.birth = 0 → S' sp x) :
    (w.put n sp ((w.shareds n).step i answer mishap)).Supplied A' S' := by
  have hmem := List.mem_of_getElem? hc
  have hallowed : ∀ x, x ∈ (w.shareds n).arena.identity.stamps ∨ x ∈ c.pc.carried ∨
      c.pc.held = some x ∧ (w.shareds n).arena.identity.birth = 0 → S' sp x := by
    rintro x (hx | hx | ⟨hx, hzero⟩)
    · exact hS x (h.shareds n x hx)
    · exact hS x (h.calls n c hmem x hx)
    · exact hwin x hx hzero
  refine h.put hA hS (fun x hx => ?_) fun d hd x hx => ?_
  · rw [Shared.arena_step hc] at hx
    exact hallowed x (Ask.move_stamps hx)
  · obtain ⟨k, hk⟩ := List.mem_iff_getElem?.mp hd
    rw [Shared.getElem?_step hc] at hk
    split at hk
    · cases hk
      exact hallowed x (Ask.move_carried hx)
    · exact hS x (h.calls n d (List.mem_of_getElem? hk) x hx)

/-- A call on a single-thread arena. -/
theorem Supplied.put_single (h : w.Supplied A S) {n : Nat} {c : Ctx (Arena T) StampSpace T}
    (hc : Stocked Arena.stamps A S c) (hmono : ∀ x, S w.process.stamps x → S c.source x) :
    ({ w with process := w.process.put n c } : World tgt T).Supplied A S where
  space := hc.1
  singles := by
    intro m
    rcases eq_or_ne m n with rfl | hne
    · rw [Process.arenas_put_self]
      exact hc.2
    · rw [Process.arenas_put_of_ne _ hne]
      exact fun x hx => hmono x (h.singles m x hx)
  shareds := fun m x hx => hmono x (h.shareds m x hx)
  calls := fun m d hd x hx => hmono x (h.calls m d hd x hx)

/-- The stamps moved on, and nothing else. -/
theorem Supplied.stamps (h : w.Supplied A S) {sp : StampSpace} (hA : A sp)
    (hmono : ∀ x, S w.process.stamps x → S sp x) :
    ({ w with process := { w.process with stamps := sp } } : World tgt T).Supplied A S where
  space := hA
  singles := fun m x hx => hmono x (h.singles m x hx)
  shareds := fun m x hx => hmono x (h.shareds m x hx)
  calls := fun m d hd x hx => hmono x (h.calls m d hd x hx)

theorem Rations.answer (hr : Rations A S) (hA : A w.process.stamps) (c : Call T) :
    A (w.answer c).2 ∧ ∀ x, S w.process.stamps x → S (w.answer c).2 x := by
  rw [World.answer]
  split
  · exact ⟨(hr.fresh c.thread).keeps hA rfl, fun x => (hr.fresh c.thread).mono hA rfl⟩
  · exact ⟨hA, fun _ hx => hx⟩

theorem Supplied.step_single (h : w.Supplied A S) (hr : Rations A S) (e : SafeBump.Event T) :
    (w.step (.single e)).Supplied A S ∧
      ∀ x, S w.process.stamps x → S (w.step (.single e)).process.stamps x := by
  cases e with
  | request t n req =>
      have hctx : Stocked Arena.stamps A S (w.process.ctx n) := ⟨h.space, h.singles n⟩
      obtain ⟨hC, hmono, -⟩ :=
        Arena.keeps_serve tgt (hr.fresh t) req _ hctx (List.forall_mem_nil _)
      exact ⟨h.put_single hC hmono, hmono⟩
  | write n wr =>
      have hctx : Stocked Arena.stamps A S (w.process.ctx n) := ⟨h.space, h.singles n⟩
      have hwrite : Arena.Keeps A S [] nothing (Arena.write wr) := Arena.keeps_write wr
      obtain ⟨hC, hmono, -⟩ := hwrite _ hctx (List.forall_mem_nil _)
      exact ⟨h.put_single hC hmono, hmono⟩
  | draw t =>
      have hmono : ∀ x, S w.process.stamps x → S (w.process.stamps.fresh t).2 x :=
        fun x => (hr.fresh t).mono h.space rfl
      exact ⟨h.stamps ((hr.fresh t).keeps h.space rfl) hmono, hmono⟩
  | exit t =>
      have hmono : ∀ x, S w.process.stamps x → S (w.process.stamps.exit t) x :=
        fun x => hr.mono t h.space
      exact ⟨h.stamps (hr.exit t h.space) hmono, hmono⟩

/-- An event brings into circulation the stamp that wins a race in it, if one does, and
otherwise only what the stamps of the process allow. -/
theorem Supplied.step (h : w.Supplied A S) (hr : Rations A S) (e : Event T)
    (hwin : ∀ x, w.wins e = some x → S w.process.stamps x) :
    (w.step e).Supplied A S ∧ ∀ x, S w.process.stamps x → S (w.step e).process.stamps x := by
  have hidle : w.Supplied A S ∧ ∀ x, S w.process.stamps x → S w.process.stamps x :=
    ⟨h, fun _ hx => hx⟩
  cases e with
  | single e => exact h.step_single hr e
  | start n t ask =>
      refine ⟨h.put h.space (fun _ hx => hx) (h.shareds n) fun c hc => ?_, fun _ hx => hx⟩
      refine Shared.forall_calls_start (P := fun _ pc => ∀ x ∈ pc.carried, S w.process.stamps x)
        (h.calls n) t ?_ c hc
      rw [ask.start_carried.1]
      exact fun _ hx => by cases hx
  | step n i mishap =>
      rw [World.step]
      cases hc : (w.shareds n).calls[i]? with
      | none => exact hidle
      | some c =>
          obtain ⟨hA, hmono⟩ := hr.answer h.space c
          refine ⟨h.step_call hc _ _ hA hmono fun x hheld hzero => hmono x (hwin x ?_), hmono⟩
          rw [wins, hc]
          simp only [if_pos hzero, hheld]
  | alone t n req =>
      rw [World.step]
      split
      · obtain ⟨hC, hmono, -⟩ := SharedArena.keeps_serve (hr.fresh t) req
          ⟨(w.shareds n).arena, w.process.stamps, (w.shareds n).dropped⟩ ⟨h.space, h.shareds n⟩
          (List.forall_mem_nil _)
        exact ⟨h.put hC.1 hmono hC.2 fun _ hc => (by cases hc), hmono⟩
      · exact hidle

/-- What an event hands out was allowed at some point. -/
theorem Supplied.reply (h : w.Supplied A S) (hr : Rations A S) {e : Event T}
    (hwin : ∀ x, w.wins e = some x → S w.process.stamps x) {o : Owner} {r : Reply T}
    (hreply : w.reply e = some (o, r)) : ∀ x ∈ r.carried, ∃ sp, S sp x := by
  intro x hx
  cases e with
  | single e =>
      obtain ⟨⟨m, r'⟩, hsingle, he⟩ := Option.map_eq_some_iff.mp hreply
      cases he
      cases e with
      | request t n req =>
          obtain ⟨rfl, hend⟩ := Process.reply_request hsingle
          have hctx : Stocked Arena.stamps A S (w.process.ctx m) := ⟨h.space, h.singles m⟩
          obtain ⟨-, -, hres⟩ :=
            Arena.keeps_serve tgt (hr.fresh t) req _ hctx (List.forall_mem_nil _)
          exact ⟨_, hres _ hend x hx⟩
      | write n wr =>
          obtain ⟨rfl, pairs, hpairs, rfl⟩ := Process.reply_write hsingle
          exact ⟨_, h.singles m x (Arena.stamps_of_iterIndexed hpairs x hx)⟩
      | draw t => cases hsingle
      | exit t => cases hsingle
  | start n t ask => cases hreply
  | step n i mishap =>
      rw [World.reply] at hreply
      split at hreply
      · rename_i hc
        cases hreply
        exact ⟨_, (h.step hr (.step n i mishap) hwin).1.calls n _ (List.mem_of_getElem? hc) x hx⟩
      · cases hreply
  | alone t n req =>
      obtain ⟨-, rfl, hend⟩ := reply_alone hreply
      obtain ⟨-, -, hres⟩ := SharedArena.keeps_serve (hr.fresh t) req
        ⟨(w.shareds n).arena, w.process.stamps, (w.shareds n).dropped⟩ ⟨h.space, h.shareds n⟩
        (List.forall_mem_nil _)
      exact ⟨_, hres r hend x hx⟩

end Supplied

/-! ## Stamps that were drawn -/

/-- Every stamp is drawn before it is seen. -/
theorem rations_drawn : Rations StampSpace.Ok fun sp x => ¬ sp.Unused x.get where
  fresh := fun t => {
    keeps := fun hok hf => by
      have hkept := hok.fresh t
      rwa [hf] at hkept
    mono := fun hok hf hx hun => hx (StampSpace.fresh_shrinks hok (t := t) (by rwa [hf]))
    drawn := fun hok hf => (StampSpace.fresh_unused hok hf).2 }
  exit := fun t hok => hok.exit t
  mono := fun _ _ hx hun => hx (StampSpace.exit_shrinks hun)

/-- A stamp is drawn once. -/
theorem rations_without (x : Stamp) :
    Rations (fun sp => sp.Ok ∧ ¬ sp.Unused x.get) fun _ y => y ≠ x where
  fresh := fun t => {
    keeps := fun hA hf => ⟨(rations_drawn.fresh t).keeps hA.1 hf,
      (rations_drawn.fresh t).mono hA.1 hf hA.2⟩
    mono := fun _ _ hx => hx
    drawn := fun hA hf he => hA.2 (he ▸ (StampSpace.fresh_unused hA.1 hf).1) }
  exit := fun t hA => ⟨hA.1.exit t, rations_drawn.mono t hA.1 hA.2⟩
  mono := fun _ _ hx => hx

/-- The stamp `x` was drawn, and is stored and carried nowhere. -/
def Absent (x : Stamp) (w : World tgt T) : Prop :=
  w.Supplied (fun sp => sp.Ok ∧ ¬ sp.Unused x.get) fun _ y => y ≠ x

/-- Call `i` on concurrent arena `n` has drawn the stamp `x` and not offered it yet. -/
def Holder (w : World tgt T) (x : Stamp) (n i : Nat) : Prop :=
  ∃ c : Call T, (w.shareds n).calls[i]? = some c ∧ c.pc.held = some x

section Traced

variable {w : World tgt T} {x : Stamp}

theorem holder_of_wins {e : Event T} (h : w.wins e = some x) :
    ∃ n i mishap, e = .step n i mishap ∧ w.Holder x n i ∧
      (w.shareds n).arena.identity.birth = 0 := by
  cases e with
  | step n i mishap =>
      rw [wins] at h
      split at h
      · split at h
        · exact ⟨n, i, mishap, rfl, ⟨_, ‹_›, h⟩, ‹_›⟩
        · cases h
      · cases h
  | _ => cases h

/-- Whoever holds a stamp after an event held it before and has not moved, or has drawn it
in the event. -/
theorem holder_step (hok : w.process.stamps.Ok) {e : Event T} {n i : Nat}
    (h : (w.step e).Holder x n i) :
    (w.Holder x n i ∧ (∀ mishap, e ≠ .step n i mishap) ∧
        ((w.shareds n).arena.identity.birth ≠ 0 →
          ((w.step e).shareds n).arena.identity.birth ≠ 0)) ∨
      ∃ mishap c, e = .step n i mishap ∧ (w.shareds n).calls[i]? = some c ∧
        c.pc.held = none ∧ w.process.stamps.Unused x.get ∧ ¬ (w.answer c).2.Unused x.get := by
  obtain ⟨c, hc, hx⟩ := h
  by_cases howner : e.owner = some (.shared n)
  · cases e with
    | single e => cases e <;> cases howner
    | start m t ask =>
        cases howner
        rw [step, shareds_put_self] at hc ⊢
        rw [Shared.getElem?_start] at hc
        split at hc
        · cases hc
          rw [ask.start_carried.2] at hx
          cases hx
        · exact .inl ⟨⟨c, hc, hx⟩, fun _ he => (by cases he), id⟩
    | step m j mishap =>
        cases howner
        rw [step] at hc ⊢
        cases hd : (w.shareds n).calls[j]? with
        | none =>
            rw [hd] at hc
            refine .inl ⟨⟨c, hc, hx⟩, fun _ he => ?_, id⟩
            cases he
            cases hd.symm.trans hc
        | some d =>
            rw [hd] at hc
            simp only [shareds_put_self] at hc ⊢
            rw [Shared.getElem?_step hd] at hc
            split at hc
            · cases hc
              subst i
              obtain ⟨use, hpc, hdraw⟩ := Ask.move_held hx
              refine .inr ⟨mishap, d, rfl, hd, by rw [hpc]; rfl, ?_⟩
              refine StampSpace.fresh_unused (t := d.thread) hok ?_
              rw [World.answer, hpc] at hdraw ⊢
              exact Prod.ext hdraw rfl
            · rename_i hne
              refine .inl ⟨⟨c, hc, hx⟩, fun _ he => hne (by cases he; rfl), fun hb => ?_⟩
              rw [Shared.arena_step hd]
              rcases d.ask.move_identity (w.answer d).1 mishap (w.shareds n).arena d.pc with
                ⟨hid, -, -⟩ | ⟨use, fresh, -, hzero, -⟩ | ⟨use, fresh, -, hmove⟩
              · rw [hid]
                exact hb
              · exact absurd hzero hb
              · rw [hmove]
                exact hb
    | alone t m req =>
        cases howner
        rw [step] at hc ⊢
        split at hc
        · rw [shareds_put_self] at hc
          cases hc
        · rename_i hbusy
          rw [if_neg hbusy]
          exact .inl ⟨⟨c, hc, hx⟩, fun _ he => (by cases he), id⟩
  · rw [w.shareds_step_of_ne howner] at hc ⊢
    exact .inl ⟨⟨c, hc, hx⟩, fun _ he => howner (he ▸ rfl), id⟩

/-- What is seen in the process was drawn before, and a stamp a call holds is seen nowhere
else. -/
structure Traced (w : World tgt T) : Prop where
  drawn : w.Supplied StampSpace.Ok fun sp x => ¬ sp.Unused x.get
  held : ∀ {n i x}, w.Holder x n i → ¬ w.process.stamps.Unused x.get
  absent : ∀ {n i x}, w.Holder x n i → w.Absent x
  single : ∀ {n i m j x}, w.Holder x n i → w.Holder x m j → m = n ∧ j = i

theorem Traced.initial : (initial : World tgt T).Traced where
  drawn := {
    space := .initial
    singles := fun _ _ hx => by cases hx
    shareds := fun _ _ hx => by cases hx
    calls := fun _ _ hc => by cases hc }
  held := by rintro n i x ⟨_, ⟨⟩, _⟩
  absent := by rintro n i x ⟨_, ⟨⟩, _⟩
  single := by rintro n i m j x ⟨_, ⟨⟩, _⟩

theorem Traced.step (h : w.Traced) (e : Event T) : (w.step e).Traced := by
  have hok := h.drawn.space
  obtain ⟨hdrawn, hmono⟩ := h.drawn.step rations_drawn e fun x hwin => by
    obtain ⟨n, i, -, -, hx, -⟩ := holder_of_wins hwin
    exact h.held hx
  have hheld : ∀ {n i x}, (w.step e).Holder x n i → ¬ (w.step e).process.stamps.Unused x.get := by
    intro n i x hx
    rcases holder_step hok hx with ⟨hold, -, -⟩ | ⟨mishap, c, rfl, hc, -, -, hused⟩
    · exact hmono x (h.held hold)
    · rw [World.step, hc]
      exact hused
  refine ⟨hdrawn, hheld, fun {n i x} hx => ?_, fun {n i m j x} hx hx' => ?_⟩
  · rcases holder_step hok hx with ⟨hold, hstill, -⟩ | ⟨mishap, c, rfl, hc, hnone, hun, hused⟩
    · refine ((h.absent hold).step (rations_without x) e fun y hwin he => ?_).1
      subst he
      obtain ⟨m, j, mishap, rfl, hx', -⟩ := holder_of_wins hwin
      obtain ⟨rfl, rfl⟩ := h.single hold hx'
      exact hstill mishap rfl
    · -- the stamp was in nobody's hands before the draw
      have hkept := hheld hx
      have hsp := hdrawn.space
      rw [World.step, hc] at hkept hsp ⊢
      refine h.drawn.step_call hc _ _ ⟨hsp, hkept⟩ (fun y hy he => hy (he ▸ hun)) fun y hy => ?_
      cases hnone.symm.trans hy
  · rcases holder_step hok hx with ⟨hold, -, -⟩ | ⟨_, _, rfl, -, -, hun, -⟩
    · rcases holder_step hok hx' with ⟨hold', -, -⟩ | ⟨_, _, rfl, -, -, hun, -⟩
      · exact h.single hold hold'
      · exact absurd hun (h.held hold)
    · rcases holder_step hok hx' with ⟨hold', -, -⟩ | ⟨_, _, he, -, -, -, -⟩
      · exact absurd hun (h.held hold')
      · cases he
        exact ⟨rfl, rfl⟩

theorem Traced.run (h : w.Traced) (es : List (Event T)) : (w.run es).Traced := by
  induction es generalizing w with
  | nil => exact h
  | cons e es ih => exact ih (h.step e)

/-! ## Stamps that lost -/

/-- The stamps an arena hands out in an event. -/
def carried (w : World tgt T) (o : Owner) (e : Event T) : List Stamp :=
  match w.reply e with
  | none => []
  | some (o', reply) => if o' = o then reply.carried else []

/-- The stamps an arena hands out in a run. -/
def carriedOver (o : Owner) : World tgt T → List (Event T) → List Stamp
  | _, [] => []
  | w, e :: es => w.carried o e ++ carriedOver o (w.step e) es

theorem mem_carried {o : Owner} {e : Event T} :
    x ∈ w.carried o e ↔ ∃ reply, w.reply e = some (o, reply) ∧ x ∈ reply.carried := by
  rw [carried]
  cases w.reply e with
  | none => exact ⟨(fun h => by cases h), by rintro ⟨_, ⟨⟩, _⟩⟩
  | some r =>
      obtain ⟨o', reply⟩ := r
      rcases eq_or_ne o' o with rfl | hne
      · simp
      · simp [hne]

/-- The stamp is seen nowhere, and held only where the race is over. -/
structure Buried (x : Stamp) (w : World tgt T) : Prop where
  absent : w.Absent x
  lost : ∀ {n i}, w.Holder x n i → (w.shareds n).arena.identity.birth ≠ 0

theorem Buried.step (h : w.Buried x) (e : Event T) :
    (w.step e).Buried x ∧ ∀ o, x ∉ w.carried o e := by
  have hwin : ∀ y, w.wins e = some y → y ≠ x := by
    rintro y hy rfl
    obtain ⟨n, i, -, -, hx, hzero⟩ := holder_of_wins hy
    exact h.lost hx hzero
  refine ⟨⟨(h.absent.step (rations_without x) e hwin).1, fun {n i} hx => ?_⟩, fun o hx => ?_⟩
  · rcases holder_step h.absent.space.1 hx with ⟨hold, -, hbirth⟩ | ⟨_, _, -, -, -, hun, -⟩
    · exact hbirth (h.lost hold)
    · exact absurd hun h.absent.space.2
  · obtain ⟨reply, hreply, hx⟩ := mem_carried.mp hx
    obtain ⟨-, hne⟩ := h.absent.reply (rations_without x) hwin hreply x hx
    exact hne rfl

/-- A stamp that lost is never seen again. -/
theorem Buried.run (h : w.Buried x) (es : List (Event T)) (o : Owner) : x ∉ carriedOver o w es := by
  induction es generalizing w with
  | nil => exact List.not_mem_nil
  | cons e es ih =>
      obtain ⟨hstep, hnone⟩ := h.step e
      exact fun hx => (List.mem_append.mp hx).elim (hnone o) (ih hstep)

/-- Whoever holds a stamp while `birth` is set has lost. -/
theorem Traced.buried (h : w.Traced) {n i : Nat} (hx : w.Holder x n i)
    (hb : (w.shareds n).arena.identity.birth ≠ 0) : w.Buried x :=
  ⟨h.absent hx, fun hx' => (h.single hx hx').1 ▸ hb⟩

end Traced

end World

end SafeBump
