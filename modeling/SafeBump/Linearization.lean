import SafeBump.Placement
import SafeBump.Race
import SafeBump.Turns

/-!
# Concurrent allocations, one after the other

Whatever the interleaving, the allocations of a run end as they do on a single-thread
arena that serves them one after the other, in the order of their turns, and leave the
same values (`Shared.allocations_are_linearizable`).  What holds of a single-thread
arena then holds of every interleaving.
-/

namespace SafeBump

open Library.Unwind

variable {tgt : Target} {σ T : Type}

/-! ## What a call returns -/

/-- The request a thread that has the arena to itself makes instead. -/
def Ask.request : Ask T → Request T
  | .alloc value => .alloc value
  | .allocBlock values => .allocBlock ⟨values, false⟩
  | .checkpoint => .checkpoint

/-- How the call ended, if it has. -/
def Pc.ending : Pc T → Option (Except Exit (Reply T))
  | .returned reply => some (.ok reply)
  | .unwound p => some (.error (.unwinds p))
  | _ => none

/-- Where an allocation can stand: it wants a stamp for its range and for nothing else,
and what it returns is the handle it makes at its end. -/
def Pc.Allocates (tgt : Target) (ask : Ask T) : Pc T → Prop
  | .loadLen => False
  | .returned reply => ∃ stamp start, ask.finish tgt stamp start = .returned reply
  | pc => ∀ use ∈ pc.use, use = .range

theorem Pc.over_of_ending {pc : Pc T} {e : Except Exit (Reply T)} (h : pc.ending = some e) :
    pc.running = false := by
  cases pc with
  | returned reply => rfl
  | unwound p => rfl
  | _ => cases h

section Move

variable {a : SharedArena tgt T}

theorem Ask.start_allocates {ask : Ask T} (hne : ask.values ≠ []) :
    ask.start.Allocates tgt ask := by
  have hrange : ∀ use ∈ (Pc.load .range : Pc T).use, use = .range := by
    rintro _ ⟨⟩
    rfl
  cases ask with
  | alloc value => exact hrange
  | checkpoint => exact absurd rfl hne
  | allocBlock values =>
      cases values with
      | nil => exact absurd rfl hne
      | cons v values => exact hrange

theorem fillPc_allocates (values : List T) (stamp : Stamp) (start offset : Nat) (ask : Ask T) :
    (fillPc tgt values stamp start offset).Allocates tgt ask := by
  rw [fillPc]
  split
  · rintro _ ⟨⟩
  · split <;> rintro _ ⟨⟩

theorem Ask.move_allocates {ask : Ask T} (answer : Except Panic Stamp) (mishap : Bool) {pc : Pc T}
    (h : pc.Allocates tgt ask) : (ask.move answer mishap a pc).2.Allocates tgt ask := by
  cases pc with
  | loadLen => exact h.elim
  | load use =>
      cases h use rfl
      rw [Ask.move]
      split
      · exact h
      · rintro _ ⟨⟩
  | draw use =>
      cases answer with
      | error p => rintro _ ⟨⟩
      | ok fresh => exact h
  | exchangeBirth use fresh => rw [Ask.move]; split <;> exact h
  | storeCurrent use fresh => exact h
  | reread use =>
      cases h use rfl
      rw [Ask.move]
      split
      · exact h
      · rintro _ ⟨⟩
  | reserve stamp =>
      rw [Ask.move]
      split
      · rintro _ ⟨⟩
      · exact fillPc_allocates _ _ _ _ ask
  | set stamp start offset =>
      rw [Ask.move]
      split
      · exact fillPc_allocates _ _ _ _ ask
      · split
        · rintro _ ⟨⟩
        · split
          · rintro _ ⟨⟩
          · rintro _ ⟨⟩
          · exact fillPc_allocates _ _ _ _ ask
  | loadPublished stamp start last =>
      rw [Ask.move]
      split
      · cases ask with
        | allocBlock values =>
            rw [Ask.finish]
            split
            · rename_i block hb
              exact ⟨stamp, start, by rw [Ask.finish, hb]⟩
            · rintro _ ⟨⟩
        | _ => exact ⟨stamp, start, rfl⟩
      · rintro _ ⟨⟩
  | isSet stamp start last published => rw [Ask.move]; split <;> rintro _ ⟨⟩
  | advance stamp start last published => rw [Ask.move]; split <;> rintro _ ⟨⟩
  | returned reply => exact h
  | unwound p => rintro _ ⟨⟩

/-- An allocation that returned has a range, and returned the handle for it. -/
theorem Pc.Allocates.reply {ask : Ask T} {reply : Reply T} (hne : ask.values ≠ [])
    (h : (Pc.returned reply).Allocates tgt ask) :
    ∃ stamp start, reply.stamps = [stamp] ∧ reply = SharedArena.handle ask.request (stamp, start) ∧
      (Pc.returned reply).range ask.values.length = some (start, ask.values.length) := by
  obtain ⟨stamp, start, hf⟩ := h
  cases ask with
  | alloc value =>
      cases hf
      exact ⟨stamp, start, rfl, rfl, rfl⟩
  | allocBlock values =>
      rw [Ask.finish] at hf
      split at hf
      · rename_i block hb
        cases Block.of_new hb
        cases hf
        exact ⟨stamp, start, rfl, rfl, rfl⟩
      · cases hf
  | checkpoint => exact absurd rfl hne

end Move

namespace Shared

/-! ## The same requests, one after the other -/

/-- The request call `k` stands for. -/
def request (s : Shared tgt T) (k : Nat) : Request T :=
  s.calls[k]?.elim .len fun c => c.ask.request

/-- How call `k` ended, if it has. -/
def ending (s : Shared tgt T) (k : Nat) : Option (Except Exit (Reply T)) :=
  s.calls[k]?.bind fun c => c.pc.ending

/-- How a call ends alone that gets what the turn says, under the stamp `x`. -/
def due (x : Stamp) (ask : Ask T) : Option Nat → Except Exit (Reply T)
  | some start => .ok (SharedArena.handle ask.request (x, start))
  | none => .error (.unwinds .slotSpaceExhausted)

section Serve

variable {sh : SharedArena tgt T} {id : Identity} {log log' : List T}

theorem stored_request (ask : Ask T) : ask.request.stored = ask.values := by
  cases ask <;> rfl

theorem request_of_call {s : Shared tgt T} {k : Nat} {c : Call T} (hc : s.calls[k]? = some c) :
    s.request k = c.ask.request := by
  rw [request, hc]
  rfl

theorem ending_of_call {s : Shared tgt T} {k : Nat} {c : Call T} (hc : s.calls[k]? = some c) :
    s.ending k = c.pc.ending := by
  rw [ending, hc]
  rfl

/-- An allocation alone gets the next slots, or none if they do not fit. -/
theorem serve_request (fresh : Source σ) (hall : ∀ k, tgt.allocates k = true) (hh : sh.Holds log)
    (hid : sh.identity.Mirrors id) {ask : Ask T} (hne : ask.values ≠ []) (src : σ) (d : List T) :
    ∃ sh' d', left ((SharedArena.serve fresh ask.request).run ⟨sh, src, d⟩) = ⟨sh', src, d'⟩ ∧
      sh'.identity = sh.identity ∧
      if log.length + ask.values.length ≤ tgt.usizeMax then
        Library.Unwind.ending ((SharedArena.serve fresh ask.request).run ⟨sh, src, d⟩)
            = due id.current ask (some log.length) ∧
          sh'.Holds (log ++ ask.values)
      else
        Library.Unwind.ending ((SharedArena.serve fresh ask.request).run ⟨sh, src, d⟩)
            = due id.current ask none ∧
          sh'.Holds log := by
  have hstored : ask.request.stored ≠ [] := by
    rw [stored_request]
    exact hne
  rw [SharedArena.run_serve_placing hstored, run_map, stored_request]
  by_cases hfit : log.length + ask.values.length ≤ tgt.usizeMax
  · obtain ⟨sh', hrun, hh', hid'⟩ :=
      SharedArena.run_placing_holds _ fresh hall hh hid hne hfit src d
    rw [hrun]
    refine ⟨sh', d, rfl, hid', ?_⟩
    rw [if_pos hfit]
    exact ⟨rfl, hh'⟩
  · rw [SharedArena.run_placing_full _ hid hne (hh.reserved ▸ Nat.lt_of_not_le hfit)]
    refine ⟨sh, _, rfl, rfl, ?_⟩
    rw [if_neg hfit]
    exact ⟨rfl, hh⟩

/-- Calls served in the order of their turns get one after the other what they got. -/
theorem Dealt.runs (fresh : Source σ) (hall : ∀ k, tgt.allocates k = true) {s : Shared tgt T}
    {order : List Nat} (h : s.Dealt log order log') (hh : sh.Holds log)
    (hid : sh.identity.Mirrors id) (src : σ) (d : List T) :
    let r := SafeBump.runs (SharedArena.serve fresh) (order.map s.request) ⟨sh, src, d⟩
    r.2.arena.Holds log' ∧ r.2.arena.identity = sh.identity ∧
      List.Forall₂ (fun k e => ∃ c t, s.calls[k]? = some c ∧ c.ask.values ≠ [] ∧
        c.pc.turn c.ask.values.length = some t ∧ e = due id.current c.ask t) order r.1 := by
  induction order generalizing log sh d with
  | nil =>
      have heq : log' = log := h
      exact ⟨heq ▸ hh, rfl, .nil⟩
  | cons k order ih =>
      obtain ⟨c, hc, hne, hrest⟩ := h
      obtain ⟨sh', d', hleft, hid', hend⟩ := serve_request fresh hall hh hid hne src d
      have hmirrors : sh'.identity.Mirrors id := hid' ▸ hid
      simp only [List.map_cons, SafeBump.runs, request_of_call hc, hleft]
      split at hrest
      · rw [if_pos ‹_›] at hend
        obtain ⟨hholds, hsame, htail⟩ := ih hrest.2 hend.2 hmirrors d'
        exact ⟨hholds, hsame.trans hid', .cons ⟨c, _, hc, hne, hrest.1, hend.1⟩ htail⟩
      · rw [if_neg ‹_›] at hend
        obtain ⟨hholds, hsame, htail⟩ := ih hrest.2 hend.2 hmirrors d'
        exact ⟨hholds, hsame.trans hid', .cons ⟨c, _, hc, hne, hrest.1, hend.1⟩ htail⟩

/-- The first allocation on a new arena goes on as one on an arena with an identity. -/
theorem runs_new {fresh : Source σ} {src src' : σ} {x : Stamp} (hf : fresh src = (.ok x, src'))
    (hid : sh.identity = .new) {ask : Ask T} (hne : ask.values ≠ []) (reqs : List (Request T))
    (d : List T) :
    SafeBump.runs (SharedArena.serve fresh) (ask.request :: reqs) ⟨sh, src, d⟩
      = SafeBump.runs (SharedArena.serve fresh) (ask.request :: reqs)
          ⟨{ sh with identity := .born x }, src', d⟩ := by
  have hstored : ask.request.stored ≠ [] := by
    rw [stored_request]
    exact hne
  have hrun : (SharedArena.serve fresh ask.request).run ⟨sh, src, d⟩
      = (SharedArena.serve fresh ask.request).run ⟨{ sh with identity := .born x }, src', d⟩ := by
    rw [SharedArena.run_serve_placing hstored, SharedArena.run_serve_placing hstored, run_map,
      run_map, SharedArena.run_placing_new _ hf hid]
  rw [SafeBump.runs, SafeBump.runs, hrun]

end Serve

/-! ## The theorem -/

theorem forall_calls_run {P : Ask T → Pc T → Prop} (hstart : ∀ ask, P ask ask.start)
    (hmove : ∀ (ask : Ask T) answer mishap (a : SharedArena tgt T) pc, P ask pc →
      P ask (ask.move answer mishap a pc).2) {s : Shared tgt T}
    (h : ∀ c ∈ s.calls, P c.ask c.pc) (ls : List (Label T)) :
    ∀ c ∈ (s.run ls).calls, P c.ask c.pc := by
  induction ls generalizing s with
  | nil => exact h
  | cons l ls ih =>
      refine ih ?_
      cases l with
      | start t ask => exact forall_calls_start h t (hstart ask)
      | step i answer mishap =>
          exact forall_calls_step h fun c hc => hmove c.ask answer mishap s.arena c.pc (h c hc)

/-- An allocation that is over ended as it is due, unless it found no stamp. -/
theorem ending_due {s : Shared tgt T} {items : List T} {x : Stamp} (hl : s.Layout items)
    (hassigned : s.Assigned) (hx : x.get = s.arena.identity.current) {k : Nat} {c : Call T}
    (hc : s.calls[k]? = some c) (hne : c.ask.values ≠ [])
    (halloc : c.pc.Allocates tgt c.ask) (hover : c.pc.running = false) :
    (∃ t, c.pc.turn c.ask.values.length = some t ∧ s.ending k = some (due x c.ask t)) ∨
      c.pc = .unwound .stampSpaceExhausted := by
  have hsound := hl.sound k c hc
  have hagree := hassigned.agree k c hc
  rw [ending_of_call hc]
  revert hsound hagree halloc hover
  cases c.pc with
  | returned reply =>
      intro halloc hover hsound hagree
      obtain ⟨stamp, start, hstamps, rfl, hrange⟩ := halloc.reply hne
      have hcur : stamp.get = s.arena.identity.current :=
        hagree stamp (hstamps ▸ List.mem_singleton_self stamp)
      have hsame : stamp = x := Stamp.get_inj.mp (hcur.trans hx.symm)
      exact .inl ⟨some start, Pc.turn_of_range hrange, by rw [hsame]; rfl⟩
  | unwound p =>
      intro halloc hover hsound hagree
      rcases hsound with rfl | rfl
      · exact .inl ⟨none, rfl, rfl⟩
      · exact .inr rfl
  | _ =>
      intro halloc hover
      cases hover

/-- A concurrent arena like a single-thread one is settled. -/
theorem settled_of_alike {a₀ : Arena T} {a : SharedArena tgt T} (h : Alike a₀ a) : a.Settled := by
  cases h with
  | unassigned hh hid => exact ⟨by rw [hid]; exact Iff.rfl, fun hne => absurd hh.reserved hne⟩
  | assigned hh hid =>
      exact ⟨⟨fun hb => absurd hb hid.birth_ne_zero, fun hc => absurd hc hid.current_ne_zero⟩,
        fun _ => hid.current_ne_zero⟩

/-- Who takes a turn has a stamp. -/
theorem Assigned.current_of_turns {s : Shared tgt T} (h : s.Assigned) {ls : List (Label T)}
    (hne : s.turns ls ≠ []) : (s.run ls).arena.identity.current ≠ 0 := by
  induction ls generalizing s with
  | nil => exact absurd rfl hne
  | cons l ls ih =>
      by_cases hrest : (s.next l).turns ls = []
      · obtain ⟨k, hk⟩ : ∃ k, k ∈ s.turn l := by
          refine List.exists_mem_of_ne_nil _ fun hnil => hne ?_
          rw [turns, hnil, hrest]
          rfl
        cases l with
        | start t ask => cases hk
        | step i answer mishap =>
            cases hc : s.calls[i]? with
            | none =>
                rw [turn, hc] at hk
                cases hk
            | some c =>
                rcases turn_step hc answer mishap with ⟨stamp, hpc, -⟩ | ⟨-, hnone⟩
                · have hagree := h.agree i c hc
                  rw [hpc] at hagree
                  have hcur : s.arena.identity.current ≠ 0 := by
                    rw [← (hagree : stamp.get = s.arena.identity.current)]
                    exact stamp.ne_zero
                  rw [(h.grows_run (.step i answer mishap :: ls)).current hcur]
                  exact hcur
                · rw [hnone] at hk
                  cases hk
      · exact ih (h.next l) hrest

theorem Racing.run {s : Shared tgt T} (h : s.Racing) (ls : List (Label T)) : (s.run ls).Racing := by
  induction ls generalizing s with
  | nil => exact h
  | cons l ls ih =>
      refine ih ?_
      cases l with
      | start t ask => exact h.start t ask
      | step i answer mishap => exact h.step i answer mishap

/-- The calls leave the identity that was there, or the one a single call would have
assigned. -/
theorem identity_run {a₀ : Arena T} {a : SharedArena tgt T} (h : Alike a₀ a)
    (ls : List (Label T)) :
    (a₀ = .new ∧ a.identity = .new ∧ ∀ x : Stamp,
        x.get = ((Shared.idle a).run ls).arena.identity.current →
        ((Shared.idle a).run ls).arena.identity = .born x) ∨
      ∃ id, a.identity.Mirrors id ∧ ((Shared.idle a).run ls).arena.identity = a.identity := by
  have hassigned := Assigned.idle (settled_of_alike h)
  have hgrows := hassigned.grows_run ls
  cases h with
  | unassigned hh hid =>
      have hracing : (Shared.idle a).Racing := by
        refine ⟨hassigned, ⟨?_, ?_, ?_, ?_⟩, fun _ hc => by cases hc⟩
        · intro hne
          refine absurd ?_ hne
          rw [Shared.idle, hid]
          rfl
        · exact fun hne => absurd hh.published hne
        · rw [Shared.idle, hid]
          rfl
        · rw [Shared.idle, hid]
          rfl
      have hyoung := (hracing.run ls).young
      refine .inl ⟨rfl, hid, fun x hx => ?_⟩
      have htail := hgrows.tail
      rw [show (Shared.idle a).arena.identity = .new from hid] at htail
      have hbirth := hyoung.current (hx ▸ x.ne_zero)
      have hstart := hyoung.start
      have htable := hyoung.table
      generalize ((Shared.idle a).run ls).arena.identity = sid at hx htail hbirth hstart htable
      obtain ⟨birth, current, start, tail, table⟩ := sid
      cases hx
      cases hbirth
      cases hstart
      cases htable
      cases htail
      rfl
  | @assigned items id _ hh hid =>
      have hb := hgrows.birth hid.birth_ne_zero
      have hc := hgrows.current hid.current_ne_zero
      have hstart := hgrows.start
      have htail := hgrows.tail
      have htable := hgrows.table
      refine .inr ⟨id, hid, ?_⟩
      rw [show (Shared.idle a).arena.identity = a.identity from rfl] at hb hc hstart htail htable
      generalize ((Shared.idle a).run ls).arena.identity = sid at hb hc hstart htail htable
      generalize a.identity = sid' at hb hc hstart htail htable
      obtain ⟨birth, current, start, tail, table⟩ := sid
      cases hb
      cases hc
      cases hstart
      cases htail
      cases htable
      rfl

/-- An arena is like another one when it holds the same under the same identity. -/
theorem alike_of_holds {a₀ : Arena T} {a a' : SharedArena tgt T} {items : List T}
    (h : Alike a₀ a) (hh : a.Holds items) (hh' : a'.Holds items)
    (hid : a'.identity = a.identity) : a₀.items = items ∧ Alike a₀ a' := by
  have hsame : ∀ {other : List T}, a.Holds other → other = items := by
    intro other hother
    refine List.ext_getElem? fun i => ?_
    rw [← hother.filled i, ← hh.filled i]
  cases h with
  | unassigned hnil hnew =>
      cases hsame hnil
      exact ⟨rfl, .unassigned hh' (hid.trans hnew)⟩
  | assigned hother hm =>
      cases hsame hother
      exact ⟨rfl, .assigned hh' (hid ▸ hm)⟩

theorem forall₂_comp {α β γ : Type} {R : β → γ → Prop} {S : α → γ → Prop} {as : List α}
    {bs : List β} {cs : List γ} (h : List.Forall₂ R bs cs) (h' : List.Forall₂ S as cs) :
    List.Forall₂ (fun a b => ∃ c, R b c ∧ S a c) as bs := by
  induction h generalizing as with
  | nil =>
      cases h'
      exact .nil
  | cons hr _ ih =>
      cases h' with
      | cons hs h' => exact .cons ⟨_, hr, hs⟩ (ih h')

/-- What a single-thread arena makes of the calls in the order of their turns is what
they got. -/
theorem Dealt.runs_alike (hall : ∀ k, tgt.allocates k = true) {a₀ : Arena T}
    {a : SharedArena tgt T} (ha : Alike a₀ a) {ls : List (Label T)} {log : List T} {x : Stamp}
    (h : ((Shared.idle a).run ls).Dealt a₀.items ((Shared.idle a).turns ls) log)
    (hx : (Shared.idle a).turns ls ≠ [] →
      x.get = ((Shared.idle a).run ls).arena.identity.current) (fresh : Source σ) (src : σ)
    (d : List T)
    (hfresh : a₀.sidecar = none → (Shared.idle a).turns ls ≠ [] → (fresh src).1 = .ok x) :
    let s := (Shared.idle a).run ls
    let order := (Shared.idle a).turns ls
    let r := SafeBump.runs (Arena.serve tgt fresh) (order.map s.request) ⟨a₀, src, d⟩
    r.2.arena.items = log ∧
      (order ≠ [] → ∀ a' : SharedArena tgt T, a'.Holds log → a'.identity = s.arena.identity →
        Alike r.2.arena a') ∧
      List.Forall₂ (fun k e => ∃ c t, s.calls[k]? = some c ∧ c.ask.values ≠ [] ∧
        c.pc.turn c.ask.values.length = some t ∧
          Alike.SameOutcome e (due x c.ask t)) order r.1 := by
  intro s order r
  have htogether : Together (⟨a₀, src, d⟩ : Ctx (Arena T) σ T) ⟨a, src, d⟩ := ⟨ha, rfl, rfl⟩
  obtain ⟨houts, hleft⟩ := Alike.runs fresh hall (order.map s.request) htogether
  -- it is enough to say what a concurrent arena makes of them
  have hshared : ∀ {sh : SharedArena tgt T} {id : Identity} (src' : σ),
      sh.Holds a₀.items → sh.identity.Mirrors id → id.current = x →
      sh.identity = s.arena.identity →
      SafeBump.runs (SharedArena.serve fresh) (order.map s.request) ⟨a, src, d⟩
        = SafeBump.runs (SharedArena.serve fresh) (order.map s.request) ⟨sh, src', d⟩ →
      r.2.arena.items = log ∧
      (order ≠ [] → ∀ a' : SharedArena tgt T, a'.Holds log → a'.identity = s.arena.identity →
        Alike r.2.arena a') ∧
      List.Forall₂ (fun k e => ∃ c t, s.calls[k]? = some c ∧ c.ask.values ≠ [] ∧
        c.pc.turn c.ask.values.length = some t ∧
          Alike.SameOutcome e (due x c.ask t)) order r.1 := by
    intro sh id src' hh hid hcur hsame heq
    obtain ⟨hholds, hident, hends⟩ := Dealt.runs fresh hall h hh hid src' d
    rw [← heq] at hholds hident hends
    refine ⟨(alike_of_holds hleft.1 hholds hholds rfl).1, fun _ a' hh' hid' => ?_, ?_⟩
    · exact (alike_of_holds hleft.1 hholds hh' (hid'.trans (hident.trans hsame).symm)).2
    · refine (forall₂_comp houts hends).imp ?_
      rintro k e ⟨_, hout, c, t, hc, hne, ht, rfl⟩
      exact ⟨c, t, hc, hne, ht, hcur ▸ hout⟩
  by_cases hnil : order = []
  · have hlog : log = a₀.items := by
      have hd : s.Dealt a₀.items order log := h
      rwa [hnil] at hd
    refine ⟨?_, fun hne => absurd hnil hne, ?_⟩
    · simp only [r, hnil, List.map_nil, SafeBump.runs, hlog]
    · simp only [r, hnil, List.map_nil, SafeBump.runs]
      exact .nil
  · have hx := hx hnil
    rcases identity_run ha ls with ⟨rfl, hid, hborn⟩ | ⟨id, hid, hsame⟩
    · cases ha with
      | unassigned hh _ =>
          obtain ⟨src', hf⟩ : ∃ src', fresh src = (.ok x, src') :=
            ⟨(fresh src).2, Prod.ext (hfresh rfl hnil) rfl⟩
          have hheld : ({ a with identity := .born x } : SharedArena tgt T).Holds [] :=
            ⟨hh.published, hh.reserved, hh.filled, hh.fits⟩
          refine hshared src' hheld (.of_born x) rfl (hborn x hx).symm ?_
          obtain ⟨k, rest, hcons⟩ := List.exists_cons_of_ne_nil hnil
          have hd : s.Dealt [] order log := h
          rw [hcons] at hd
          obtain ⟨c, hc, hne, -⟩ := hd
          rw [hcons, List.map_cons, request_of_call hc]
          exact runs_new hf hid hne _ d
    · cases ha with
      | unassigned _ hnew => exact absurd (by rw [hnew]; rfl) hid.birth_ne_zero
      | @assigned items i _ hh hm =>
          refine hshared src hh hm ?_ hsame.symm rfl
          exact Stamp.get_inj.mp (hm.current.symm.trans ((congrArg _ hsame).symm.trans hx.symm))

/-- Served one after the other, in the order of their turns, by a single-thread arena
that was like the concurrent one, the allocations of a run end as they did there. -/
theorem allocations_are_linearizable (hall : ∀ k, tgt.allocates k = true) {a₀ : Arena T}
    {a : SharedArena tgt T} (ha : Alike a₀ a) (ls : List (Label T))
    (hls : ∀ l ∈ ls, l.Answered) :
    let s := (Shared.idle a).run ls
    let order := (Shared.idle a).turns ls
    -- an allocation takes one turn, unless it finds no stamp
    order.Nodup ∧
    (∀ (k : Nat) (c : Call T), s.calls[k]? = some c → c.ask.values ≠ [] → c.pc.running = false →
      k ∈ order ∨ c.pc = .unwound .stampSpaceExhausted) ∧
    -- and takes it before those that start after its end
    (∀ ls₁ ls₂, ls = ls₁ ++ ls₂ → ∀ (j k : Nat) (c : Call T),
      ((Shared.idle a).run ls₁).calls[j]? = some c → c.pc.running = false →
      ((Shared.idle a).run ls₁).calls.length ≤ k → j ∈ order → k ∈ order →
      [j, k].Sublist order) ∧
    ∀ {σ : Type} (fresh : Source σ) (src : σ) (d : List T),
      -- the source has the stamp the race was won with
      (a₀.sidecar = none → ∀ x : Stamp, x.get = s.arena.identity.current →
        (fresh src).1 = .ok x) →
      let r := runs (Arena.serve tgt fresh) (order.map s.request) ⟨a₀, src, d⟩
      -- the calls that are over ended alike
      List.Forall₂ (fun k e => ∀ e', s.ending k = some e' → Alike.SameOutcome e e') order r.1 ∧
      -- the others may have published a part
      s.arena.contents <+: r.2.arena.items ∧
      (s.quiet = true → r.2.arena.items = s.arena.contents ∧
        (order ≠ [] → Alike r.2.arena s.arena)) := by
  intro s order
  have hh : a.Holds a₀.items := ha.holds
  have hl : s.Layout a₀.items := (Layout.idle hh).run hall hls
  have hidle := Assigned.idle (settled_of_alike ha)
  have hassigned : s.Assigned := hidle.run ls
  have hplace : ∀ c ∈ s.calls, c.ask.values ≠ [] → c.pc.Allocates tgt c.ask :=
    forall_calls_run (P := fun ask pc => ask.values ≠ [] → pc.Allocates tgt ask)
      (fun _ hne => Ask.start_allocates hne)
      (fun _ answer mishap _ _ h hne => Ask.move_allocates answer mishap (h hne))
      (fun _ hc => by cases hc) ls
  obtain ⟨log, hord⟩ := (Ordered.idle hh).run hall (Layout.idle hh) hls
  have hord : s.Ordered a₀.items order log := hord
  refine ⟨hord.nodup, ?_, ?_, ?_⟩
  · intro k c hc hne hover
    refine Classical.or_iff_not_imp_left.mpr fun hk => ?_
    have hnone : c.pc.turn c.ask.values.length = none :=
      Classical.not_not.mp fun hne => hk (hord.complete k c hc hne)
    have halloc := hplace c (List.mem_of_getElem? hc) hne
    have hsound := hl.sound k c hc
    revert hover hnone halloc hsound
    cases c.pc with
    | returned reply =>
        intro _ hnone halloc _
        obtain ⟨stamp, start, -, -, hrange⟩ := halloc.reply hne
        cases hnone.symm.trans (Pc.turn_of_range hrange)
    | unwound p =>
        rintro _ hnone _ (rfl | rfl)
        · cases hnone
        · rfl
    | _ =>
        intro hover
        cases hover
  · rintro ls₁ ls₂ rfl j k c hc hover hlen hj hk
    exact turns_in_time _ ls₁ ls₂ hc hover hlen hj hk
  · intro σ fresh src d hfresh r
    have hprefix := hord.contents hl
    obtain ⟨x, hx, hsource⟩ : ∃ x : Stamp,
        (order ≠ [] → x.get = s.arena.identity.current) ∧
          (a₀.sidecar = none → order ≠ [] → (fresh src).1 = .ok x) := by
      by_cases hnil : order = []
      · exact ⟨.nth 0, fun hne => absurd hnil hne, fun _ hne => absurd hnil hne⟩
      · have hcur := hidle.current_of_turns hnil
        exact ⟨⟨_, hcur⟩, fun _ => rfl, fun hnone _ => hfresh hnone _ rfl⟩
    obtain ⟨hitems, halike, hends⟩ := Dealt.runs_alike hall ha hord.dealt hx fresh src d hsource
    refine ⟨hends.imp ?_, hitems ▸ hprefix, fun hquiet => ?_⟩
    · rintro k e ⟨c, t, hc, hne, ht, hout⟩ e' he'
      have hk : k ∈ order := hord.complete k c hc (ht ▸ Option.some_ne_none t)
      have hover : c.pc.running = false := Pc.over_of_ending ((ending_of_call hc).symm.trans he')
      rcases ending_due hl hassigned (hx (List.ne_nil_of_mem hk)) hc hne
        (hplace c (List.mem_of_getElem? hc) hne) hover with ⟨t', ht', hend⟩ | hpc
      · cases ht.symm.trans ht'
        cases he'.symm.trans hend
        exact hout
      · rw [hpc] at ht
        cases ht
    · have hlog : s.arena.contents = log := by
        refine hprefix.eq_of_length ?_
        rw [SharedArena.length_contents hl.set, hl.published_eq hquiet, hord.reserved]
      refine ⟨hitems.trans hlog.symm, fun hne => halike hne _ ?_ rfl⟩
      exact hlog ▸ (hl.holds hquiet).1

/-- The block wins the race for the identity and takes the first turn, and the other
call publishes its slots. -/
theorem allocations_are_linearizable_helped :
    let tgt : Target := ⟨8, fun _ => true⟩
    let ls : List (Label Nat) :=
      [.start 0 (.alloc 7), .start 1 (.allocBlock [8, 9])] ++
      [0, 1, 0, 1, 1, 0, 0, 1, 1, 1, 0, 0, 0, 0, 0, 1, 1, 0, 0, 0, 0, 0, 0, 0, 0, 0, 0, 1].map
        fun i => .step i (.ok (.nth i)) false
    (idle (.new : SharedArena tgt Nat)).turns ls = [1, 0] ∧
      (runs (Arena.serve tgt script)
          ([1, 0].map ((idle (.new : SharedArena tgt Nat)).run ls).request)
          ⟨.new, [.nth 1], []⟩).2.arena.items
        = ((idle (.new : SharedArena tgt Nat)).run ls).arena.contents := by
  intro tgt ls
  have hls : ∀ l ∈ ls, l.Answered := by
    refine List.forall_mem_append.mpr ⟨?_, List.forall_mem_map.mpr fun i _ p hp => by cases hp⟩
    exact List.forall_mem_cons.mpr
      ⟨trivial, List.forall_mem_cons.mpr ⟨trivial, List.forall_mem_nil _⟩⟩
  have hquiet : ((idle (.new : SharedArena tgt Nat)).run ls).quiet = true := by decide +kernel
  have hcurrent : ((idle (.new : SharedArena tgt Nat)).run ls).arena.identity.current
      = (Stamp.nth 1).get := by decide +kernel
  have horder : (idle (.new : SharedArena tgt Nat)).turns ls = [1, 0] := by decide +kernel
  have hall : ∀ k, tgt.allocates k = true := fun _ => rfl
  refine ⟨horder, ?_⟩
  obtain ⟨-, -, -, h⟩ := allocations_are_linearizable hall (Alike.new (T := Nat)) ls hls
  rw [horder] at h
  generalize (idle (.new : SharedArena tgt Nat)).run ls = s at h hquiet hcurrent ⊢
  refine ((h script [.nth 1] [] fun _ x hx => ?_).2.2 hquiet).1
  rw [Stamp.get_inj.mp (hx.trans hcurrent)]
  rfl

end Shared

end SafeBump
