import SafeBump.Process
import SafeBump.Served

/-!
# Capabilities are exact

A run of a process is followed by one store for each arena.  The stores share
the stamps drawn so far, so a stamp in a handle says which store issued it
(`Process.Stores`).  One event moves the stores on (`Process.Follows`,
`Process.exists_follows`), and a run extends each of them by what it did to that
arena (`Process.exists_run`).

From there both directions of the claim about handles are facts about stores: a
handle of another arena carries a stamp this arena never had, and one of its own
is good until a boundary reaches its slot.
-/

namespace SafeBump

open Library.Unwind

variable {tgt : Target} {T : Type}

/-- A step of a store takes at most one stamp, and a new mark is the stamp taken. -/
theorem Store.Step.spends {t : ThreadId} {st st' : Store T} {sp sp' : StampSpace} {b : Option Nat}
    (h : Store.Step (StampSpace.fresh t) (st, sp) b (st', sp')) (hok : sp.Ok) :
    ∃ drawn, sp.Spends drawn sp' ∧ ∀ s ∈ st'.marks, s ∈ st.marks ∨ drawn = some s := by
  have hfresh := StampSpace.Spends.fresh hok t
  cases h with
  | idle => exact ⟨none, .refl hok, by intros; contradiction⟩
  | push vs ws e => exact ⟨none, .refl hok, fun s hs => .inl hs⟩
  | failed st hf =>
      rw [hf] at hfresh
      exact ⟨none, hfresh, fun s hs => .inl hs⟩
  | born ws hf =>
      rw [hf] at hfresh
      exact ⟨_, hfresh, fun s hs => .inr (congrArg some (List.mem_singleton.mp hs).symm)⟩
  | cut hf hn hk =>
      rw [hf] at hfresh
      refine ⟨_, hfresh, fun s hs => ?_⟩
      rcases List.mem_cons.mp hs with rfl | hs
      · exact .inr rfl
      · exact .inl hs

namespace Process

/-- What the arenas hold: one store each, no stamp in two of them. -/
structure Stores (tgt : Target) (p : Process T) (stores : Nat → Store T) : Prop where
  shares : p.stamps.Shares fun n => (stores n).marks
  models : ∀ n, Arena.Models tgt (p.arenas n) (stores n)

theorem Stores.initial : (initial : Process T).Stores tgt fun _ => .unused :=
  ⟨.initial, fun _ => .unused⟩

/-- The event `e` moves the stores on. -/
structure Follows (tgt : Target) (p : Process T) (stores : Nat → Store T) (e : Event T)
    (stores' : Nat → Store T) : Prop where
  models : ∀ n, Arena.Models tgt ((p.step tgt e).arenas n) (stores' n)
  marks : ∃ drawn n₀, p.stamps.Spends drawn (p.step tgt e).stamps ∧
    ∀ n, ∀ s ∈ (stores' n).marks, s ∈ (stores n).marks ∨ n = n₀ ∧ drawn = some s
  extended : ∀ n, (stores n).Extends (p.changes tgt n e) (stores' n)
  issued : ∀ n reply, p.reply tgt e = some (n, reply) →
    ∀ idx ∈ reply.issued tgt, (stores' n).isValid idx = true
  captured : ∀ n cp, p.reply tgt e = some (n, .checkpoint cp) →
    (stores' n).validateCheckpoint cp = .ok ()
  served : ∀ t n req, e = .request t n req →
    Store.Served tgt (StampSpace.fresh t) req ⟨stores n, p.stamps, p.dropped n⟩
      (p.outcome tgt t n req) ⟨stores' n, (p.step tgt e).stamps, (p.step tgt e).dropped n⟩

section Follows

variable {p : Process T} {stores : Nat → Store T}

theorem changes_other {e : Event T} {n : Nat} (h : e.arena ≠ some n) :
    p.changes tgt n e = [] := by
  cases e with
  | request t m req => exact if_neg fun he => h (congrArg some he)
  | write m w => exact if_neg fun he => h (congrArg some he)
  | draw t => rfl
  | exit t => rfl

theorem reply_request {t : ThreadId} {n m : Nat} {req : Request T} {r : Reply T}
    (h : p.reply tgt (.request t n req) = some (m, r)) :
    m = n ∧ p.outcome tgt t n req = .ok r := by
  rw [Process.reply] at h
  split at h
  · rename_i ho
    cases h
    exact ⟨rfl, ho⟩
  · cases h

/-- A write delivers the indices of the values it finds. -/
theorem reply_write {n m : Nat} {w : Write T} {r : Reply T}
    (h : p.reply tgt (.write n w) = some (m, r)) :
    m = n ∧ ∃ pairs, (p.arenas n).iterIndexed = .ok pairs ∧ r = .indexed pairs := by
  cases w with
  | getMut idx f => cases h
  | iterMut f => cases h
  | iterIndexedMut f =>
      rw [Process.reply] at h
      split at h
      · rename_i hi
        cases h
        exact ⟨rfl, _, hi, rfl⟩
      · cases h

/-- Only the arena an event is about has to be looked at. -/
theorem Follows.of_put (hm : ∀ n, Arena.Models tgt (p.arenas n) (stores n)) {e : Event T} {n : Nat}
    {st : Store T} {c : Ctx (Arena T) StampSpace T} {drawn : Option Stamp}
    (harena : e.arena = some n) (hstep : p.step tgt e = p.put n c)
    (hmodels : Arena.Models tgt c.arena st) (hspends : p.stamps.Spends drawn c.source)
    (hmarks : ∀ s ∈ st.marks, s ∈ (stores n).marks ∨ drawn = some s)
    (hext : (stores n).Extends (p.changes tgt n e) st)
    (hreply : ∀ m r, p.reply tgt e = some (m, r) → m = n ∧
      (∀ idx ∈ r.issued tgt, st.isValid idx = true) ∧
      ∀ cp, r = .checkpoint cp → st.validateCheckpoint cp = .ok ())
    (hserved : ∀ t m req, e = .request t m req → m = n ∧
      Store.Served tgt (StampSpace.fresh t) req ⟨stores n, p.stamps, p.dropped n⟩
        (p.outcome tgt t n req) ⟨st, c.source, c.dropped⟩) :
    p.Follows tgt stores e (Function.update stores n st) := by
  constructor
  case models =>
    intro m
    rw [hstep]
    rcases eq_or_ne m n with rfl | hne
    · rwa [arenas_put_self, Function.update_self]
    · rw [p.arenas_put_of_ne hne, Function.update_of_ne hne]
      exact hm m
  case marks =>
    rw [hstep]
    refine ⟨drawn, n, hspends, fun m s hs => ?_⟩
    rcases eq_or_ne m n with rfl | hne
    · rw [Function.update_self] at hs
      exact (hmarks s hs).imp_right fun hd => ⟨rfl, hd⟩
    · rw [Function.update_of_ne hne] at hs
      exact .inl hs
  case extended =>
    intro m
    rcases eq_or_ne m n with rfl | hne
    · rwa [Function.update_self]
    · have hother : e.arena ≠ some m := fun h => hne (Option.some.inj (h.symm.trans harena))
      rw [Function.update_of_ne hne, changes_other hother]
      exact .refl _
  case issued =>
    intro m r hr idx hidx
    obtain ⟨rfl, hissued, -⟩ := hreply m r hr
    rw [Function.update_self]
    exact hissued idx hidx
  case captured =>
    intro m cp hr
    obtain ⟨rfl, -, hcaptured⟩ := hreply m _ hr
    rw [Function.update_self]
    exact hcaptured cp rfl
  case served =>
    intro t m req he
    obtain ⟨rfl, h⟩ := hserved t m req he
    rw [Function.update_self, hstep, stamps_put, dropped_put_self]
    exact h

theorem follows_request (hm : ∀ n, Arena.Models tgt (p.arenas n) (stores n)) (hok : p.stamps.Ok)
    (hused : ∀ n, ∀ s ∈ (stores n).marks, ¬ p.stamps.Unused s.get) (t : ThreadId) (n : Nat)
    (req : Request T) : ∃ stores', p.Follows tgt stores (.request t n req) stores' := by
  have hnew : ∀ s sp', p.stamps.fresh t = (.ok s, sp') → s ∉ (stores n).marks :=
    fun s sp' hf hs => hused n s hs (StampSpace.fresh_unused hok hf).1
  have hsrc : ∀ q sp', p.stamps.fresh t = (.error q, sp') → q = .stampSpaceExhausted :=
    fun q sp' hf => (StampSpace.fresh_error hok hf).1
  obtain ⟨⟨st, sp, d⟩, ⟨hmodels, rfl, rfl⟩, hserved⟩ :=
    Arena.serve_served (hm n) hnew hsrc req (p.dropped n)
  obtain ⟨drawn, hspends, hmarks⟩ := hserved.step.spends hok
  refine ⟨_, .of_put (c := left (p.served tgt t n req)) hm rfl rfl hmodels hspends hmarks ?_ ?_ ?_⟩
  · rw [changes, if_pos rfl]
    exact .of_step hserved.step
  · intro m r hr
    obtain ⟨rfl, ho⟩ := reply_request hr
    exact ⟨rfl, hserved.issued r ho, fun cp hcp => hserved.captured cp (hcp ▸ ho)⟩
  · rintro _ _ _ ⟨⟩
    exact ⟨rfl, hserved⟩

theorem follows_write (hm : ∀ n, Arena.Models tgt (p.arenas n) (stores n)) (hok : p.stamps.Ok)
    (n : Nat) (w : Write T) : ∃ stores', p.Follows tgt stores (.write n w) stores' := by
  obtain ⟨st, hmodels, hext, hmarks⟩ := Arena.write_keeps (hm n) w p.stamps (p.dropped n)
  have hsource := (Arena.write_frame w (p.ctx n)).1
  have hspends : p.stamps.Spends none (left ((Arena.write w).run (p.ctx n))).source := by
    rw [hsource]
    exact .refl hok
  refine ⟨_, .of_put hm rfl rfl hmodels hspends (fun s hs => .inl (hmarks ▸ hs)) ?_ ?_
    fun _ _ _ he => by cases he⟩
  · rw [changes, if_pos rfl]
    exact hext
  · intro m r hr
    obtain ⟨rfl, pairs, hi, rfl⟩ := reply_write hr
    refine ⟨rfl, fun idx hidx => ?_, by intros; contradiction⟩
    cases (Arena.iterIndexed_eq (hm m)).symm.trans hi
    obtain ⟨⟨_, v⟩, hmem, rfl⟩ := List.mem_map.mp hidx
    refine (hext.isValid_iff hmodels.ok (Store.isValid_indexed hmem).1).mpr fun k hk => ?_
    rw [Arena.boundaries_changes] at hk
    cases hk

theorem exists_follows (hm : ∀ n, Arena.Models tgt (p.arenas n) (stores n)) (hok : p.stamps.Ok)
    (hused : ∀ n, ∀ s ∈ (stores n).marks, ¬ p.stamps.Unused s.get) (e : Event T) :
    ∃ stores', p.Follows tgt stores e stores' := by
  cases e with
  | request t n req => exact follows_request hm hok hused t n req
  | write n w => exact follows_write hm hok n w
  | draw t =>
      exact ⟨stores, hm, ⟨_, 0, .fresh hok t, fun _ _ hs => .inl hs⟩, fun n => .refl _,
        (fun _ _ he => by cases he), (fun _ _ he => by cases he), fun _ _ _ he => by cases he⟩
  | exit t =>
      exact ⟨stores, hm, ⟨_, 0, .exit hok t, fun _ _ hs => .inl hs⟩, fun n => .refl _,
        (fun _ _ he => by cases he), (fun _ _ he => by cases he), fun _ _ _ he => by cases he⟩

end Follows

/-- An event keeps the stores in order. -/
theorem Stores.step {p : Process T} {stores : Nat → Store T} (h : p.Stores tgt stores)
    (e : Event T) :
    ∃ stores', (p.step tgt e).Stores tgt stores' ∧ p.Follows tgt stores e stores' := by
  obtain ⟨stores', hf⟩ := exists_follows h.models h.shares.ok h.shares.used e
  obtain ⟨drawn, n₀, hspends, hmarks⟩ := hf.marks
  exact ⟨stores', ⟨h.shares.spends hspends n₀ hmarks, hf.models⟩, hf⟩

/-- A run extends every store by what it did to that arena. -/
theorem Stores.run {p : Process T} {stores : Nat → Store T} (h : p.Stores tgt stores)
    (es : List (Event T)) :
    ∃ stores', (p.run tgt es).Stores tgt stores' ∧
      ∀ n, (stores n).Extends (changesOver tgt n p es) (stores' n) := by
  induction es generalizing p stores with
  | nil => exact ⟨stores, h, fun n => .refl _⟩
  | cons e es ih =>
      obtain ⟨stores₁, h₁, hf⟩ := h.step e
      obtain ⟨stores₂, h₂, hext⟩ := ih h₁
      exact ⟨stores₂, h₂, fun n => (hf.extended n).trans (hext n)⟩

/-- The checks of arena `b` on a handle say what its store says. -/
theorem Stores.judged {p : Process T} {stores : Nat → Store T} (h : p.Stores tgt stores) {b : Nat}
    {idx : Idx} (hs : (stores b).Sound idx) :
    (p.arenas b).isValid idx = (stores b).isValid idx ∧
      (p.arenas b).tryGet idx = (stores b).tryGet idx ∧
      (p.arenas b).tryGetMut idx = (stores b).tryGet idx :=
  ⟨Arena.isValid_eq (h.models b) hs, Arena.tryGet_eq (h.models b) hs,
    (Arena.tryGetMut_eq_tryGet _ _).trans (Arena.tryGet_eq (h.models b) hs)⟩

/-- A handle is accepted by the arena that issued it, as long as that arena has
begun no boundary at or below its slot, and by no other.  It names the value
it was issued for, as written to since. -/
theorem capabilities_are_exact (tgt : Target) (es₁ es₂ : List (Event T)) (e : Event T) {a : Nat}
    {reply : Reply T} {idx : Idx} (hreply : (initial.run tgt es₁).reply tgt e = some (a, reply))
    (hissued : idx ∈ reply.issued tgt) (b : Nat) :
    let p := (initial.run tgt es₁).step tgt e
    let q := p.run tgt es₂
    let cs := changesOver tgt a p es₂
    let good := b = a ∧ ∀ n ∈ Change.boundaries cs, idx.slot < n
    ((q.arenas b).isValid idx = true ↔ good) ∧
      (((q.arenas b).tryGet idx).isSome = true ↔ good) ∧
      (((q.arenas b).tryGetMut idx).isSome = true ↔ good) ∧
      ∃ v, (p.arenas a).items[idx.slot]? = some v ∧
        (good → (q.arenas b).tryGet idx = some (Change.rewritten idx.slot cs v) ∧
          (q.arenas b).tryGetMut idx = some (Change.rewritten idx.slot cs v)) := by
  intro p q cs good
  obtain ⟨stores₁, h₁, -⟩ := (Stores.initial : initial.Stores tgt _).run es₁
  obtain ⟨stores₂, h₂, hf⟩ := h₁.step e
  obtain ⟨stores₃, h₃, hext⟩ := h₂.run es₂
  have hvalid := hf.issued a reply hreply idx hissued
  have hkeeps := (hext a).isValid_iff (h₃.models a).ok hvalid
  -- the store of `b` decides, and it knows the handle only if it is that of `a`
  have hstore : (stores₃ b).Sound idx ∧ ((stores₃ b).isValid idx = true ↔ good) := by
    rcases eq_or_ne b a with rfl | hne
    · exact ⟨(hext b).sound (h₃.models b).ok hvalid, hkeeps.trans (and_iff_right rfl).symm⟩
    · have hmine := (hext a).marks_subset (Store.stamp_mem hvalid)
      have hnot : idx.stamp ∉ (stores₃ b).marks := fun hs =>
        hne (h₃.shares.apart b a idx.stamp hs hmine)
      refine ⟨Store.sound_of_notMem hnot, ?_⟩
      rw [Store.isValid_eq_false hnot]
      exact ⟨by intros; contradiction, fun hg => absurd hg.1 hne⟩
  obtain ⟨hsound, hiff⟩ := hstore
  obtain ⟨hv, hg, hgm⟩ := h₃.judged hsound
  rw [hv, hg, hgm, Store.isSome_tryGet]
  have hget := List.getElem?_eq_getElem (Store.slot_lt hvalid)
  refine ⟨hiff, hiff, hiff, _, (congrArg (·[idx.slot]?) (h₂.models a).items).trans hget, ?_⟩
  rintro ⟨rfl, hb⟩
  have hkept := (hext b).tryGet_eq (h₃.models b).ok hvalid (hkeeps.mpr hb)
  rw [Store.tryGet_of_isValid hvalid, hget] at hkept
  exact ⟨hkept, hkept⟩

/-- A rollback to length 1 whose destructor panics at slot 1 leaves the handle of
slot 0 good.  Another arena refuses it. -/
theorem capabilities_are_exact_interrupted :
    let tgt : Target := ⟨8, fun _ => true⟩
    let idx : Idx := ⟨.nth 256, 0⟩
    let es : List (Event Nat) := [.request 0 0 (.allocBlock ⟨[8, 9], false⟩),
      .write 0 (.iterMut fun _ v => v + 10),
      .request 1 0 (.tryRollback ⟨.nth 256, 1, some (.nth 256)⟩ fun slot _ => slot == 1)]
    let p := (initial.run tgt [.request 1 1 (.alloc 5)]).step tgt (.request 0 0 (.alloc 7))
    ((p.run tgt es).arenas 0).isValid idx = true ∧
      ((p.run tgt es).arenas 1).isValid idx = false := by
  intro tgt idx es p
  have hreply : (initial.run tgt [.request 1 1 (.alloc 5)]).reply tgt (.request 0 0 (.alloc 7))
      = some (0, .idx idx) := rfl
  have h := capabilities_are_exact tgt [.request 1 1 (.alloc 5)] es (.request 0 0 (.alloc 7)) hreply
    (List.mem_singleton_self idx)
  refine ⟨(h 0).1.mpr ⟨rfl, ?_⟩, ?_⟩
  · have hb : Change.boundaries (changesOver tgt 0 p es) = [1] := by decide +kernel
    rw [hb]
    exact fun n hn => List.mem_singleton.mp hn ▸ Nat.one_pos
  · exact Bool.eq_false_iff.mpr fun hv => by cases ((h 1).1.mp hv).1

end Process

end SafeBump
