import SafeBump.Publication

/-!
# Where the values of a concurrent arena are

While calls are under way a value is in a slot, in the frame of the call that
brought it, or dropped.  A move of a call takes at most one value from its frame
to a slot, and a call that unwinds drops what its frame still owns
(`Ask.move_conserves`).  Nothing gets lost on the way
(`Shared.Layout.step_conserves`), and nothing is put on top of another value:
the slot a call fills is empty, and so is every slot not reserved yet.
-/

namespace SafeBump

variable {tgt : Target} {T : Type}

/-- The values in the slots reserved so far. -/
def SharedArena.stored (a : SharedArena tgt T) : List T :=
  (List.range a.reserved).filterMap a.storage.slots

/-- What a call drops by going from `pc` to the place given last. -/
def Pc.spilled (values : List T) (pc : Pc T) : Pc T → List T
  | .unwound _ => pc.owned values
  | _ => []

/-- A call that wants stamps for a checkpoint brings no values. -/
def Pc.Bare (values : List T) : Pc T → Prop
  | .loadLen => values = []
  | pc => ∀ use, pc.use = some use → use ≠ .range → values = []

/-! ## Slots -/

namespace SharedArena

variable {a a' : SharedArena tgt T}

/-- Reserving empty slots brings no value. -/
theorem stored_of_reserve {n : Nat} (hst : a'.storage = a.storage)
    (hres : a'.reserved = a.reserved + n)
    (habove : ∀ i, a.reserved ≤ i → a.storage.slots i = none) : a'.stored = a.stored := by
  have hnew : ((List.range n).map fun i => a.reserved + i).filterMap a.storage.slots = [] := by
    refine List.filterMap_eq_nil_iff.mpr fun i hi => habove i ?_
    obtain ⟨k, -, rfl⟩ := List.mem_map.mp hi
    exact Nat.le_add_right _ _
  rw [stored, stored, hst, hres, List.range_add, List.filterMap_append, hnew, List.append_nil]

/-- Filling an empty slot. -/
theorem perm_stored_of_fill {k : Nat} {v : T} (hres : a'.reserved = a.reserved)
    (hk : k < a.reserved) (hempty : a.storage.slots k = none)
    (hslots : ∀ i, a'.storage.slots i = if i = k then some v else a.storage.slots i) :
    a'.stored.Perm (v :: a.stored) := by
  rw [stored, stored, hres]
  refine Library.perm_filterMap_range hk hempty ?_ fun i hi => ?_
  · rw [hslots, if_pos rfl]
  · rw [hslots, if_neg hi]

end SharedArena

/-! ## Moves -/

section Move

variable {a : SharedArena tgt T}

theorem fillPc_owned {values : List T} (stamp : Stamp) {start : Nat} (offset : Nat)
    (hfit : start + values.length ≤ tgt.usizeMax) (pc : Pc T) :
    (fillPc tgt values stamp start offset).owned values = values.drop offset ∧
      pc.spilled values (fillPc tgt values stamp start offset) = [] := by
  rw [fillPc]
  split
  · exact ⟨rfl, rfl⟩
  · have hdrop : values.drop offset = [] := List.drop_eq_nil_of_le (Nat.le_of_not_lt ‹_›)
    have hadd : tgt.checkedAdd start (values.length - 1) = some (start + (values.length - 1)) :=
      Target.checkedAdd_eq_some.mpr ⟨by omega, rfl⟩
    rw [hadd, hdrop]
    exact ⟨rfl, rfl⟩

theorem SharedIdentity.tailPc_owned (id : SharedIdentity) (len : Nat)
    (values : List T) (pc : Pc T) :
    (id.tailPc len).owned values = values ∧ pc.spilled values (id.tailPc len) = [] := by
  cases len with
  | zero => exact ⟨rfl, rfl⟩
  | succ slot =>
      rw [tailPc]
      split
      · exact ⟨rfl, rfl⟩
      · split
        · exact ⟨rfl, rfl⟩
        · split
          · exact ⟨rfl, rfl⟩
          · split <;> exact ⟨rfl, rfl⟩

theorem Use.resume_owned {use : Use} {values : List T} (stamp : Stamp)
    (h : use ≠ .range → values = []) (pc : Pc T) :
    (use.resume stamp).owned values = values ∧ pc.spilled values (use.resume stamp) = [] := by
  cases use with
  | range => exact ⟨rfl, rfl⟩
  | tail len => exact ⟨rfl, rfl⟩
  | birthTail len => exact ⟨rfl, rfl⟩
  | owner len last => exact ⟨(h fun he => by cases he).symm, rfl⟩

/-- A move takes no value away and adds none. -/
theorem Ask.move_conserves (hall : ∀ k, tgt.allocates k = true) {ask : Ask T}
    (answer : Except Panic Stamp) (mishap : Bool) {pc : Pc T} (h : pc.Sound ask.values.length a)
    (hin : ∀ r ∈ pc.range ask.values.length, Placed a ask.values r)
    (hfits : a.reserved ≤ tgt.usizeMax) (habove : ∀ i, a.reserved ≤ i → a.storage.slots i = none)
    (hbare : pc.Bare ask.values) :
    (a.stored + pc.owned ask.values : Multiset T)
      = (ask.move answer mishap a pc).1.stored + (ask.move answer mishap a pc).2.owned ask.values
        + pc.spilled ask.values (ask.move answer mishap a pc).2 := by
  -- most moves leave the slots alone, and the frame or what unwinding drops
  have hkept : ∀ (a' : SharedArena tgt T) (pc' : Pc T), a'.stored = a.stored →
      pc'.owned ask.values = pc.owned ask.values → pc.spilled ask.values pc' = [] →
      (a.stored + pc.owned ask.values : Multiset T)
        = a'.stored + pc'.owned ask.values + pc.spilled ask.values pc' := by
    intro a' pc' hst howned hspilled
    rw [hst, howned, hspilled, Multiset.coe_nil, add_zero]
  have hunwound : ∀ p, (a.stored + pc.owned ask.values : Multiset T)
      = a.stored + (Pc.unwound p).owned ask.values + pc.spilled ask.values (.unwound p) :=
    fun p => by rw [show (Pc.unwound p).owned ask.values = [] from rfl, Multiset.coe_nil, add_zero,
      show pc.spilled ask.values (.unwound p) = pc.owned ask.values from rfl]
  cases pc with
  | loadLen =>
      obtain ⟨howned, hspilled⟩ := a.identity.tailPc_owned a.published ask.values .loadLen
      exact hkept _ _ rfl howned hspilled
  | load use =>
      rw [Ask.move]
      split
      · exact hkept _ _ rfl rfl rfl
      · obtain ⟨howned, hspilled⟩ := Use.resume_owned ⟨_, ‹_›⟩ (hbare use rfl) (.load use)
        exact hkept _ _ rfl howned hspilled
  | draw use =>
      cases answer with
      | error p => exact hunwound p
      | ok fresh => exact hkept _ _ rfl rfl rfl
  | exchangeBirth use fresh =>
      rw [Ask.move]
      split <;> exact hkept _ _ rfl rfl rfl
  | storeCurrent use fresh => exact hkept _ _ rfl rfl rfl
  | reread use =>
      rw [Ask.move]
      split
      · exact hkept _ _ rfl rfl rfl
      · obtain ⟨howned, hspilled⟩ := Use.resume_owned ⟨_, ‹_›⟩ (hbare use rfl) (.reread use)
        exact hkept _ _ rfl howned hspilled
  | reserve stamp =>
      rw [Ask.move]
      split
      · exact hunwound _
      · obtain ⟨hfit, rfl⟩ := Target.checkedAdd_eq_some.mp ‹_›
        obtain ⟨howned, hspilled⟩ := fillPc_owned stamp 0 hfit (.reserve stamp)
        exact hkept _ _ (SharedArena.stored_of_reserve rfl rfl habove) howned hspilled
  | set stamp start offset =>
      have hlt : offset < ask.values.length := h
      obtain ⟨hbelow, hslots⟩ := hin _ rfl
      have hadd : tgt.checkedAdd start offset = some (start + offset) :=
        Target.checkedAdd_eq_some.mpr ⟨by omega, rfl⟩
      have hempty : a.storage.slots (start + offset) = none := by
        rw [hslots offset hlt, if_neg (Nat.lt_irrefl _)]
      obtain ⟨st, hset, hst⟩ := ChunkedStorage.set_empty (hall _)
        (by omega : start + offset < tgt.usizeMax) hempty ask.values[offset]
      have hget : ask.values[offset]? = some ask.values[offset] := List.getElem?_eq_getElem hlt
      obtain ⟨howned, hspilled⟩ := fillPc_owned stamp (offset + 1) (Nat.le_trans hbelow hfits)
        (.set stamp start offset)
      have hperm :
        (SharedArena.stored { a with storage := st }).Perm (ask.values[offset] :: a.stored) :=
        SharedArena.perm_stored_of_fill rfl (by simp only at hbelow; omega) hempty hst
      rw [Ask.move, hget]
      simp only [hadd, hset]
      rw [howned, hspilled, Multiset.coe_eq_coe.mpr hperm]
      rw [show (Pc.set stamp start offset).owned ask.values = ask.values.drop offset from rfl,
        List.drop_eq_getElem_cons hlt, ← Multiset.cons_coe, ← Multiset.cons_coe, Multiset.coe_nil,
        add_zero, Multiset.add_cons, Multiset.cons_add]
  | loadPublished stamp start last =>
      rw [Ask.move]
      split
      · rw [Ask.finish.eq_def]
        split
        · split <;> exact hkept _ _ rfl rfl rfl
        · exact hkept _ _ rfl rfl rfl
      · exact hkept _ _ rfl rfl rfl
  | isSet stamp start last published => rw [Ask.move]; split <;> exact hkept _ _ rfl rfl rfl
  | advance stamp start last published => rw [Ask.move]; split <;> exact hkept _ _ rfl rfl rfl
  | returned reply => exact hkept _ _ rfl rfl rfl
  | unwound p => exact hkept _ _ rfl rfl rfl

theorem Pc.bare_of_nil {values : List T} (h : values = []) (pc : Pc T) : pc.Bare values := by
  cases pc with
  | loadLen => exact h
  | _ => exact fun _ _ _ => h

/-- A call of an allocation never turns into one of a checkpoint. -/
theorem Ask.move_bare {ask : Ask T} (answer : Except Panic Stamp) (mishap : Bool)
    (a : SharedArena tgt T) {pc : Pc T} (h : pc.Bare ask.values) :
    (ask.move answer mishap a pc).2.Bare ask.values := by
  have hresume : ∀ {use : Use} (stamp : Stamp), (use ≠ .range → ask.values = []) →
      (use.resume stamp : Pc T).Bare ask.values := by
    intro use stamp hu
    cases use with
    | range => exact fun _ hu => by cases hu
    | tail len => exact Pc.bare_of_nil (hu fun he => by cases he) _
    | birthTail len => exact Pc.bare_of_nil (hu fun he => by cases he) _
    | owner len last => exact fun _ hu => by cases hu
  have hfill : ∀ stamp start offset,
      (fillPc tgt ask.values stamp start offset).Bare ask.values := by
    intro stamp start offset
    rw [fillPc]
    split
    · exact fun _ hu => by cases hu
    · split <;> exact fun _ hu => by cases hu
  cases pc with
  | loadLen => exact Pc.bare_of_nil h _
  | load use =>
      rw [Ask.move]
      split
      · exact h
      · exact hresume _ (h use rfl)
  | draw use =>
      cases answer with
      | error p => exact fun _ hu => by cases hu
      | ok fresh => exact h
  | exchangeBirth use fresh => rw [Ask.move]; split <;> exact h
  | storeCurrent use fresh => exact h
  | reread use =>
      rw [Ask.move]
      split
      · exact h
      · exact hresume _ (h use rfl)
  | reserve stamp =>
      rw [Ask.move]
      split
      · exact fun _ hu => by cases hu
      · exact hfill _ _ _
  | set stamp start offset =>
      rw [Ask.move]
      split
      · exact hfill _ _ _
      · split
        · exact fun _ hu => by cases hu
        · split
          · exact fun _ hu => by cases hu
          · exact fun _ hu => by cases hu
          · exact hfill _ _ _
  | loadPublished stamp start last =>
      rw [Ask.move]
      split
      · rw [Ask.finish.eq_def]
        split
        · split <;> exact fun _ hu => by cases hu
        · exact fun _ hu => by cases hu
      · exact fun _ hu => by cases hu
  | isSet stamp start last published => rw [Ask.move]; split <;> exact fun _ hu => by cases hu
  | advance stamp start last published => rw [Ask.move]; split <;> exact fun _ hu => by cases hu
  | returned reply => exact fun _ hu => by cases hu
  | unwound p => exact fun _ hu => by cases hu

theorem Ask.start_bare (ask : Ask T) : ask.start.Bare ask.values ∧
    ask.start.owned ask.values = ask.values := by
  cases ask with
  | alloc value => exact ⟨fun use hu hne => absurd (Option.some.inj hu).symm hne, rfl⟩
  | checkpoint => exact ⟨rfl, rfl⟩
  | allocBlock values =>
      cases values with
      | nil => exact ⟨(fun _ hu => by cases hu), rfl⟩
      | cons v values => exact ⟨fun use hu hne => absurd (Option.some.inj hu).symm hne, rfl⟩

end Move

/-! ## Steps -/

namespace Shared

/-- The values in the frames of the calls. -/
def owned (s : Shared tgt T) : List T := s.calls.flatMap fun c => c.pc.owned c.ask.values

/-- No call for a checkpoint brings values. -/
def Bare (s : Shared tgt T) : Prop := ∀ c ∈ s.calls, c.pc.Bare c.ask.values

section Step

variable {s : Shared tgt T} {i : Nat} {answer : Except Panic Stamp} {mishap : Bool}

theorem dropped_step {c : Call T} (hc : s.calls[i]? = some c) :
    (s.step i answer mishap).dropped = s.dropped ++
      c.pc.spilled c.ask.values (c.ask.move answer mishap s.arena c.pc).2 := by
  rw [step, hc]
  simp only
  split
  · rename_i hpc
    rw [hpc]
    rfl
  · rename_i hne
    cases hpc : (c.ask.move answer mishap s.arena c.pc).2 with
    | unwound p => exact absurd hpc (hne p)
    | _ => exact (List.append_nil _).symm

/-- The frame of one call and those of the others. -/
theorem owned_of_call {c : Call T} (hc : s.calls[i]? = some c) :
    (s.owned : Multiset T) = c.pc.owned c.ask.values +
      (s.calls.eraseIdx i).flatMap fun c => c.pc.owned c.ask.values := by
  obtain ⟨hlt, rfl⟩ := List.getElem?_eq_some_iff.mp hc
  have hperm := (List.getElem_cons_eraseIdx_perm hlt).flatMap_right fun c => c.pc.owned c.ask.values
  exact Multiset.coe_eq_coe.mpr hperm.symm

/-- A step moves values between slots, frames and what is dropped. -/
theorem Layout.step_conserves (hall : ∀ k, tgt.allocates k = true) {items : List T}
    (h : s.Layout items) (hbare : s.Bare) (i : Nat) (answer : Except Panic Stamp) (mishap : Bool) :
    let s' := s.step i answer mishap
    (s.arena.stored + s.owned + s.dropped : Multiset T)
      = s'.arena.stored + s'.owned + s'.dropped := by
  intro s'
  cases hc : s.calls[i]? with
  | none => rw [show s' = s from step_of_none hc]
  | some c =>
      have hself : s'.calls[i]?
        = some { c with pc := (c.ask.move answer mishap s.arena c.pc).2 } := by
        rw [getElem?_step hc, if_pos rfl]
      have hrest : s'.calls.eraseIdx i = s.calls.eraseIdx i := by
        rw [calls_step hc, List.eraseIdx_set_eq]
      have hmove := Ask.move_conserves hall answer mishap (h.sound i c hc)
        (fun r hr => (h.placed i _ r ((reserved_of_call hc _ _).mpr ⟨rfl, hr⟩)).2) h.fits h.above
        (hbare c (List.mem_of_getElem? hc))
      rw [owned_of_call hc, owned_of_call hself, hrest, dropped_step hc, arena_step hc,
        ← Multiset.coe_add s.dropped]
      -- the frames of the other calls stay where they are
      rw [← add_assoc (s.arena.stored : Multiset T), hmove]
      abel

theorem owned_start (s : Shared tgt T) (t : ThreadId) (ask : Ask T) :
    (s.start t ask).owned = s.owned ++ ask.values := by
  rw [owned, owned, Shared.start, List.flatMap_append]
  simp only [List.flatMap_cons, List.flatMap_nil, List.append_nil, ask.start_bare.2]

/-- A call that is over owns nothing. -/
theorem owned_of_quiet (h : s.quiet = true) : s.owned = [] := by
  refine List.flatMap_eq_nil_iff.mpr fun c hc => ?_
  have hdone := List.all_eq_true.mp h c hc
  cases hpc : c.pc with
  | returned reply => rfl
  | unwound p => rfl
  | _ =>
      rw [hpc] at hdone
      cases hdone

/-- Once no call is under way the filled slots are those published. -/
theorem Layout.stored_eq {items : List T} (h : s.Layout items) (hquiet : s.quiet = true) :
    s.arena.stored = s.arena.contents := by
  rw [SharedArena.stored, SharedArena.contents, h.published_eq hquiet]

end Step

end Shared

end SafeBump
