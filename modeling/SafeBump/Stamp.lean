import SafeBump.Runtime

/-!
# Stamps

`stamp.rs`.  A stamp is a nonzero 64-bit number.  A thread takes stamps from a
pool of its own, `[next, end)`, and refills it from the process-wide counter
`NEXT_STAMP` by one atomic reservation.  What a dead thread leaves in its pool
is never handed out again.

`StampSpace` is the counter together with the pools of all threads.  A number
is *unused* when it lies in some pool or has not been reserved yet.  Drawing a
stamp takes one number out of the unused ones and adds none, so no stamp is
drawn twice (`StampSpace.fresh_unused`, `StampSpace.fresh_shrinks`).
-/

namespace SafeBump

/-- A process-unique, nonzero identity. -/
structure Stamp where
  /-- The raw value. -/
  get : Nat
  /-- `NonZeroU64`. -/
  ne_zero : get ≠ 0
deriving DecidableEq, Repr

theorem Stamp.get_inj {a b : Stamp} : a.get = b.get ↔ a = b := by
  cases a
  cases b
  simp

/-- The stamp `n + 1`: the sequence starts at one. -/
def Stamp.nth (n : Nat) : Stamp := ⟨n + 1, Nat.succ_ne_zero n⟩

/-- `Stamp::from_raw`. -/
def Stamp.fromRaw (raw : Nat) : Except Panic Stamp :=
  if h : raw = 0 then .error .stampZero else .ok ⟨raw, h⟩

/-- The stamps one thread may still take. -/
structure StampPool where
  next : Nat
  end_ : Nat
deriving DecidableEq, Repr

/-- `StampPool::new`. -/
def StampPool.new : StampPool := ⟨0, 0⟩

/-- The pool holds the number `x`. -/
def StampPool.Holds (pool : StampPool) (x : Nat) : Prop := pool.next ≤ x ∧ x < pool.end_

/-- `LOCAL_RESERVATION_LEN`. -/
def localReservationLen : Nat := 256

/-- `reserve_raw`, at the value `nextStamp` of `NEXT_STAMP`: the range reserved
and the value stored back. -/
def reserveRaw (len nextStamp : Nat) : Except Panic ((Nat × Nat) × Nat) :=
  if len = 0 then .error .stampReservationEmpty
  else
    match checkedAdd 64 nextStamp len with
    | none => .error .stampSpaceExhausted
    | some stored =>
        match checkedAdd 64 nextStamp len with
        | none => .error .stampReservationEnd
        | some end_ => .ok ((nextStamp, end_), stored)

/-- The part of `StampPool::fresh` after the refill: the pool it leaves, and
the stamp. -/
def StampPool.take (pool : StampPool) : StampPool × Except Panic Stamp :=
  match checkedAdd 64 pool.next 1 with
  | none => (pool, .error .stampRangeOverflow)
  | some next => (⟨next, pool.end_⟩, Stamp.fromRaw pool.next)

/-- `StampPool::fresh`, with the value of `NEXT_STAMP` before and after. -/
def StampPool.fresh (len nextStamp : Nat) (pool : StampPool) :
    Nat × StampPool × Except Panic Stamp :=
  if pool.next = pool.end_ then
    match reserveRaw len nextStamp with
    | .error p => (nextStamp, pool, .error p)
    | .ok ((start, end_), stored) => (stored, StampPool.take ⟨start, end_⟩)
  else (nextStamp, pool.take)

theorem reserveRaw_of_fits {len nextStamp : Nat} (hlen : 0 < len) (h : nextStamp + len < 2 ^ 64) :
    reserveRaw len nextStamp = .ok ((nextStamp, nextStamp + len), nextStamp + len) := by
  have hadd : checkedAdd 64 nextStamp len = some (nextStamp + len) := if_pos h
  simp only [reserveRaw, if_neg (Nat.ne_of_gt hlen), hadd]

theorem reserveRaw_of_full {len nextStamp : Nat} (hlen : 0 < len) (h : 2 ^ 64 ≤ nextStamp + len) :
    reserveRaw len nextStamp = .error .stampSpaceExhausted := by
  have hadd : checkedAdd 64 nextStamp len = none := if_neg (Nat.not_lt.mpr h)
  simp only [reserveRaw, if_neg (Nat.ne_of_gt hlen), hadd]

theorem reserveRaw_eq_ok {len nextStamp start end_ stored : Nat} (hlen : 0 < len) :
    reserveRaw len nextStamp = .ok ((start, end_), stored) ↔
      nextStamp + len < 2 ^ 64 ∧ start = nextStamp ∧ end_ = nextStamp + len ∧
        stored = nextStamp + len := by
  rcases Nat.lt_or_ge (nextStamp + len) (2 ^ 64) with h | h
  · rw [reserveRaw_of_fits hlen h]
    constructor
    · intro he
      cases he
      exact ⟨h, rfl, rfl, rfl⟩
    · rintro ⟨-, rfl, rfl, rfl⟩
      rfl
  · rw [reserveRaw_of_full hlen h]
    exact ⟨by intros; contradiction, fun hlt => absurd hlt.1 (Nat.not_lt.mpr h)⟩

/-- The only check of a nonempty reservation that can fail is the one for room. -/
theorem reserveRaw_eq_error {len nextStamp : Nat} {p : Panic} (hlen : 0 < len) :
    reserveRaw len nextStamp = .error p ↔
      2 ^ 64 ≤ nextStamp + len ∧ p = .stampSpaceExhausted := by
  rcases Nat.lt_or_ge (nextStamp + len) (2 ^ 64) with h | h
  · rw [reserveRaw_of_fits hlen h]
    exact ⟨by intros; contradiction, fun hge => absurd h (Nat.not_lt.mpr hge.1)⟩
  · rw [reserveRaw_of_full hlen h]
    exact ⟨fun he => ⟨h, (Except.error.inj he).symm⟩, fun he => congrArg Except.error he.2.symm⟩

/-- A pool that holds a nonzero number below the end of the space hands it out. -/
theorem StampPool.take_of_holds {pool : StampPool} (hpos : 1 ≤ pool.next)
    (hfit : pool.next + 1 < 2 ^ 64) :
    ∃ s : Stamp, s.get = pool.next ∧ pool.take = (⟨pool.next + 1, pool.end_⟩, .ok s) := by
  have hne : pool.next ≠ 0 := Nat.ne_of_gt hpos
  have hadd : checkedAdd 64 pool.next 1 = some (pool.next + 1) := if_pos hfit
  refine ⟨⟨pool.next, hne⟩, rfl, ?_⟩
  simp only [StampPool.take, hadd, Stamp.fromRaw, dif_neg hne]

/-! ## The stamp space of a process -/

/-- Threads are numbered.  A number may be used again after its thread ended. -/
abbrev ThreadId := Nat

/-- `NEXT_STAMP` and the pools of all threads. -/
structure StampSpace where
  nextStamp : Nat
  pools : ThreadId → StampPool

namespace StampSpace

/-- The start of the process: `NEXT_STAMP` is 1 and every pool is empty. -/
def initial : StampSpace := ⟨1, fun _ => .new⟩

/-- Replace the pool of one thread. -/
def setPool (sp : StampSpace) (t : ThreadId) (pool : StampPool) : StampSpace :=
  ⟨sp.nextStamp, Function.update sp.pools t pool⟩

@[simp] theorem nextStamp_setPool (sp : StampSpace) (t : ThreadId) (pool : StampPool) :
    (sp.setPool t pool).nextStamp = sp.nextStamp := rfl

@[simp] theorem pools_setPool_self (sp : StampSpace) (t : ThreadId) (pool : StampPool) :
    (sp.setPool t pool).pools t = pool := by simp [setPool]

theorem pools_setPool_of_ne (sp : StampSpace) {t u : ThreadId} (h : u ≠ t) (pool : StampPool) :
    (sp.setPool t pool).pools u = sp.pools u := by simp [setPool, h]

/-- A number no call has returned and some call may still return. -/
def Unused (sp : StampSpace) (x : Nat) : Prop :=
  sp.nextStamp ≤ x ∨ ∃ t, (sp.pools t).Holds x

/-- What reservations keep: pools lie below the counter and share nothing. -/
structure Ok (sp : StampSpace) : Prop where
  pos : 1 ≤ sp.nextStamp
  fits : sp.nextStamp < 2 ^ 64
  ordered : ∀ t, (sp.pools t).next ≤ (sp.pools t).end_
  below : ∀ t, (sp.pools t).end_ ≤ sp.nextStamp
  positive : ∀ t, (sp.pools t).next < (sp.pools t).end_ → 1 ≤ (sp.pools t).next
  disjoint : ∀ t u x, (sp.pools t).Holds x → (sp.pools u).Holds x → t = u

theorem Ok.initial : StampSpace.initial.Ok where
  pos := Nat.le_refl _
  fits := by decide
  ordered := fun _ => Nat.le_refl _
  below := fun _ => Nat.zero_le _
  positive := fun _ h => absurd h (Nat.lt_irrefl _)
  disjoint := by
    intro t u x h
    exact absurd h.2 (Nat.not_lt_zero _)

/-- A pool shrunk from below keeps the pools in order. -/
theorem Ok.setPool {sp : StampSpace} (h : sp.Ok) {t : ThreadId} {pool : StampPool}
    (hord : pool.next ≤ pool.end_) (hbelow : pool.end_ ≤ sp.nextStamp)
    (hpos : pool.next < pool.end_ → 1 ≤ pool.next)
    (hsub : ∀ u x, u ≠ t → pool.Holds x → ¬ (sp.pools u).Holds x) : (sp.setPool t pool).Ok where
  pos := h.pos
  fits := h.fits
  ordered := by
    intro u
    by_cases hu : u = t
    · subst hu
      rwa [pools_setPool_self]
    · rw [pools_setPool_of_ne _ hu]
      exact h.ordered u
  below := by
    intro u
    by_cases hu : u = t
    · subst hu
      rwa [pools_setPool_self]
    · rw [pools_setPool_of_ne _ hu]
      exact h.below u
  positive := by
    intro u
    by_cases hu : u = t
    · subst hu
      rwa [pools_setPool_self]
    · rw [pools_setPool_of_ne _ hu]
      exact h.positive u
  disjoint := by
    intro u v x hx hy
    by_cases hu : u = t
    · subst hu
      rw [pools_setPool_self] at hx
      by_contra hv
      rw [pools_setPool_of_ne _ (Ne.symm hv)] at hy
      exact hsub v x (Ne.symm hv) hx hy
    · rw [pools_setPool_of_ne _ hu] at hx
      by_cases hv : v = t
      · subst hv
        rw [pools_setPool_self] at hy
        exact absurd hx (hsub u x hu hy)
      · rw [pools_setPool_of_ne _ hv] at hy
        exact h.disjoint u v x hx hy

/-! ### The three things that change the space -/

/-- A thread ends.  Its unused tail is abandoned; a later thread of the same
number starts with an empty pool. -/
def exit (sp : StampSpace) (t : ThreadId) : StampSpace := sp.setPool t .new

theorem Ok.exit {sp : StampSpace} (h : sp.Ok) (t : ThreadId) : (sp.exit t).Ok :=
  h.setPool (Nat.le_refl _) (Nat.zero_le _) (fun hlt => absurd hlt (Nat.lt_irrefl _))
    fun _ _ _ hx => absurd hx.2 (Nat.not_lt_zero _)

theorem exit_shrinks {sp : StampSpace} {t : ThreadId} {x : Nat} (hx : (sp.exit t).Unused x) :
    sp.Unused x := by
  rcases hx with hx | ⟨u, hu⟩
  · exact Or.inl hx
  · by_cases hut : u = t
    · subst hut
      rw [exit, pools_setPool_self] at hu
      exact absurd hu.2 (Nat.not_lt_zero _)
    · rw [exit, pools_setPool_of_ne _ hut] at hu
      exact Or.inr ⟨u, hu⟩

/-- A thread with an empty pool reserves a range of `len` numbers. -/
def refill (sp : StampSpace) (t : ThreadId) (len : Nat) : StampSpace :=
  ⟨sp.nextStamp + len, Function.update sp.pools t ⟨sp.nextStamp, sp.nextStamp + len⟩⟩

theorem refill_pools_self (sp : StampSpace) (t : ThreadId) (len : Nat) :
    (sp.refill t len).pools t = ⟨sp.nextStamp, sp.nextStamp + len⟩ := by simp [refill]

theorem refill_pools_of_ne (sp : StampSpace) {t u : ThreadId} (h : u ≠ t) (len : Nat) :
    (sp.refill t len).pools u = sp.pools u := by simp [refill, h]

theorem Ok.refill {sp : StampSpace} (h : sp.Ok) {t : ThreadId} {len : Nat}
    (hfit : sp.nextStamp + len < 2 ^ 64) : (sp.refill t len).Ok := by
  -- raise the counter first, then install the pool
  have hraise : (⟨sp.nextStamp + len, sp.pools⟩ : StampSpace).Ok :=
    ⟨Nat.le_add_right_of_le h.pos, hfit, h.ordered,
      fun u => Nat.le_add_right_of_le (h.below u), h.positive, h.disjoint⟩
  refine hraise.setPool (Nat.le_add_right _ _) (Nat.le_refl _) (fun _ => h.pos) ?_
  intro u x _ hx hux
  have := h.below u
  have := hx.1
  have := hux.2
  simp only at *
  omega

/-- A refill makes nothing used and nothing unused. -/
theorem refill_unused_iff {sp : StampSpace} {t : ThreadId} {len : Nat}
    (hempty : (sp.pools t).next = (sp.pools t).end_) {x : Nat} :
    (sp.refill t len).Unused x ↔ sp.Unused x := by
  constructor
  · rintro (hx | ⟨u, hu⟩)
    · exact Or.inl (Nat.le_trans (Nat.le_add_right _ _) hx)
    · by_cases hut : u = t
      · subst hut
        rw [refill_pools_self] at hu
        exact Or.inl hu.1
      · rw [refill_pools_of_ne _ hut] at hu
        exact Or.inr ⟨u, hu⟩
  · rintro (hx | ⟨u, hu⟩)
    · by_cases hlt : x < sp.nextStamp + len
      · exact Or.inr ⟨t, by rw [refill_pools_self]; exact ⟨hx, hlt⟩⟩
      · exact Or.inl (Nat.le_of_not_lt hlt)
    · have hut : u ≠ t := by
        rintro rfl
        have h1 := hu.1
        have h2 := hu.2
        omega
      exact Or.inr ⟨u, by rwa [refill_pools_of_ne _ hut]⟩

/-- A thread takes the first number of its pool. -/
def advance (sp : StampSpace) (t : ThreadId) : StampSpace :=
  sp.setPool t ⟨(sp.pools t).next + 1, (sp.pools t).end_⟩

theorem Ok.advance {sp : StampSpace} (h : sp.Ok) {t : ThreadId}
    (hlt : (sp.pools t).next < (sp.pools t).end_) : (sp.advance t).Ok := by
  refine h.setPool hlt (h.below t) (fun _ => Nat.le_add_left _ _) ?_
  intro u x hu hx hux
  exact hu (h.disjoint u t x hux ⟨Nat.le_of_succ_le hx.1, hx.2⟩)

/-- Taking a number uses that number and no other. -/
theorem advance_unused_iff {sp : StampSpace} (h : sp.Ok) {t : ThreadId}
    (hlt : (sp.pools t).next < (sp.pools t).end_) {x : Nat} :
    (sp.advance t).Unused x ↔ sp.Unused x ∧ x ≠ (sp.pools t).next := by
  have hbelow := h.below t
  constructor
  · rintro (hx | ⟨u, hu⟩)
    · have hx' : sp.nextStamp ≤ x := hx
      exact ⟨Or.inl hx', by omega⟩
    · by_cases hut : u = t
      · subst hut
        rw [advance, pools_setPool_self] at hu
        have h1 : (sp.pools u).next + 1 ≤ x := hu.1
        exact ⟨Or.inr ⟨u, Nat.le_of_succ_le h1, hu.2⟩, by omega⟩
      · rw [advance, pools_setPool_of_ne _ hut] at hu
        refine ⟨Or.inr ⟨u, hu⟩, ?_⟩
        rintro rfl
        exact hut (h.disjoint u t _ hu ⟨Nat.le_refl _, hlt⟩)
  · rintro ⟨hx | ⟨u, hu⟩, hne⟩
    · exact Or.inl hx
    · by_cases hut : u = t
      · subst hut
        refine Or.inr ⟨u, ?_⟩
        rw [advance, pools_setPool_self]
        exact ⟨Nat.lt_of_le_of_ne hu.1 (Ne.symm hne), hu.2⟩
      · exact Or.inr ⟨u, by rwa [advance, pools_setPool_of_ne _ hut]⟩

/-! ### `Stamp::fresh` -/

/-- `Stamp::fresh` on thread `t`, with reservations of `len` numbers. -/
def freshWith (len : Nat) (t : ThreadId) (sp : StampSpace) : Except Panic Stamp × StampSpace :=
  match (sp.pools t).fresh len sp.nextStamp with
  | (nextStamp, pool, r) => (r, ⟨nextStamp, Function.update sp.pools t pool⟩)

/-- `Stamp::fresh` on thread `t`. -/
def fresh (t : ThreadId) (sp : StampSpace) : Except Panic Stamp × StampSpace :=
  freshWith localReservationLen t sp

/-- A draw either takes the first number of the pool, refilled if it was
empty, or finds the space exhausted and changes nothing. -/
theorem freshWith_cases {sp : StampSpace} (h : sp.Ok) {len : Nat} (hlen : 0 < len) (t : ThreadId) :
    (∃ (sp₁ : StampSpace) (s : Stamp), sp₁.Ok ∧ (∀ x, sp₁.Unused x ↔ sp.Unused x) ∧
        (sp₁.pools t).next < (sp₁.pools t).end_ ∧ s.get = (sp₁.pools t).next ∧
        freshWith len t sp = (.ok s, sp₁.advance t)) ∨
      2 ^ 64 ≤ sp.nextStamp + len ∧
        freshWith len t sp = (.error .stampSpaceExhausted, sp) := by
  have hself : ∀ sp : StampSpace,
      (⟨sp.nextStamp, Function.update sp.pools t (sp.pools t)⟩ : StampSpace) = sp := by
    intro sp
    rw [Function.update_eq_self]
  by_cases hempty : (sp.pools t).next = (sp.pools t).end_
  · cases hr : reserveRaw len sp.nextStamp with
    | error p =>
        obtain ⟨hfull, rfl⟩ := (reserveRaw_eq_error hlen).mp hr
        refine Or.inr ⟨hfull, ?_⟩
        simp only [freshWith, StampPool.fresh, hempty, if_true, hr, hself]
    | ok r =>
        obtain ⟨⟨start, end_⟩, stored⟩ := r
        obtain ⟨hfit, hstart, hend, hstored⟩ := (reserveRaw_eq_ok hlen).mp hr
        subst hstart
        subst hend
        subst hstored
        have hok := h.refill (t := t) hfit
        have hnext : (⟨sp.nextStamp, sp.nextStamp + len⟩ : StampPool).next = sp.nextStamp := rfl
        obtain ⟨s, hs, htake⟩ := StampPool.take_of_holds (hnext ▸ h.pos) (by omega)
        refine Or.inl ⟨sp.refill t len, s, hok, fun x => refill_unused_iff hempty, ?_, ?_, ?_⟩
        · rw [refill_pools_self]
          simp only
          omega
        · rw [refill_pools_self, hs]
        · simp only [freshWith, StampPool.fresh, hempty, if_true, hr, htake]
          simp [advance, setPool, refill]
  · have hlt : (sp.pools t).next < (sp.pools t).end_ := Nat.lt_of_le_of_ne (h.ordered t) hempty
    have hb := h.below t
    have hf := h.fits
    obtain ⟨s, hs, htake⟩ := StampPool.take_of_holds (h.positive t hlt) (by omega)
    refine Or.inl ⟨sp, s, h, fun x => Iff.rfl, hlt, hs, ?_⟩
    simp only [freshWith, StampPool.fresh, hempty, if_false, htake]
    rfl

theorem localReservationLen_pos : 0 < localReservationLen := by decide

theorem Ok.fresh {sp : StampSpace} (h : sp.Ok) (t : ThreadId) : (sp.fresh t).2.Ok := by
  rcases freshWith_cases h localReservationLen_pos t with ⟨sp₁, s, h₁, _, hlt, _, he⟩ | ⟨_, he⟩
  · rw [StampSpace.fresh, he]
    exact h₁.advance hlt
  · rwa [StampSpace.fresh, he]

/-- A stamp that is drawn was unused, and is not any more. -/
theorem fresh_unused {sp sp' : StampSpace} (h : sp.Ok) {t : ThreadId} {s : Stamp}
    (he : sp.fresh t = (.ok s, sp')) : sp.Unused s.get ∧ ¬ sp'.Unused s.get := by
  rcases freshWith_cases h localReservationLen_pos t with ⟨sp₁, s₁, h₁, hu, hlt, hs, he'⟩ | ⟨_, he'⟩
  · rw [StampSpace.fresh, he'] at he
    cases he
    refine ⟨(hu _).mp (Or.inr ⟨t, ?_⟩), ?_⟩
    · rw [hs]
      exact ⟨Nat.le_refl _, hlt⟩
    · rw [advance_unused_iff h₁ hlt]
      exact fun hc => hc.2 hs
  · rw [StampSpace.fresh, he'] at he
    cases he

/-- A draw makes no number unused again. -/
theorem fresh_shrinks {sp : StampSpace} (h : sp.Ok) {t : ThreadId} {x : Nat}
    (hx : (sp.fresh t).2.Unused x) : sp.Unused x := by
  rcases freshWith_cases h localReservationLen_pos t with ⟨sp₁, s₁, h₁, hu, hlt, _, he⟩ | ⟨_, he⟩
  · rw [StampSpace.fresh, he] at hx
    exact (hu x).mp ((advance_unused_iff h₁ hlt).mp hx).1
  · rwa [StampSpace.fresh, he] at hx

/-- A draw fails only when the space is exhausted, and then changes nothing. -/
theorem fresh_error {sp sp' : StampSpace} (h : sp.Ok) {t : ThreadId} {p : Panic}
    (he : sp.fresh t = (.error p, sp')) : p = .stampSpaceExhausted ∧ sp' = sp := by
  rcases freshWith_cases h localReservationLen_pos t with ⟨sp₁, s₁, h₁, _, _, _, he'⟩ | ⟨_, he'⟩
  · rw [StampSpace.fresh, he'] at he
    cases he
  · rw [StampSpace.fresh, he'] at he
    cases he
    exact ⟨rfl, rfl⟩

example : (StampSpace.initial.fresh 0).1.map Stamp.get = .ok 1 := by decide

/-- A thread that draws one stamp and ends leaves the rest of its pool unused. -/
theorem fresh_exit {sp : StampSpace} {t : ThreadId} (hpool : sp.pools t = .new)
    (hfit : sp.nextStamp + localReservationLen < 2 ^ 64) :
    ((sp.fresh t).2).exit t = ⟨sp.nextStamp + localReservationLen, sp.pools⟩ := by
  have hreserve := reserveRaw_of_fits localReservationLen_pos hfit
  have hfresh : (sp.fresh t).2 = ⟨sp.nextStamp + localReservationLen,
      Function.update sp.pools t
        (StampPool.take ⟨sp.nextStamp, sp.nextStamp + localReservationLen⟩).1⟩ := by
    simp only [fresh, freshWith, hpool, StampPool.fresh, StampPool.new, if_pos,
      hreserve]
  rw [hfresh, exit, setPool, Function.update_idem, ← hpool,
    Function.update_eq_self]

/-! ### Who has which stamp -/

/-- The space went from `sp` to `sp'`, and `drawn` is the stamp that was taken. -/
structure Spends (sp : StampSpace) (drawn : Option Stamp) (sp' : StampSpace) : Prop where
  ok : sp'.Ok
  shrinks : ∀ x, sp'.Unused x → sp.Unused x
  taken : ∀ s, drawn = some s → sp.Unused s.get ∧ ¬ sp'.Unused s.get

theorem Spends.refl {sp : StampSpace} (h : sp.Ok) : sp.Spends none sp :=
  ⟨h, fun _ hx => hx, by intros; contradiction⟩

theorem Spends.exit {sp : StampSpace} (h : sp.Ok) (t : ThreadId) : sp.Spends none (sp.exit t) :=
  ⟨h.exit t, fun _ hx => exit_shrinks hx, by intros; contradiction⟩

theorem Spends.fresh {sp : StampSpace} (h : sp.Ok) (t : ThreadId) :
    sp.Spends (sp.fresh t).1.toOption (sp.fresh t).2 where
  ok := h.fresh t
  shrinks := fun _ hx => fresh_shrinks h hx
  taken := by
    intro s hs
    rcases hf : sp.fresh t with ⟨p | s', sp'⟩
    · rw [hf] at hs
      cases hs
    · rw [hf] at hs
      cases hs
      exact fresh_unused h hf

/-- The owners hold stamps that are used, and no two hold the same. -/
structure Shares {ι : Type} (sp : StampSpace) (marks : ι → List Stamp) : Prop where
  ok : sp.Ok
  used : ∀ o, ∀ s ∈ marks o, ¬ sp.Unused s.get
  apart : ∀ o o' s, s ∈ marks o → s ∈ marks o' → o = o'

namespace Shares

variable {ι : Type} {sp sp' : StampSpace} {marks marks' : ι → List Stamp}

theorem initial : StampSpace.initial.Shares (fun _ : ι => []) :=
  ⟨Ok.initial, by intros; contradiction, by intros; contradiction⟩

/-- A stamp that is drawn now is nobody's yet. -/
theorem fresh_notMem (h : sp.Shares marks) {t : ThreadId} {s : Stamp}
    (hf : sp.fresh t = (.ok s, sp')) (o : ι) : s ∉ marks o :=
  fun hs => h.used o s hs (fresh_unused h.ok hf).1

/-- What was drawn goes to one owner. -/
theorem spends (h : sp.Shares marks) {drawn : Option Stamp} (hsp : sp.Spends drawn sp') (o₀ : ι)
    (hmarks : ∀ o, ∀ s ∈ marks' o, s ∈ marks o ∨ o = o₀ ∧ drawn = some s) : sp'.Shares marks' where
  ok := hsp.ok
  used := by
    intro o s hs
    rcases hmarks o s hs with hold | ⟨-, hd⟩
    · exact fun hu => h.used o s hold (hsp.shrinks _ hu)
    · exact (hsp.taken s hd).2
  apart := by
    intro o o' s hs hs'
    rcases hmarks o s hs with hold | ⟨rfl, hd⟩
    · rcases hmarks o' s hs' with hold' | ⟨-, hd⟩
      · exact h.apart o o' s hold hold'
      · exact absurd (hsp.taken s hd).1 (h.used o s hold)
    · rcases hmarks o' s hs' with hold' | ⟨rfl, -⟩
      · exact absurd (hsp.taken s hd).1 (h.used o' s hold')
      · rfl

end Shares

end StampSpace

end SafeBump
