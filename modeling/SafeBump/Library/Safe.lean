import SafeBump.Library.Unwind

/-!
# Calls that go wrong in expected ways only

A call may end early anywhere, and then the state it reached stays.  So what a call
is to keep has to hold at every point it can end at.  `Safe C D E m` says that from a
state with `C` the call `m` leaves one with `D` however it ends, and that it ends
early only as `E` allows.
-/

namespace Library.Unwind

variable {ε σ τ α β : Type}

/-- From `C` to `D`, and early only by `E`. -/
def Safe (C D : σ → Prop) (E : ε → Prop) (m : EStateM ε σ α) : Prop :=
  ∀ s, C s → D (left (m.run s)) ∧ ∀ e, ending (m.run s) = .error e → E e

namespace Safe

variable {C D D' : σ → Prop} {E : ε → Prop}

theorem pure (h : ∀ s, C s → D s) {a : α} : Safe C D E (Pure.pure a : EStateM ε σ α) :=
  fun s hs => ⟨h s hs, fun _ he => by cases he⟩

/-- A call that does nothing. -/
theorem done {a : α} : Safe C C E (Pure.pure a : EStateM ε σ α) := pure fun _ hs => hs

/-- Where the call ends is known. -/
theorem of_run {m : EStateM ε σ α}
    (h : ∀ s, C s → (∃ a s', m.run s = .ok a s' ∧ D s') ∨
      ∃ e s', m.run s = .error e s' ∧ D s' ∧ E e) :
    Safe C D E m := by
  intro s hs
  rcases h s hs with ⟨a, s', hrun, hD⟩ | ⟨e, s', hrun, hD, he⟩
  · rw [hrun]
    exact ⟨hD, fun _ h => by cases h⟩
  · rw [hrun]
    refine ⟨hD, ?_⟩
    rintro _ ⟨⟩
    exact he

theorem post {m : EStateM ε σ α} (hm : Safe C D E m) (h : ∀ s, D s → D' s) : Safe C D' E m :=
  fun s hs => (hm s hs).imp_left (h _)

/-- The first call may be the last, so what it keeps has to do for the end too. -/
theorem bind {m : EStateM ε σ α} {k : α → EStateM ε σ β} (h : ∀ s, D s → D' s)
    (hm : Safe C D E m) (hk : ∀ a, Safe D D' E (k a)) : Safe C D' E (m >>= k) := by
  intro s hs
  obtain ⟨hD, hE⟩ := hm s hs
  rw [EStateM.run_bind]
  cases hr : m.run s with
  | ok a s' =>
      rw [hr] at hD
      exact hk a s' hD
  | error e s' =>
      rw [hr] at hD hE
      refine ⟨h s' hD, ?_⟩
      rintro _ ⟨⟩
      exact hE e rfl

theorem map {m : EStateM ε σ α} {f : α → β} (hm : Safe C D E m) : Safe C D E (f <$> m) := by
  have h := hm.bind (fun _ hs => hs) fun a => done (a := f a)
  rwa [bind_pure_comp] at h

theorem ite {p : Prop} [Decidable p] {m n : EStateM ε σ α} (hm : p → Safe C D E m)
    (hn : ¬ p → Safe C D E n) : Safe C D E (if p then m else n) := by
  split
  · exact hm ‹_›
  · exact hn ‹_›

theorem get_bind {k : σ → EStateM ε σ β} (hk : ∀ s, C s → Safe C D E (k s)) :
    Safe C D E (get >>= k) := fun s hs => hk s hs s hs

/-- A call on a component of the state. -/
theorem zoom {get : τ → σ} {put : σ → τ → τ} {C' D' : τ → Prop} {m : EStateM ε σ α}
    (hm : Safe C D E m) (hget : ∀ t, C' t → C (get t))
    (hput : ∀ s t, C' t → D s → D' (put s t)) : Safe C' D' E (zoom get put m) := by
  intro t ht
  obtain ⟨hD, hE⟩ := hm (get t) (hget t ht)
  cases hr : m.run (get t) with
  | ok a s =>
      rw [hr] at hD
      rw [run_zoom_ok hr]
      exact ⟨hput s t ht hD, fun _ he => by cases he⟩
  | error e s =>
      rw [hr] at hD hE
      rw [run_zoom_error hr]
      exact ⟨hput s t ht hD, fun _ he => hE _ he⟩

end Safe

end Library.Unwind
