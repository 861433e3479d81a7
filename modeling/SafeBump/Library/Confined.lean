import SafeBump.Library.Unwind

/-!
# What calls hand out

Some values may be known in a state and others may not: `S s x` says that the state
`s` allows `x`.  A call is confined if it keeps an invariant `C`, takes no allowance
back, and returns only what is allowed then (`Confined`).  What its frame has already
got is allowed too, which is how one call uses the results of another
(`Confined.bind`).
-/

namespace Library.Unwind

variable {ε σ τ κ α β : Type}

/-- In a frame that has `held`, the call `m` is confined to what `S` allows.  The values
of a result are given by `f`. -/
def Confined (C : σ → Prop) (S : σ → κ → Prop) (held : List κ) (f : α → List κ)
    (m : EStateM ε σ α) : Prop :=
  ∀ s, C s → (∀ x ∈ held, S s x) →
    C (left (m.run s)) ∧ (∀ x, S s x → S (left (m.run s)) x) ∧
      ∀ a, ending (m.run s) = .ok a → ∀ x ∈ f a, S (left (m.run s)) x

/-- A result of no interest. -/
def nothing (_ : α) : List κ := []

namespace Confined

variable {C : σ → Prop} {S : σ → κ → Prop} {held : List κ} {f : α → List κ} {g : β → List κ}

theorem pure {a : α} (h : ∀ x ∈ f a, x ∈ held) :
    Confined C S held f (Pure.pure a : EStateM ε σ α) := by
  intro s hC hheld
  refine ⟨hC, fun _ hx => hx, ?_⟩
  rintro _ ⟨⟩ x hx
  exact hheld x (h x hx)

/-- A result of no interest carries nothing. -/
theorem done {a : α} : Confined C S held nothing (Pure.pure a : EStateM ε σ α) :=
  pure fun _ hx => by cases hx

theorem throw {e : ε} : Confined C S held f (MonadExcept.throw e : EStateM ε σ α) :=
  fun _ hC _ => ⟨hC, fun _ hx => hx, fun _ ha => by cases ha⟩

theorem bind {m : EStateM ε σ α} {k : α → EStateM ε σ β} (hm : Confined C S held f m)
    (hk : ∀ a, Confined C S (f a ++ held) g (k a)) : Confined C S held g (m >>= k) := by
  intro s hC hheld
  obtain ⟨hC', hmono, hres⟩ := hm s hC hheld
  rw [EStateM.run_bind]
  cases hr : m.run s with
  | error e s' =>
      rw [hr] at hC' hmono
      exact ⟨hC', hmono, fun _ ha => by cases ha⟩
  | ok a s' =>
      rw [hr] at hC' hmono hres
      obtain ⟨hC'', hmono', hres'⟩ := hk a s' hC' fun x hx =>
        (List.mem_append.mp hx).elim (hres a rfl x) fun hx => hmono x (hheld x hx)
      exact ⟨hC'', fun x hx => hmono' x (hmono x hx), hres'⟩

theorem map {m : EStateM ε σ α} {k : α → β} (hm : Confined C S held f m)
    (hk : ∀ a, ∀ x ∈ g (k a), x ∈ f a ++ held) : Confined C S held g (k <$> m) := by
  have h := hm.bind (g := g) fun a => Confined.pure (hk a)
  rwa [bind_pure_comp] at h

theorem ite {p : Prop} [Decidable p] {m n : EStateM ε σ α} (hm : p → Confined C S held f m)
    (hn : ¬ p → Confined C S held f n) : Confined C S held f (if p then m else n) := by
  split
  · exact hm ‹_›
  · exact hn ‹_›

/-- What is read from the state is had from then on. -/
theorem read {r : σ → List κ} {k : σ → EStateM ε σ β} (hr : ∀ s, C s → ∀ x ∈ r s, S s x)
    (hk : ∀ s, Confined C S (r s ++ held) g (k s)) : Confined C S held g (get >>= k) :=
  fun s hC hheld => hk s s hC fun x hx => (List.mem_append.mp hx).elim (hr s hC x) (hheld x)

theorem get_bind {k : σ → EStateM ε σ β} (hk : ∀ s, Confined C S held g (k s)) :
    Confined C S held g (get >>= k) := fun s => hk s s

/-- A write that keeps the invariant. -/
theorem write {h : σ → σ} (hC : ∀ s, C s → C (h s)) (hS : ∀ s x, S s x → S (h s) x) :
    Confined C S held nothing (modify h : EStateM ε σ PUnit) :=
  fun s hs _ => ⟨hC s hs, hS s, fun _ _ _ hx => by cases hx⟩

/-- A call on a component of the state. -/
theorem zoom {get : τ → σ} {put : σ → τ → τ} {C' : τ → Prop} {S' : τ → κ → Prop}
    {m : EStateM ε σ α} (hm : Confined C S held f m) (hget : ∀ t, C' t → C (get t))
    (hput : ∀ s t, C' t → C s → (∀ x, S (get t) x → S s x) → C' (put s t))
    (hS : ∀ t x, S' t x ↔ S (get t) x) (hback : ∀ s t, get (put s t) = s) :
    Confined C' S' held f (zoom get put m) := by
  intro t ht hheld
  obtain ⟨hC, hmono, hres⟩ := hm (get t) (hget t ht) fun x hx => (hS t x).mp (hheld x hx)
  have hmono' : ∀ s, (∀ x, S (get t) x → S s x) → ∀ x, S' t x → S' (put s t) x := by
    intro s hs x hx
    rw [hS, hback]
    exact hs x ((hS t x).mp hx)
  cases hr : m.run (get t) with
  | ok a s =>
      rw [hr] at hC hmono hres
      rw [run_zoom_ok hr]
      refine ⟨hput s t ht hC hmono, hmono' s hmono, ?_⟩
      rintro _ ⟨⟩ x hx
      rw [left_ok, hS, hback]
      exact hres a rfl x hx
  | error e s =>
      rw [hr] at hC hmono
      rw [run_zoom_error hr]
      exact ⟨hput s t ht hC hmono, hmono' s hmono, fun _ ha => by cases ha⟩

end Confined

end Library.Unwind
