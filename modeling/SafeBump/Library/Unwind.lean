import Mathlib

/-!
# Calls that may unwind

A call that ends early leaves the state it reached behind.  `EStateM ε σ` is
the monad of such calls.  This file adds what a development about them needs
next to the equations for `run` that come with the monad: `throw` at any type,
running a call on a component of the state (`zoom`), and a simulation between
calls on two kinds of state.

`Simulates R Q m n` says that from states related by `R` the calls `m` and `n`
end the same way, return results related by `Q`, and leave states related by
`R`, unwinding included.  It composes along `bind` (`Simulates.bind`).
-/

namespace Library.Unwind

section Run

variable {ε σ τ α : Type}

@[simp] theorem run_throw (e : ε) (s : σ) :
    (throw e : EStateM ε σ α).run s = .error e s := rfl

@[simp] theorem run_map {β : Type} (f : α → β) (m : EStateM ε σ α) (s : σ) :
    (f <$> m).run s =
      match m.run s with
      | .ok a s => .ok (f a) s
      | .error e s => .error e s := rfl

@[simp] theorem run_ite (p : Prop) [Decidable p] (m n : EStateM ε σ α) (s : σ) :
    (if p then m else n).run s = if p then m.run s else n.run s := by
  by_cases h : p
  · simp only [if_pos h]
  · simp only [if_neg h]

/-- How a call ended, without the state it left. -/
def ending : EStateM.Result ε σ α → Except ε α
  | .ok a _ => .ok a
  | .error e _ => .error e

/-- The state a call left, however it ended. -/
def left : EStateM.Result ε σ α → σ
  | .ok _ s => s
  | .error _ s => s

@[simp] theorem ending_ok (a : α) (s : σ) :
    ending (.ok a s : EStateM.Result ε σ α) = .ok a := rfl

@[simp] theorem ending_error (e : ε) (s : σ) :
    ending (.error e s : EStateM.Result ε σ α) = .error e := rfl

@[simp] theorem left_ok (a : α) (s : σ) : left (.ok a s : EStateM.Result ε σ α) = s := rfl

@[simp] theorem left_error (e : ε) (s : σ) : left (.error e s : EStateM.Result ε σ α) = s := rfl

theorem eq_ok_of_ending {r : EStateM.Result ε σ α} {a : α} (h : ending r = .ok a) :
    r = .ok a (left r) := by
  cases r with
  | ok b s =>
      cases h
      rfl
  | error e s => cases h

theorem run_map_ok {β : Type} {f : α → β} {m : EStateM ε σ α} {s s' : σ} {b : β}
    (h : (f <$> m).run s = .ok b s') : ∃ a, m.run s = .ok a s' ∧ b = f a := by
  rw [run_map] at h
  cases hm : m.run s with
  | ok a t =>
      rw [hm] at h
      cases h
      exact ⟨a, rfl, rfl⟩
  | error e t =>
      rw [hm] at h
      cases h

theorem run_bind_ok {β : Type} {m : EStateM ε σ α} {k : α → EStateM ε σ β} {s s' : σ} {b : β}
    (h : (m >>= k).run s = .ok b s') : ∃ a t, m.run s = .ok a t ∧ (k a).run t = .ok b s' := by
  rw [EStateM.run_bind] at h
  cases hm : m.run s with
  | ok a t =>
      rw [hm] at h
      exact ⟨a, t, rfl, h⟩
  | error e t =>
      rw [hm] at h
      cases h

theorem left_run_map {β : Type} (f : α → β) (m : EStateM ε σ α) (s : σ) :
    left ((f <$> m).run s) = left (m.run s) := by
  rw [run_map]
  cases m.run s <;> rfl

theorem ending_run_map {β : Type} (f : α → β) (m : EStateM ε σ α) (s : σ) :
    ending ((f <$> m).run s) = (ending (m.run s)).map f := by
  rw [run_map]
  cases m.run s <;> rfl

/-- What ended a call early is what ended the call inside. -/
theorem ending_of_map {β : Type} {f : α → β} {m : EStateM ε σ α} {s : σ} {e : ε}
    (h : ending ((f <$> m).run s) = .error e) : ending (m.run s) = .error e := by
  rw [ending_run_map] at h
  cases hm : ending (m.run s) with
  | ok a => rw [hm] at h; cases h
  | error e' => rw [hm] at h; cases h; rfl

/-- Run a call on a component of the state, read by `get` and written back by
`put` however the call ends. -/
def zoom (get : τ → σ) (put : σ → τ → τ) (m : EStateM ε σ α) : EStateM ε τ α := fun t =>
  match m.run (get t) with
  | .ok a s => .ok a (put s t)
  | .error e s => .error e (put s t)

theorem run_zoom_ok {get : τ → σ} {put : σ → τ → τ} {m : EStateM ε σ α} {t : τ} {a : α} {s : σ}
    (h : m.run (get t) = .ok a s) : (zoom get put m).run t = .ok a (put s t) := by
  simp only [EStateM.run] at h
  simp only [zoom, EStateM.run, h]

theorem run_zoom_error {get : τ → σ} {put : σ → τ → τ} {m : EStateM ε σ α} {t : τ} {e : ε} {s : σ}
    (h : m.run (get t) = .error e s) : (zoom get put m).run t = .error e (put s t) := by
  simp only [EStateM.run] at h
  simp only [zoom, EStateM.run, h]

end Run

/-! ## Simulation -/

section Simulates

variable {ε ε' σ τ α β α' β' : Type}

/-- Two endings agree: related errors, or related results, and related states. -/
def EndsLike (E : ε → ε' → Prop) (R : σ → τ → Prop) (Q : α → β → Prop) :
    EStateM.Result ε σ α → EStateM.Result ε' τ β → Prop
  | .ok a s, .ok b t => Q a b ∧ R s t
  | .error e s, .error e' t => E e e' ∧ R s t
  | _, _ => False

variable {E : ε → ε' → Prop} {R : σ → τ → Prop} {Q : α → β → Prop} {Q' : α' → β' → Prop}

/-- The states left are related however the calls ended. -/
theorem EndsLike.left {r : EStateM.Result ε σ α} {r' : EStateM.Result ε' τ β}
    (h : EndsLike E R Q r r') : R (left r) (left r') := by
  cases r with
  | ok a s =>
      cases r' with
      | ok b t => exact h.2
      | error e' t => exact h.elim
  | error e s =>
      cases r' with
      | ok b t => exact h.elim
      | error e' t => exact h.2

/-- Calls whose errors and results have to be equal end equally. -/
theorem EndsLike.ending {r : EStateM.Result ε σ α} {r' : EStateM.Result ε τ α}
    (h : EndsLike Eq R Eq r r') : ending r = ending r' := by
  cases r with
  | ok a s =>
      cases r' with
      | ok b t => exact congrArg Except.ok h.1
      | error e' t => exact h.elim
  | error e s =>
      cases r' with
      | ok b t => exact h.elim
      | error e' t => exact congrArg Except.error h.1

/-- Calls that end alike go on alike. -/
theorem EndsLike.bind {m : EStateM ε σ α} {n : EStateM ε' τ β} {f : α → EStateM ε σ α'}
    {g : β → EStateM ε' τ β'} {s : σ} {t : τ} (h : EndsLike E R Q (m.run s) (n.run t))
    (hf : ∀ a b s t, Q a b → R s t → EndsLike E R Q' ((f a).run s) ((g b).run t)) :
    EndsLike E R Q' ((m >>= f).run s) ((n >>= g).run t) := by
  rw [EStateM.run_bind, EStateM.run_bind]
  cases hms : m.run s with
  | ok a s' =>
      cases hnt : n.run t with
      | ok b t' =>
          rw [hms, hnt] at h
          exact hf a b s' t' h.1 h.2
      | error e t' =>
          rw [hms, hnt] at h
          exact h.elim
  | error e s' =>
      cases hnt : n.run t with
      | ok b t' =>
          rw [hms, hnt] at h
          exact h.elim
      | error e' t' =>
          rw [hms, hnt] at h
          exact h

theorem EndsLike.map {m : EStateM ε σ α} {n : EStateM ε' τ β} {f : α → α'} {g : β → β'} {s : σ}
    {t : τ} (h : EndsLike E R Q (m.run s) (n.run t)) (hf : ∀ a b, Q a b → Q' (f a) (g b)) :
    EndsLike E R Q' ((f <$> m).run s) ((g <$> n).run t) :=
  EndsLike.bind (f := fun a => pure (f a)) (g := fun b => pure (g b)) h
    fun a b _ _ hQ hR => ⟨hf a b hQ, hR⟩

/-- From related states the calls end alike. -/
def Simulates (E : ε → ε' → Prop) (R : σ → τ → Prop) (Q : α → β → Prop) (m : EStateM ε σ α)
    (n : EStateM ε' τ β) : Prop :=
  ∀ s t, R s t → EndsLike E R Q (m.run s) (n.run t)

theorem Simulates.pure {a : α} {b : β} (h : Q a b) :
    Simulates E R Q (pure a : EStateM ε σ α) (pure b : EStateM ε' τ β) :=
  fun _ _ hR => ⟨h, hR⟩

theorem Simulates.bind {m : EStateM ε σ α} {n : EStateM ε' τ β} {f : α → EStateM ε σ α'}
    {g : β → EStateM ε' τ β'} (hm : Simulates E R Q m n)
    (hf : ∀ a b, Q a b → Simulates E R Q' (f a) (g b)) : Simulates E R Q' (m >>= f) (n >>= g) :=
  fun s t hR => (hm s t hR).bind fun a b s' t' hQ hR' => hf a b hQ s' t' hR'

theorem Simulates.map {m : EStateM ε σ α} {n : EStateM ε' τ β} {f : α → α'} {g : β → β'}
    (h : Simulates E R Q m n) (hf : ∀ a b, Q a b → Q' (f a) (g b)) :
    Simulates E R Q' (f <$> m) (g <$> n) :=
  fun s t hR => (h s t hR).map hf

end Simulates

end Library.Unwind
