import Mathlib.Logic.Relation
import Mathlib.Order.Basic

/-!
# Stateful calls that may not return

A call is an `EStateM ε σ α`: it returns a value and a new state, or it stops with a reason and
leaves the state it had reached. This module has the inversion rules the proofs use to take a
call apart, and `Commutes g`, which says that a call does not look at the part of the state that `g`
moves.
-/

namespace Prog

open EStateM (Result)

variable {ε σ α β : Type}

/-! ## Taking a call apart -/

theorem bind_eq_ok {x : EStateM ε σ α} {f : α → EStateM ε σ β} {s s' : σ} {b : β} :
    (x >>= f) s = .ok b s' ↔ ∃ a s₁, x s = .ok a s₁ ∧ f a s₁ = .ok b s' := by
  constructor
  · intro h
    change EStateM.bind x f s = _ at h
    unfold EStateM.bind at h
    cases hx : x s with
    | ok a s₁ => rw [hx] at h; exact ⟨a, s₁, rfl, h⟩
    | error e s₁ => rw [hx] at h; cases h
  · rintro ⟨a, s₁, hx, hf⟩
    change EStateM.bind x f s = _
    unfold EStateM.bind
    rw [hx]
    exact hf

theorem bind_eq_error {x : EStateM ε σ α} {f : α → EStateM ε σ β} {s s' : σ} {e : ε} :
    (x >>= f) s = .error e s' ↔
      x s = .error e s' ∨ ∃ a s₁, x s = .ok a s₁ ∧ f a s₁ = .error e s' := by
  change EStateM.bind x f s = _ ↔ _
  unfold EStateM.bind
  cases x s with
  | ok a s₁ =>
    constructor
    · exact fun h => .inr ⟨a, s₁, rfl, h⟩
    · rintro (h | ⟨_, _, h, hf⟩)
      · cases h
      · cases h; exact hf
  | error e₁ s₁ => simp

/-- A call and what follows it, as one evaluation. -/
theorem bind_run (x : EStateM ε σ α) (f : α → EStateM ε σ β) (s : σ) :
    (x >>= f) s = match x s with
      | .ok a s₁ => f a s₁
      | .error e s₁ => .error e s₁ := rfl

theorem map_run (g : α → β) (x : EStateM ε σ α) (s : σ) :
    (g <$> x) s = match x s with
      | .ok a s₁ => .ok (g a) s₁
      | .error e s₁ => .error e s₁ := rfl

theorem bind_of_ok {x : EStateM ε σ α} {f : α → EStateM ε σ β} {s s₁ : σ} {a : α}
    (h : x s = .ok a s₁) : (x >>= f) s = f a s₁ := by
  change EStateM.bind x f s = _
  unfold EStateM.bind
  rw [h]

theorem ok_inj {a b : α} {s s' : σ} :
    (.ok a s : EStateM.Result ε σ α) = .ok b s' ↔ a = b ∧ s = s' := by
  rw [EStateM.Result.ok.injEq]

@[simp] theorem pure_apply (a : α) (s : σ) : (pure a : EStateM ε σ α) s = .ok a s := rfl

@[simp] theorem get_apply (s : σ) : (get : EStateM ε σ σ) s = .ok s s := rfl

@[simp] theorem set_apply (s₀ s : σ) : (set s₀ : EStateM ε σ PUnit) s = .ok ⟨⟩ s₀ := rfl

@[simp] theorem modify_apply (f : σ → σ) (s : σ) :
    (modify f : EStateM ε σ PUnit) s = .ok ⟨⟩ (f s) := rfl

@[simp] theorem throw_apply (e : ε) (s : σ) : (throw e : EStateM ε σ α) s = .error e s := rfl

@[simp] theorem get_bind_apply (f : σ → EStateM ε σ α) (s : σ) : (get >>= f) s = f s s := rfl

@[simp] theorem set_bind_apply (s₀ : σ) (f : PUnit → EStateM ε σ α) (s : σ) :
    (set s₀ >>= f) s = f ⟨⟩ s₀ := rfl

@[simp] theorem modify_bind_apply (g : σ → σ) (f : PUnit → EStateM ε σ α) (s : σ) :
    (modify g >>= f) s = f ⟨⟩ (g s) := rfl

@[simp] theorem ite_run {p : Prop} [Decidable p] (x y : EStateM ε σ α) (s : σ) :
    (if p then x else y) s = if p then x s else y s := by
  split <;> rfl

/-! ## What a call leaves behind -/

/-- The state a call leaves behind, whether or not it returned. -/
def final : Result ε σ α → σ
  | .ok _ s => s
  | .error _ s => s

/-! ## Calls that do not look at a part of the state -/

/-- The result with its state moved by `g`. -/
def mapState (g : σ → σ) : Result ε σ α → Result ε σ α
  | .ok a s => .ok a (g s)
  | .error e s => .error e (g s)

/-- Moving the state by `g` before the call is moving it after the call. -/
def Commutes (g : σ → σ) (x : EStateM ε σ α) : Prop := ∀ s, x (g s) = mapState g (x s)

variable {g : σ → σ}

theorem Commutes.ok {x : EStateM ε σ α} (hx : Commutes g x) {s s' : σ} {a : α}
    (h : x s = .ok a s') : x (g s) = .ok a (g s') := by
  rw [hx s, h]
  rfl

theorem Commutes.pure (a : α) : Commutes g (pure a : EStateM ε σ α) := fun _ => rfl

theorem Commutes.throw (e : ε) : Commutes g (throw e : EStateM ε σ α) := fun _ => rfl

theorem Commutes.bind {x : EStateM ε σ α} {f : α → EStateM ε σ β} (hx : Commutes g x)
    (hf : ∀ a, Commutes g (f a)) : Commutes g (x >>= f) := by
  intro s
  cases h : x s with
  | ok a s₁ =>
    rw [bind_of_ok h, bind_of_ok (hx.ok h)]
    exact hf a s₁
  | error e s₁ =>
    have h' : x (g s) = .error e (g s₁) := by
      rw [hx s, h]
      rfl
    rw [bind_eq_error.2 (.inl h), bind_eq_error.2 (.inl h')]
    rfl

/-- A call that reads the state does not look at what `g` moves. -/
theorem Commutes.get_bind {f : σ → EStateM ε σ α} (hg : ∀ s, f (g s) = f s)
    (hf : ∀ s, Commutes g (f s)) : Commutes g (get >>= f) := by
  intro s
  rw [get_bind_apply, get_bind_apply, hg]
  exact hf s s

theorem Commutes.ite {p : Prop} [Decidable p] {x y : EStateM ε σ α} (hx : Commutes g x)
    (hy : Commutes g y) : Commutes g (if p then x else y) := by
  split
  · exact hx
  · exact hy

/-! ## Calls that leave a part of the state alone -/

variable {γ : Type} {f : σ → γ}

/-- When the call returns, the part of the state that `f` reads is as it was. -/
def Keeps (f : σ → γ) (x : EStateM ε σ α) : Prop := ∀ s a t, x s = .ok a t → f t = f s

theorem Keeps.pure (a : α) : Keeps f (pure a : EStateM ε σ α) := by
  intro s b t h
  rw [(ok_inj.1 h).2]

theorem Keeps.throw (e : ε) : Keeps f (throw e : EStateM ε σ α) := by
  intro s b t h
  cases h

theorem Keeps.modify {g : σ → σ} (hg : ∀ s, f (g s) = f s) :
    Keeps f (modify g : EStateM ε σ PUnit) := by
  intro s a t h
  rw [← (ok_inj.1 h).2]
  exact hg s

theorem Keeps.bind {x : EStateM ε σ α} {k : α → EStateM ε σ β} (hx : Keeps f x)
    (hk : ∀ a, Keeps f (k a)) : Keeps f (x >>= k) := by
  intro s b t h
  obtain ⟨a, u, h₁, h₂⟩ := bind_eq_ok.1 h
  rw [hk a u b t h₂, hx s a u h₁]

theorem Keeps.get_bind {k : σ → EStateM ε σ α} (hk : ∀ s, Keeps f (k s)) : Keeps f (get >>= k) :=
  fun s a t h => hk s s a t h

theorem Keeps.ite {p : Prop} [Decidable p] {x y : EStateM ε σ α} (hx : Keeps f x) (hy : Keeps f y) :
    Keeps f (if p then x else y) := by
  split
  · exact hx
  · exact hy

/-! ## Evaluating a call -/

/-- The value a call returned, if it did. -/
def value : Result ε σ α → Option α
  | .ok a _ => some a
  | .error _ _ => none

/-- A call whose evaluation shows a value returned it. -/
theorem ok_of_value {r : Result ε σ α} {a : α} (h : value r = some a) : r = .ok a (final r) := by
  cases r with
  | ok b s => cases h; rfl
  | error e s => cases h

/-! ## Runs -/

/-- What holds at the start of a run and is carried on by each step holds in every state reached. -/
theorem invariant {step : σ → σ → Prop} {I : σ → Prop} {s₀ s : σ} (h0 : I s₀)
    (hstep : ∀ s t, I s → step s t → I t) (h : Relation.ReflTransGen step s₀ s) : I s := by
  induction h with
  | refl => exact h0
  | tail _ hst ih => exact hstep _ _ ih hst

end Prog
