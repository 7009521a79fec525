import Mathlib.Tactic

/-!
# Computations that may throw

`throwIf c e` is the statement `if (c) throw e;`. A computation in `Except` that returned a value
ran every step on its way and passed every such check.
-/

namespace Except

universe u v

variable {ε : Type u} {α β : Type v}

/-- Throw `e` if the condition holds. -/
def throwIf (c : Bool) (e : ε) : Except ε Unit := if c then .error e else .ok ()

lemma throwIf_eq_ok {c : Bool} {e : ε} {u : Unit} : throwIf c e = .ok u ↔ c = false := by
  cases c <;> simp [throwIf]

lemma ok_bind (a : α) (f : α → Except ε β) : Except.ok a >>= f = f a := rfl

lemma bind_eq_ok {x : Except ε α} {f : α → Except ε β} {b : β} :
    x >>= f = .ok b ↔ ∃ a, x = .ok a ∧ f a = .ok b := by
  cases x <;> simp [bind, Except.bind]

lemma pure_eq_ok {a b : α} : (pure a : Except ε α) = .ok b ↔ a = b := by
  simp [pure, Except.pure]

end Except

/-! ### Throwing with a state -/

/-- Computations over a state that may throw. A throw keeps the changes made before it. -/
abbrev Throwing (ε σ α : Type) := ExceptT ε (StateM σ) α

namespace Throwing

variable {ε σ α β : Type}

/-- The outcome of a computation and the state it leaves. -/
def exec (x : Throwing ε σ α) (s : σ) : Except ε α × σ := StateT.run (ExceptT.run x) s

@[simp] lemma exec_pure (a : α) (s : σ) : exec (pure a : Throwing ε σ α) s = (.ok a, s) := rfl

@[simp] lemma exec_throw (e : ε) (s : σ) :
    exec (throw e : Throwing ε σ α) s = (.error e, s) := rfl

@[simp] lemma exec_modify (f : σ → σ) (s : σ) :
    exec (modify f : Throwing ε σ PUnit) s = (.ok ⟨⟩, f s) := rfl

@[simp] lemma exec_get (s : σ) : exec (get : Throwing ε σ σ) s = (.ok s, s) := rfl

lemma exec_bind (x : Throwing ε σ α) (f : α → Throwing ε σ β) (s : σ) :
    exec (x >>= f) s =
      match exec x s with
      | (.ok a, s') => exec (f a) s'
      | (.error e, s') => (.error e, s') := by
  show StateT.run (ExceptT.run (x >>= f)) s = _
  simp only [ExceptT.run_bind, StateT.run_bind, exec]
  rcases h : (StateT.run (ExceptT.run x) s : Except ε α × σ) with ⟨r, s'⟩
  cases r <;> rfl

lemma exec_bind_ok {x : Throwing ε σ α} {f : α → Throwing ε σ β} {s s' : σ} {a : α}
    (h : exec x s = (.ok a, s')) : exec (x >>= f) s = exec (f a) s' := by
  rw [exec_bind, h]

lemma exec_bind_error {x : Throwing ε σ α} {f : α → Throwing ε σ β} {s s' : σ} {e : ε}
    (h : exec x s = (.error e, s')) : exec (x >>= f) s = (.error e, s') := by
  rw [exec_bind, h]

end Throwing
