import Mathlib.Tactic
import Utilmm.Core.Except

/-!
# Runs of a machine

The steps of a machine may fail. A run is a list of actions, each of which is legal in the state
that it finds. What every step keeps holds in all states of a run, and if the property breaks
exactly at the steps which do not meet a condition, the condition tells the good runs.
-/

namespace Utilmm

universe u v w

/-- A machine, with the actions which are legal in a state. -/
structure Machine (S : Type u) (A : Type v) (ε : Type w) where
  legal : S → A → Prop
  step : S → A → Except ε S

namespace Machine

variable {S : Type u} {A : Type v} {ε : Type w} (M : Machine S A ε)

/-- Each action is legal in the state that it finds, as far as the run gets. -/
def Legal : S → List A → Prop
  | _, [] => True
  | s, a :: as => M.legal s a ∧ ∀ s', M.step s a = .ok s' → Legal s' as

/-- Each action meets a condition on the state that it finds, as far as the run gets. -/
def Meets (C : S → A → Prop) : S → List A → Prop
  | _, [] => True
  | s, a :: as => C s a ∧ ∀ s', M.step s a = .ok s' → Meets C s' as

/-- No step fails, and `P` holds in every state. -/
def Holds (P : S → Prop) : S → List A → Prop
  | s, [] => P s
  | s, a :: as => P s ∧ ∃ s', M.step s a = .ok s' ∧ Holds P s' as

/-- No step fails, and `T` holds of every step. -/
def Follows (T : S → A → S → Prop) : S → List A → Prop
  | _, [] => True
  | s, a :: as => ∃ s', M.step s a = .ok s' ∧ T s a s' ∧ Follows T s' as

variable {M} {T : S → A → S → Prop} {I P : S → Prop} {C : S → A → Prop} {s : S} {as : List A}

lemma Legal.cons {s' : S} {a : A} (h : M.legal s a) (hs' : M.step s a = .ok s')
    (has : M.Legal s' as) : M.Legal s (a :: as) :=
  ⟨h, fun _ hs₁ => Except.ok.inj (hs'.symm.trans hs₁) ▸ has⟩

lemma Meets.cons {s' : S} {a : A} (h : C s a) (hs' : M.step s a = .ok s') (has : M.Meets C s' as) :
    M.Meets C s (a :: as) :=
  ⟨h, fun _ hs₁ => Except.ok.inj (hs'.symm.trans hs₁) ▸ has⟩

lemma Holds.imp {Q : S → Prop} (hPQ : ∀ s, P s → Q s) (h : M.Holds P s as) : M.Holds Q s as := by
  induction as generalizing s with
  | nil => exact hPQ s h
  | cons a as ih =>
    obtain ⟨hs, s', hs', h⟩ := h
    exact ⟨hPQ s hs, s', hs', ih h⟩

/-- The property holds at the end of a run. -/
lemma Holds.result {s' : S} (h : M.Holds P s as) (hs' : as.foldlM M.step s = .ok s') : P s' := by
  induction as generalizing s with
  | nil => exact Except.ok.inj hs' ▸ h
  | cons a as ih =>
    obtain ⟨-, s₁, hs₁, h⟩ := h
    rw [List.foldlM_cons, hs₁] at hs'
    exact ih h hs'

/-- A condition on the actions alone. -/
lemma Meets.of_forall {C : A → Prop} (h : ∀ a ∈ as, C a) : M.Meets (fun _ => C) s as := by
  induction as generalizing s with
  | nil => trivial
  | cons a as ih =>
    rw [List.forall_mem_cons] at h
    exact ⟨h.1, fun s' _ => ih h.2⟩

/-- In a run without a failure the condition is met to the end. -/
lemma Holds.forall_of_meets {C : A → Prop} (h : M.Holds P s as)
    (hmeets : M.Meets (fun _ => C) s as) : ∀ a ∈ as, C a := by
  induction as generalizing s with
  | nil => simp
  | cons a as ih =>
    obtain ⟨-, s', hs', h⟩ := h
    exact List.forall_mem_cons.mpr ⟨hmeets.1, ih h (hmeets.2 s' hs')⟩

/-- What the steps keep holds all along. -/
theorem Holds.of_invariant (hP : ∀ s, I s → P s)
    (hstep : ∀ s a, I s → M.legal s a → C s a → ∃ s', M.step s a = .ok s' ∧ I s')
    (hs : I s) (hlegal : M.Legal s as) (hmeets : M.Meets C s as) : M.Holds P s as := by
  induction as generalizing s with
  | nil => exact hP s hs
  | cons a as ih =>
    obtain ⟨s', hs', hI⟩ := hstep s a hs hlegal.1 hmeets.1
    exact ⟨hP s hs, s', hs', ih hI (hlegal.2 s' hs') (hmeets.2 s' hs')⟩

theorem Follows.of_invariant
    (hstep : ∀ s a, I s → M.legal s a → ∃ s', M.step s a = .ok s' ∧ T s a s' ∧ I s')
    (hs : I s) (hlegal : M.Legal s as) : M.Follows T s as := by
  induction as generalizing s with
  | nil => trivial
  | cons a as ih =>
    obtain ⟨s', hs', hT, hI⟩ := hstep s a hs hlegal.1
    exact ⟨s', hs', hT, ih hI (hlegal.2 s' hs')⟩

/-- If the first step which does not meet the condition breaks the property, the good runs are
those which meet it. -/
theorem holds_iff_meets (hP : ∀ s, I s → P s)
    (hstep : ∀ s a, I s → M.legal s a → C s a → ∃ s', M.step s a = .ok s' ∧ I s')
    (hbreak : ∀ s a s', I s → M.legal s a → ¬ C s a → M.step s a = .ok s' → ¬ P s')
    (hs : I s) (hlegal : M.Legal s as) : M.Holds P s as ↔ M.Meets C s as := by
  refine ⟨fun hholds => ?_, Holds.of_invariant hP hstep hs hlegal⟩
  induction as generalizing s with
  | nil => trivial
  | cons a as ih =>
    obtain ⟨-, s', hs', hholds⟩ := hholds
    have hC : C s a := by
      by_contra hC
      refine hbreak s a s' hs hlegal.1 hC hs' ?_
      cases as with
      | nil => exact hholds
      | cons a' as => exact hholds.1
    obtain ⟨s₁, hs₁, hI⟩ := hstep s a hs hlegal.1 hC
    refine ⟨hC, fun s'' hs'' => ?_⟩
    obtain rfl : s' = s'' := Except.ok.inj (hs'.symm.trans hs'')
    obtain rfl : s₁ = s' := Except.ok.inj (hs₁.symm.trans hs'')
    exact ih hI (hlegal.2 s₁ hs₁) hholds

/-- If no step fails and the steps which meet a condition are those of which `T` holds, the condition
tells the good runs. -/
theorem follows_iff_meets
    (hstep : ∀ s a, M.legal s a → ∃ s', M.step s a = .ok s' ∧ (T s a s' ↔ C s a))
    (hlegal : M.Legal s as) : M.Follows T s as ↔ M.Meets C s as := by
  induction as generalizing s with
  | nil => exact Iff.rfl
  | cons a as ih =>
    obtain ⟨s', hs', hiff⟩ := hstep s a hlegal.1
    have ih' := ih (hlegal.2 s' hs')
    constructor
    · rintro ⟨s₁, hs₁, hT, hfollows⟩
      obtain rfl : s' = s₁ := Except.ok.inj (hs'.symm.trans hs₁)
      exact .cons (hiff.mp hT) hs' (ih'.mp hfollows)
    · rintro ⟨hC, hmeets⟩
      exact ⟨s', hs', hiff.mpr hC, ih'.mpr (hmeets s' hs')⟩

/-- What the legal steps keep holds at the end of a legal run. -/
theorem Legal.result {C : A → Prop} {s' : S}
    (hstep : ∀ s a s', I s → M.legal s a → C a → M.step s a = .ok s' → I s')
    (hs : I s) (hlegal : M.Legal s as) (hC : ∀ a ∈ as, C a) (hrun : as.foldlM M.step s = .ok s') :
    I s' := by
  induction as generalizing s with
  | nil => exact Except.ok.inj hrun ▸ hs
  | cons a as ih =>
    obtain ⟨s₁, hs₁, hrun⟩ := Except.bind_eq_ok.mp ((List.foldlM_cons ..).symm.trans hrun)
    rw [List.forall_mem_cons] at hC
    exact ih (hstep s a s₁ hs hlegal.1 hC.1 hs₁) (hlegal.2 s₁ hs₁) hC.2 hrun

/-- If a quantity falls with each legal step, it bounds the length of a legal run. -/
theorem Legal.length_le {μ : S → Nat} {s' : S}
    (hstep : ∀ s a s', M.legal s a → M.step s a = .ok s' → μ s' < μ s)
    (hlegal : M.Legal s as) (hrun : as.foldlM M.step s = .ok s') : as.length + μ s' ≤ μ s := by
  induction as generalizing s with
  | nil =>
    obtain rfl : s = s' := Except.ok.inj hrun
    simp
  | cons a as ih =>
    obtain ⟨s₁, hs₁, hrun⟩ := Except.bind_eq_ok.mp ((List.foldlM_cons ..).symm.trans hrun)
    have hlt := hstep s a s₁ hlegal.1 hs₁
    have hle := ih (hlegal.2 s₁ hs₁) hrun
    rw [List.length_cons]
    omega

/-- If each step keeps a property exactly where the condition is met, and nothing brings it back, it
holds at the end of a run if it held at the start and the run meets the condition. -/
theorem Legal.result_iff_meets {D : S → Prop}
    (hstep : ∀ s a, I s → M.legal s a → ∃ s', M.step s a = .ok s' ∧ I s' ∧ (D s' ↔ D s ∧ C s a))
    (hs : I s) (hlegal : M.Legal s as) :
    ∃ s', as.foldlM M.step s = .ok s' ∧ I s' ∧ (D s' ↔ D s ∧ M.Meets C s as) := by
  induction as generalizing s with
  | nil => exact ⟨s, rfl, hs, (and_iff_left trivial).symm⟩
  | cons a as ih =>
    obtain ⟨s₁, hs₁, hI₁, hiff₁⟩ := hstep s a hs hlegal.1
    obtain ⟨s₂, hs₂, hI₂, hiff₂⟩ := ih hI₁ (hlegal.2 s₁ hs₁)
    refine ⟨s₂, by rw [List.foldlM_cons, hs₁]; exact hs₂, hI₂, hiff₂.trans ?_⟩
    rw [hiff₁]
    constructor
    · rintro ⟨⟨hD, hC⟩, hmeets⟩
      exact ⟨hD, .cons hC hs₁ hmeets⟩
    · rintro ⟨hD, hC, hmeets⟩
      exact ⟨⟨hD, hC⟩, hmeets s₁ hs₁⟩

/-- Where every action is legal, every run is. -/
lemma Legal.of_forall (h : ∀ s a, M.legal s a) (s : S) (as : List A) : M.Legal s as := by
  induction as generalizing s with
  | nil => trivial
  | cons a as ih => exact ⟨h s a, fun s' _ => ih s'⟩

/-- If a quantity never grows and every step keeps it exactly where the condition is met, it is
the same at the end of a run as at the start if the run meets the condition. -/
theorem result_eq_iff_meets {B : Type*} [PartialOrder B] {μ : S → B}
    (hstep : ∀ s a, M.legal s a → ∃ s', M.step s a = .ok s' ∧ μ s' ≤ μ s ∧ (μ s' = μ s ↔ C s a))
    (hlegal : M.Legal s as) : ∃ s', as.foldlM M.step s = .ok s' ∧ μ s' ≤ μ s ∧
      (μ s' = μ s ↔ M.Meets C s as) := by
  induction as generalizing s with
  | nil => exact ⟨s, rfl, le_refl _, iff_of_true rfl trivial⟩
  | cons a as ih =>
    obtain ⟨s₁, hs₁, hle₁, heq₁⟩ := hstep s a hlegal.1
    obtain ⟨s₂, hs₂, hle₂, heq₂⟩ := ih (hlegal.2 s₁ hs₁)
    refine ⟨s₂, by rw [List.foldlM_cons, hs₁]; exact hs₂, hle₂.trans hle₁, ?_, fun hmeets => ?_⟩
    · intro heq
      have hle : μ s ≤ μ s₁ := heq ▸ hle₂
      have hsame : μ s₁ = μ s := hle₁.antisymm hle
      exact .cons (heq₁.mp hsame) hs₁ (heq₂.mp (heq.trans hsame.symm))
    · exact (heq₂.mpr (hmeets.2 s₁ hs₁)).trans (heq₁.mpr hmeets.1)

/-! ### Two machines side by side -/

/-- Another machine runs beside a machine with the same actions. It is the first one which tells
what is legal. -/
def beside {S' : Type u} {ε' : Type w} (M : Machine S A ε) (N : Machine S' A ε') :
    Machine (S × S') A (ε ⊕ ε') where
  legal p a := M.legal p.1 a
  step p a := do
    let s ← (M.step p.1 a).mapError .inl
    let t ← (N.step p.2 a).mapError .inr
    return (s, t)

section

variable {S' : Type u} {ε' : Type w} {N : Machine S' A ε'} {p p' : S × S'} {a : A}

lemma beside_step : (M.beside N).step p a = .ok p' ↔
    M.step p.1 a = .ok p'.1 ∧ N.step p.2 a = .ok p'.2 := by
  obtain ⟨s', t'⟩ := p'
  simp only [beside, Except.bind_eq_ok, Except.pure_eq_ok]
  cases M.step p.1 a <;> cases N.step p.2 a <;> simp [Except.mapError]

lemma Legal.beside (h : M.Legal p.1 as) : (M.beside N).Legal p as := by
  induction as generalizing p with
  | nil => trivial
  | cons a as ih => exact ⟨h.1, fun p' hp' => ih (h.2 p'.1 (beside_step.mp hp').1)⟩

/-- If no step fails, a condition on the first machine is met by its run alone. -/
lemma Holds.meets_beside_iff {P : S × S' → Prop} (h : (M.beside N).Holds P p as) :
    (M.beside N).Meets (fun p => C p.1) p as ↔ M.Meets C p.1 as := by
  induction as generalizing p with
  | nil => exact Iff.rfl
  | cons a as ih =>
    obtain ⟨-, p', hp', h⟩ := h
    have hstep := (beside_step.mp hp').1
    exact ⟨fun hmeets => .cons hmeets.1 hstep ((ih h).mp (hmeets.2 p' hp')),
      fun hmeets => .cons hmeets.1 hp' ((ih h).mpr (hmeets.2 p'.1 hstep))⟩

lemma Meets.beside (h : M.Meets C s as) (t : S') :
    (M.beside N).Meets (fun p => C p.1) (s, t) as := by
  induction as generalizing s t with
  | nil => trivial
  | cons a as ih => exact ⟨h.1, fun p' hp' => ih (h.2 p'.1 (beside_step.mp hp').1) p'.2⟩

end

end Machine

end Utilmm
