import Mathlib.Tactic

/-!
# Lists in groups

A list is grouped by a relation if the elements which are related to one of them are next to each
other.
-/

namespace Utilmm

variable {α : Type*} {r : α → α → Prop} {l l' run before rest : List α} {x : α}

/-- What stands between two related elements is related to them. -/
def Grouped (r : α → α → Prop) (l : List α) : Prop :=
  ∀ x y z, List.Sublist [x, y, z] l → r x z → r x y

namespace Grouped

lemma nil : Grouped r [] := by
  intro x y z h
  simp at h

lemma sublist (h : Grouped r l) (hl : List.Sublist l' l) : Grouped r l' :=
  fun x y z hxyz => h x y z (hxyz.trans hl)

/-- Lists without related elements may follow each other. -/
lemma append (h : Grouped r l) (h' : Grouped r l') (happart : ∀ x ∈ l, ∀ y ∈ l', ¬ r x y) :
    Grouped r (l ++ l') := by
  intro x y z hsub hxz
  obtain ⟨l₁, l₂, hsplit, h₁, h₂⟩ := List.sublist_append_iff.mp hsub
  cases l₁ with
  | nil => exact h' x y z (hsplit ▸ h₂) hxz
  | cons x' l₁ =>
    rcases List.eq_nil_or_concat l₂ with rfl | ⟨l₂, z', rfl⟩
    · rw [List.append_nil] at hsplit
      exact h x y z (hsplit ▸ h₁) hxz
    · have hx : x ∈ l := h₁.subset (by rw [(List.cons.inj hsplit).1]; exact List.mem_cons_self)
      have hz : some z = some z' := by
        have hlast := congrArg List.getLast? hsplit
        rwa [List.concat_eq_append, ← List.append_assoc, List.getLast?_concat] at hlast
      exact absurd hxz (happart x hx z (h₂.subset (by simp [Option.some.inj hz])))

lemma of_related (hr : Equivalence r) (h : ∀ y ∈ l, r x y) : Grouped r l := by
  intro a b c hsub _
  exact hr.trans (hr.symm (h a (hsub.subset (by simp)))) (h b (hsub.subset (by simp)))

/-- A new first element belongs to the group of the old one. -/
lemma cons (hr : Equivalence r) (h : Grouped r l) (hhead : ∀ y ∈ l.head?, r x y) :
    Grouped r (x :: l) := by
  intro a b c hsub hac
  rcases List.sublist_cons_iff.mp hsub with hsub | ⟨l', heq, hsub⟩
  · exact h a b c hsub hac
  obtain ⟨rfl, rfl⟩ := List.cons.inj heq
  cases l with
  | nil => simp at hsub
  | cons y l =>
    have hy : r a y := hhead y rfl
    rcases List.sublist_cons_iff.mp hsub with hsub | ⟨l', heq, -⟩
    · exact hr.trans hy (h y b c (hsub.cons_cons y) (hr.trans (hr.symm hy) hac))
    · rw [(List.cons.inj heq).1]
      exact hy

/-- A group starts at its first element. -/
lemma apart_of_head (hr : Equivalence r) (h : Grouped r (before ++ rest))
    (hbefore : ∀ y ∈ before, ¬ r x y) (hhead : ∀ y ∈ rest.head?, r x y) :
    ∀ y ∈ before, ∀ z ∈ rest, ¬ r y z := by
  intro y hy z hz hyz
  cases rest with
  | nil => cases hz
  | cons w rest =>
    have hw : r x w := hhead w rfl
    have hyw : r y w := by
      rcases List.mem_cons.mp hz with rfl | hz
      · exact hyz
      · refine h y w z ?_ hyz
        exact (List.singleton_sublist.mpr hy).append ((List.singleton_sublist.mpr hz).cons_cons w)
    exact hbefore y hy (hr.trans hw (hr.symm hyw))

/-- An element is put in front of its group, or at the end if it has none. -/
lemma insert (hr : Equivalence r) (h : Grouped r (before ++ rest))
    (hbefore : ∀ y ∈ before, ¬ r x y) (hhead : ∀ y ∈ rest.head?, r x y) :
    Grouped r (before ++ x :: rest) := by
  apply (h.sublist (List.sublist_append_left _ _)).append
  · exact (h.sublist (List.sublist_append_right _ _)).cons hr hhead
  · intro y hy z hz
    rcases List.mem_cons.mp hz with rfl | hz
    · exact fun hyz => hbefore y hy (hr.symm hyz)
    · exact h.apart_of_head hr hbefore hhead y hy z hz

/-- Behind the group of the first element there is nothing related to it. -/
lemma not_of_mem_dropWhile {p : α → Bool} (h : Grouped r (x :: l)) (hp : ∀ y, p y = true ↔ r x y)
    {y : α} (hy : y ∈ l.dropWhile p) : ¬ r x y := by
  intro hxy
  cases hdrop : l.dropWhile p with
  | nil => simp [hdrop] at hy
  | cons z l' =>
    have hz : ¬ r x z := by
      have hhead := List.head?_dropWhile_not p l
      rw [hdrop] at hhead
      simpa [← hp] using hhead
    rw [hdrop, List.mem_cons] at hy
    rcases hy with rfl | hy
    · exact hz hxy
    · refine hz (h x z y ?_ hxy)
      have hsub : List.Sublist (z :: l') l := hdrop ▸ List.dropWhile_sublist p
      exact (((List.singleton_sublist.mpr hy).cons_cons z).trans hsub).cons_cons x

end Grouped

end Utilmm
