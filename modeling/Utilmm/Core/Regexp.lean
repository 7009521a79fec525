import Mathlib.Tactic
import Mathlib.Computability.Language
import Mathlib.Data.List.TakeWhile

/-!
# Backtracking regular expressions

Regular expressions with capture groups, matched the way a Perl-style engine matches them:
alternatives from left to right, repetitions greedily, and the first way of matching the whole
text decides the captures. Two facts carry every use: whether a text is matched depends on the
language of the expression only, and a greedy repetition of a character class takes the longest
run whenever the rest of the expression can follow it.
-/

/-- Regular expressions over an alphabet. -/
inductive Regexp (α : Type*) where
  | empty
  | cls (p : α → Bool)
  | seq (r s : Regexp α)
  | alt (r s : Regexp α)
  | star (r : Regexp α)
  | group (n : Nat) (r : Regexp α)

namespace Regexp

variable {α : Type*}

/-- What the groups have captured, latest first. -/
abbrev Captures (α : Type*) := List (Nat × List α)

/-- One or more repetitions. -/
def plus (r : Regexp α) : Regexp α := .seq r (.star r)

/-- Zero or one occurrence, tried in the order one, zero. -/
def opt (r : Regexp α) : Regexp α := .alt r .empty

/-- The text captured by group `n`. -/
def capture (c : Captures α) (n : Nat) : List α := (c.lookup n).getD []

/-- Greedy repetition: one more round if it consumes input, else go on. -/
def iterate {β : Type*}
    (step : List α → Captures α → (List α → Captures α → Option β) → Option β) :
    Nat → List α → Captures α → (List α → Captures α → Option β) → Option β
  | 0, s, c, k => k s c
  | n + 1, s, c, k =>
    (step s c fun s' c' => if s'.length < s.length then iterate step n s' c' k else none).or
      (k s c)

/-- Match a prefix of the text and continue with what follows, backtracking on failure. -/
def exec {β : Type*} :
    Regexp α → List α → Captures α → (List α → Captures α → Option β) → Option β
  | .empty, s, c, k => k s c
  | .cls _, [], _, _ => none
  | .cls p, a :: s, c, k => if p a then k s c else none
  | .seq r r', s, c, k => exec r s c fun s' c' => exec r' s' c' k
  | .alt r r', s, c, k => (exec r s c k).or (exec r' s c k)
  | .star r, s, c, k => iterate (exec r) s.length s c k
  | .group n r, s, c, k => exec r s c fun s' c' => k s' ((n, s.take (s.length - s'.length)) :: c')

/-- Accept at the end of the text. -/
def atEnd (s : List α) (c : Captures α) : Option (Captures α) := if s.isEmpty then some c else none

/-- Match the whole text. -/
def fullMatch (r : Regexp α) (s : List α) : Option (Captures α) := exec r s [] atEnd

/-- Whether the whole text is matched. -/
def isMatch (r : Regexp α) (s : List α) : Bool := (fullMatch r s).isSome

/-! ### The language of an expression -/

/-- The texts an expression stands for. -/
def language : Regexp α → Language α
  | .empty => 1
  | .cls p => {s | ∃ a, p a = true ∧ s = [a]}
  | .seq r s => r.language * s.language
  | .alt r s => r.language + s.language
  | .star r => KStar.kstar r.language
  | .group _ r => r.language

lemma mem_language_cls {p : α → Bool} {s : List α} :
    s ∈ (cls p).language ↔ ∃ a, p a = true ∧ s = [a] := Iff.rfl

lemma mem_language_group {n : Nat} {r : Regexp α} {s : List α} :
    s ∈ (group n r).language ↔ s ∈ r.language := Iff.rfl

lemma mem_language_seq {r r' : Regexp α} {s : List α} :
    s ∈ (seq r r').language ↔ ∃ u v, s = u ++ v ∧ u ∈ r.language ∧ v ∈ r'.language := by
  rw [language, Language.mem_mul]
  constructor
  · rintro ⟨u, hu, v, hv, rfl⟩
    exact ⟨u, v, rfl, hu, hv⟩
  · rintro ⟨u, v, rfl, hu, hv⟩
    exact ⟨u, hu, v, hv, rfl⟩

lemma mem_language_opt {r : Regexp α} {s : List α} :
    s ∈ (opt r).language ↔ s ∈ r.language ∨ s = [] := Iff.rfl

/-- What the execution of `r` has to satisfy: it succeeds exactly on the splittings of the
text into a word of `L` and a rest on which the continuation succeeds. -/
def Explores {β : Type*} (L : Language α)
    (step : List α → Captures α → (List α → Captures α → Option β) → Option β) : Prop :=
  ∀ (s : List α) (c : Captures α) (k : List α → Captures α → Option β) (P : List α → Prop),
    (∀ v c', (k v c').isSome ↔ P v) →
      ((step s c k).isSome ↔ ∃ u v, s = u ++ v ∧ u ∈ L ∧ P v)

lemma Explores.iterate {β : Type*} {L : Language α}
    {step : List α → Captures α → (List α → Captures α → Option β) → Option β}
    (hstep : Explores L step) (n : Nat) :
    ∀ (s : List α) (c : Captures α) (k : List α → Captures α → Option β) (P : List α → Prop),
      s.length ≤ n → (∀ v c', (k v c').isSome ↔ P v) →
        ((Regexp.iterate step n s c k).isSome
          ↔ ∃ u v, s = u ++ v ∧ u ∈ KStar.kstar L ∧ P v) := by
  induction n with
  | zero =>
    intro s c k P hn hk
    have hs : s = [] := List.length_eq_zero_iff.mp (by omega)
    subst hs
    simp only [Regexp.iterate, hk]
    constructor
    · intro h
      exact ⟨[], [], rfl, Language.nil_mem_kstar L, h⟩
    · rintro ⟨u, v, huv, -, hv⟩
      obtain ⟨rfl, rfl⟩ := List.append_eq_nil_iff.mp huv.symm
      exact hv
  | succ n ih =>
    intro s c k P hn hk
    have hloop := hstep s c
      (fun s' c' => if s'.length < s.length then Regexp.iterate step n s' c' k else none)
      (fun s' => s'.length < s.length ∧ ∃ u v, s' = u ++ v ∧ u ∈ KStar.kstar L ∧ P v)
      (fun s' c' => by
        by_cases hlt : s'.length < s.length
        · simp only [hlt, if_true, true_and]
          exact ih s' c' k P (by omega) hk
        · simp [hlt])
    simp only [Regexp.iterate, Option.isSome_or, Bool.or_eq_true, hloop, hk]
    constructor
    · rintro (⟨u, s', rfl, hu, -, u', v, rfl, ⟨ws, rfl, hws⟩, hv⟩ | hs)
      · refine ⟨u ++ ws.flatten, v, by simp, ⟨u :: ws, by simp, ?_⟩, hv⟩
        intro y hy
        rcases List.mem_cons.mp hy with rfl | hy
        · exact hu
        · exact hws y hy
      · exact ⟨[], s, rfl, Language.nil_mem_kstar L, hs⟩
    · rintro ⟨u, v, rfl, hu, hv⟩
      obtain ⟨ws, rfl, hws⟩ := Language.mem_kstar_iff_exists_nonempty.mp hu
      cases ws with
      | nil => exact Or.inr hv
      | cons w ws =>
        obtain ⟨hw, hne⟩ := hws w List.mem_cons_self
        refine Or.inl ⟨w, ws.flatten ++ v, by simp, hw, ?_, ws.flatten, v, rfl,
          ⟨ws, rfl, fun y hy => (hws y (List.mem_cons_of_mem _ hy)).1⟩, hv⟩
        have := List.length_pos_iff.mpr hne
        simp only [List.flatten_cons, List.length_append]
        omega

/-- Backtracking finds a match whenever there is one. -/
lemma explores_exec {β : Type*} (r : Regexp α) : Explores (β := β) r.language (exec r) := by
  induction r with
  | empty =>
    intro s c k P hk
    simp only [exec, hk, language, Language.mem_one]
    constructor
    · intro h
      exact ⟨[], s, rfl, rfl, h⟩
    · rintro ⟨u, v, rfl, rfl, hv⟩
      exact hv
  | cls p =>
    intro s c k P hk
    simp only [mem_language_cls]
    cases s with
    | nil =>
      simp only [exec, Option.isSome_none, Bool.false_eq_true, false_iff]
      rintro ⟨u, v, huv, ⟨a, -, rfl⟩, -⟩
      simp at huv
    | cons a s =>
      constructor
      · intro h
        by_cases ha : p a
        · simp only [exec, ha, if_true, hk] at h
          exact ⟨[a], s, rfl, ⟨a, ha, rfl⟩, h⟩
        · simp [exec, ha] at h
      · rintro ⟨u, v, huv, ⟨b, hb, rfl⟩, hv⟩
        obtain ⟨rfl, rfl⟩ := List.cons_eq_cons.mp huv
        simpa [exec, hb, hk] using hv
  | seq r r' ihr ihr' =>
    intro s c k P hk
    have h' := fun v c' => ihr' v c' k P hk
    simp only [exec]
    rw [ihr s c _ _ h']
    constructor
    · rintro ⟨u, s', rfl, hu, u', v, rfl, hu', hv⟩
      exact ⟨u ++ u', v, by simp, Language.append_mem_mul hu hu', hv⟩
    · rintro ⟨w, v, rfl, hw, hv⟩
      obtain ⟨u, hu, u', hu', rfl⟩ := Language.mem_mul.mp hw
      exact ⟨u, u' ++ v, by simp, hu, u', v, rfl, hu', hv⟩
  | alt r r' ihr ihr' =>
    intro s c k P hk
    simp only [exec, Option.isSome_or, Bool.or_eq_true, ihr s c k P hk, ihr' s c k P hk,
      language, Language.mem_add]
    constructor
    · rintro (⟨u, v, h, hu, hv⟩ | ⟨u, v, h, hu, hv⟩)
      · exact ⟨u, v, h, Or.inl hu, hv⟩
      · exact ⟨u, v, h, Or.inr hu, hv⟩
    · rintro ⟨u, v, h, hu | hu, hv⟩
      · exact Or.inl ⟨u, v, h, hu, hv⟩
      · exact Or.inr ⟨u, v, h, hu, hv⟩
  | star r ih =>
    intro s c k P hk
    exact ih.iterate s.length s c k P le_rfl hk
  | group n r ih =>
    intro s c k P hk
    exact ih s c _ P fun v c' => hk v _

/-- A text is matched exactly when it belongs to the language. -/
theorem isMatch_iff (r : Regexp α) (s : List α) : r.isMatch s ↔ s ∈ r.language := by
  have h := explores_exec r s [] atEnd (· = []) (fun v c' => by cases v <;> simp [atEnd])
  rw [isMatch, fullMatch, h]
  constructor
  · rintro ⟨u, v, rfl, hu, rfl⟩
    simpa using hu
  · intro hs
    exact ⟨s, [], by simp, hs, rfl⟩

lemma fullMatch_eq_none_iff {r : Regexp α} {s : List α} :
    fullMatch r s = none ↔ s ∉ r.language := by
  rw [← isMatch_iff, isMatch, Option.not_isSome_iff_eq_none]

/-! ### Character classes -/

@[simp] lemma mem_language_star_cls {p : α → Bool} {s : List α} :
    s ∈ (star (cls p)).language ↔ ∀ a ∈ s, p a := by
  constructor
  · rintro ⟨ws, rfl, hws⟩ a ha
    obtain ⟨w, hw, haw⟩ := List.mem_flatten.mp ha
    obtain ⟨b, hb, rfl⟩ := hws w hw
    rw [List.mem_singleton.mp haw]
    exact hb
  · intro hs
    refine ⟨s.map fun a => [a], by simp [← List.flatMap_def], ?_⟩
    intro w hw
    obtain ⟨a, ha, rfl⟩ := List.mem_map.mp hw
    exact ⟨a, hs a ha, rfl⟩

@[simp] lemma mem_language_plus_cls {p : α → Bool} {s : List α} :
    s ∈ (plus (cls p)).language ↔ s ≠ [] ∧ ∀ a ∈ s, p a := by
  rw [plus, language, Language.mem_mul]
  constructor
  · rintro ⟨u, ⟨a, ha, rfl⟩, v, hv, rfl⟩
    rw [mem_language_star_cls] at hv
    simpa [ha] using hv
  · rintro ⟨hne, hs⟩
    obtain ⟨a, s, rfl⟩ := List.exists_cons_of_ne_nil hne
    exact ⟨[a], ⟨a, hs a List.mem_cons_self, rfl⟩, s,
      mem_language_star_cls.mpr fun b hb => hs b (List.mem_cons_of_mem _ hb), rfl⟩

/-- A fixed word. -/
def word [DecidableEq α] : List α → Regexp α
  | [] => .empty
  | a :: s => .seq (.cls (· = a)) (word s)

@[simp] lemma mem_language_word [DecidableEq α] {w s : List α} :
    s ∈ (word w).language ↔ s = w := by
  induction w generalizing s with
  | nil => simp [word, language]
  | cons a w ih =>
    rw [word, language, Language.mem_mul]
    constructor
    · rintro ⟨u, ⟨b, hb, rfl⟩, v, hv, rfl⟩
      rw [ih.mp hv]
      simpa using hb
    · rintro rfl
      exact ⟨[a], ⟨a, by simp, rfl⟩, w, ih.mpr rfl, rfl⟩

lemma exec_cls_cons {β : Type*} {p : α → Bool} {a : α} (ha : p a) (s : List α) (c : Captures α)
    (k : List α → Captures α → Option β) : exec (cls p) (a :: s) c k = k s c := by
  rw [exec, if_pos ha]

/-- Greed: a repeated class takes its longest run if the rest can follow there. -/
lemma exec_star_cls {β : Type*} (p : α → Bool) (s : List α) (c : Captures α)
    (k : List α → Captures α → Option β) (h : (k (s.dropWhile p) c).isSome) :
    exec (star (cls p)) s c k = k (s.dropWhile p) c := by
  have hiter : ∀ (n : Nat) (s : List α), s.length ≤ n → (k (s.dropWhile p) c).isSome →
      iterate (exec (cls p)) n s c k = k (s.dropWhile p) c := by
    intro n
    induction n with
    | zero =>
      intro s hn _
      rw [List.length_eq_zero_iff.mp (Nat.le_zero.mp hn)]
      rfl
    | succ n ih =>
      intro s hn h
      cases s with
      | nil => simp [iterate, exec]
      | cons a s =>
        by_cases ha : p a
        · rw [List.dropWhile_cons_of_pos ha] at h ⊢
          have hrec := ih s (by simpa using hn) h
          obtain ⟨b, hb⟩ := Option.isSome_iff_exists.mp h
          simp [iterate, exec, ha, hrec, hb]
        · rw [List.dropWhile_cons_of_neg ha]
          simp [iterate, exec, ha]
  exact hiter s.length s le_rfl h

lemma exec_plus_cls {β : Type*} (p : α → Bool) (a : α) (s : List α) (ha : p a)
    (c : Captures α) (k : List α → Captures α → Option β) (h : (k (s.dropWhile p) c).isSome) :
    exec (plus (cls p)) (a :: s) c k = k (s.dropWhile p) c := by
  simp only [plus, exec, ha, if_true]
  exact exec_star_cls p s c k h

/-- Backtracking: if the rest cannot follow the longest run but can follow when one character is
given back, the class gives back one. -/
lemma exec_star_cls_last {β : Type*} (p : α → Bool) (s : List α) (a : α) (hs : ∀ b ∈ s, p b)
    (ha : p a) (c : Captures α) (k : List α → Captures α → Option β) (hnil : k [] c = none)
    (hlast : (k [a] c).isSome) : exec (star (cls p)) (s ++ [a]) c k = k [a] c := by
  have hiter : ∀ (s : List α) (n : Nat), s.length < n → (∀ b ∈ s, p b) →
      iterate (exec (cls p)) n (s ++ [a]) c k = k [a] c := by
    intro s
    induction s with
    | nil =>
      intro n hn _
      obtain ⟨n, rfl⟩ := Nat.exists_eq_succ_of_ne_zero hn.ne'
      have hrec : iterate (exec (cls p)) n [] c k = none := by
        cases n <;> simp [iterate, exec, hnil]
      simp [iterate, exec, ha, hrec]
    | cons b s ih =>
      intro n hn hs
      obtain ⟨n, rfl⟩ := Nat.exists_eq_succ_of_ne_zero (Nat.ne_zero_of_lt hn)
      have hrec := ih n (by simpa using hn) fun d hd => hs d (List.mem_cons_of_mem _ hd)
      obtain ⟨r, hr⟩ := Option.isSome_iff_exists.mp hlast
      simp [iterate, exec, hs b List.mem_cons_self, hrec, hr]
  exact hiter s (s ++ [a]).length (by simp) hs

/-- Where the rest cannot follow, a repetition finds nothing. -/
lemma iterate_cls_eq_none {β : Type*} (p : α → Bool) (n : Nat) {s : List α} {c : Captures α}
    {k : List α → Captures α → Option β} (hnone : ∀ t, t <:+ s → k t c = none) :
    iterate (exec (cls p)) n s c k = none := by
  induction n generalizing s with
  | zero => exact hnone s List.suffix_rfl
  | succ n ih =>
    rw [iterate, hnone s List.suffix_rfl, Option.or_none]
    cases s with
    | nil => rfl
    | cons a s =>
      by_cases ha : p a
      · rw [exec_cls_cons ha, if_pos (by simp)]
        exact ih fun t ht => hnone t (ht.trans (List.suffix_cons a s))
      · simp [exec, ha]

/-- Backtracking: a repeated class takes as much as it can with the rest still following. -/
lemma exec_star_cls_of_last {β : Type*} (p : α → Bool) {u v : List α} (hu : ∀ a ∈ u, p a)
    {c : Captures α} {k : List α → Captures α → Option β} (hv : (k v c).isSome)
    (hnone : ∀ t, t <:+ v → t ≠ v → k t c = none) : exec (star (cls p)) (u ++ v) c k = k v c := by
  obtain ⟨r, hr⟩ := Option.isSome_iff_exists.mp hv
  have hiter : ∀ (u : List α) (n : Nat), u.length ≤ n → (∀ a ∈ u, p a) →
      iterate (exec (cls p)) n (u ++ v) c k = k v c := by
    intro u
    induction u with
    | nil =>
      intro n _ _
      cases n with
      | zero => rfl
      | succ n =>
        rw [List.nil_append, iterate, hr]
        cases v with
        | nil => rfl
        | cons a v =>
          by_cases ha : p a
          · rw [exec_cls_cons ha, if_pos (by simp), iterate_cls_eq_none p n, Option.none_or]
            exact fun t ht => hnone t (ht.trans (List.suffix_cons a v)) fun heq => by
              have hle := ht.length_le
              rw [heq, List.length_cons] at hle
              omega
          · simp [exec, ha]
    | cons b u ih =>
      intro n hn hu
      obtain ⟨n, rfl⟩ := Nat.exists_eq_succ_of_ne_zero (Nat.ne_zero_of_lt hn)
      have hrec := ih n (by simpa using hn) fun a ha => hu a (List.mem_cons_of_mem _ ha)
      simp [iterate, exec, hu b List.mem_cons_self, hrec, hr]
  exact hiter u (u ++ v).length (by simp) hu

/-- The text consumed by a run of a class is the run itself. -/
lemma take_length_sub_dropWhile (p : α → Bool) (s : List α) :
    s.take (s.length - (s.dropWhile p).length) = s.takeWhile p := by
  have h : s.takeWhile p ++ s.dropWhile p = s := List.takeWhile_append_dropWhile
  have hlen : s.length - (s.dropWhile p).length = (s.takeWhile p).length := by
    have := congrArg List.length h
    rw [List.length_append] at this
    omega
  rw [hlen]
  nth_rewrite 2 [← h]
  exact List.take_left

/-! ### Searching -/

/-- A match in a text, with the text before and after it. -/
structure Found (α : Type*) where
  before : List α
  captures : Captures α
  after : List α

/-- The match that starts at the beginning of the text. -/
def matchHere (r : Regexp α) (s : List α) : Option (Found α) :=
  exec r s [] fun rest c => some ⟨[], c, rest⟩

/-- The leftmost match in the text. -/
def search (r : Regexp α) : List α → Option (Found α)
  | [] => matchHere r []
  | a :: s =>
    (matchHere r (a :: s)).or ((search r s).map fun m => { m with before := a :: m.before })

end Regexp
