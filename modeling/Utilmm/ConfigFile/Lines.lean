import Utilmm.Core.Regexp
import Utilmm.Text

/-!
# The lines of a configuration file

`read` tells the kinds of lines apart by five regular expressions. A line is first matched as a
whole; if it starts with a name, what stands between the name and a comment is matched again.
-/

namespace Utilmm

namespace ConfigFile

/-! ### Regular expressions -/

/-- `^[[:blank:]]*` -/
def regexpHeader : Regexp Char := .star (.cls isBlank)

/-- `[[:blank:]]*(?:#.*)?$` -/
def regexpTrail : Regexp Char :=
  .seq (.star (.cls isBlank)) (.opt (.seq (.cls (· = '#')) (.star (.cls fun _ => true))))

def rxEmpty : Regexp Char := .seq regexpHeader regexpTrail

/-- `([[:alnum:]_-]+)([^#]*)` between header and trail. -/
def rxName : Regexp Char :=
  .seq regexpHeader (.seq (.group 1 (.plus (.cls isIdent)))
    (.seq (.group 2 (.star (.cls (· ≠ '#')))) regexpTrail))

/-- `:[[:blank:]]*([^#]+)` between header and trail. -/
def rxAttribute : Regexp Char :=
  .seq regexpHeader (.seq (.cls (· = ':')) (.seq (.star (.cls isBlank))
    (.seq (.group 1 (.plus (.cls (· ≠ '#')))) regexpTrail)))

/-- A bracket between header and trail. -/
def rxBracket (bracket : Char) : Regexp Char :=
  .seq regexpHeader (.seq (.cls (· = bracket)) regexpTrail)

def rxOpenBracket : Regexp Char := rxBracket '{'

def rxCloseBracket : Regexp Char := rxBracket '}'

/-! ### Their languages -/

/-- What precedes a comment. -/
def beforeComment (s : Str) : Str := s.takeWhile (· ≠ '#')

lemma beforeComment_append {u v : Str} (hu : '#' ∉ u) :
    beforeComment (u ++ v) = u ++ beforeComment v := by
  rw [beforeComment, List.takeWhile_append_of_pos, beforeComment]
  intro c hc
  have hne : c ≠ '#' := fun h => hu (h ▸ hc)
  simpa using hne

lemma beforeComment_of_not_mem {u : Str} (hu : '#' ∉ u) : beforeComment u = u := by
  have h := beforeComment_append (v := []) hu
  simpa [beforeComment] using h

@[simp] lemma beforeComment_hash (s : Str) : beforeComment ('#' :: s) = [] := by
  simp [beforeComment]

lemma not_mem_beforeComment (s : Str) : '#' ∉ beforeComment s := by
  intro h
  simpa using List.mem_takeWhile_imp h

lemma hash_not_mem_of_blank {u : Str} (hu : ∀ c ∈ u, isBlank c) : '#' ∉ u := by
  intro h
  exact absurd (hu '#' h) (by decide)

lemma dropWhile_blank {u : Str} (hu : ∀ c ∈ u, isBlank c) (v : Str) :
    (u ++ v).dropWhile isBlank = v.dropWhile isBlank := by
  rw [List.dropWhile_append, List.dropWhile_eq_nil_iff.mpr hu]
  rfl

lemma mem_language_regexpTrail {s : Str} :
    s ∈ regexpTrail.language ↔ ∀ c ∈ beforeComment s, isBlank c := by
  rw [regexpTrail, Regexp.mem_language_seq]
  simp only [Regexp.mem_language_opt, Regexp.mem_language_star_cls]
  constructor
  · rintro ⟨u, v, rfl, hu, hv⟩
    rw [beforeComment_append (hash_not_mem_of_blank hu)]
    rcases hv with hv | rfl
    · obtain ⟨_, r, rfl, ⟨a, ha, rfl⟩, -⟩ := Regexp.mem_language_seq.mp hv
      simpa [show a = '#' by simpa using ha] using hu
    · simpa [beforeComment] using hu
  · intro h
    refine ⟨beforeComment s, s.dropWhile (· ≠ '#'), List.takeWhile_append_dropWhile.symm, h, ?_⟩
    cases hs : s.dropWhile (· ≠ '#') with
    | nil => exact Or.inr rfl
    | cons a r =>
      obtain rfl : a = '#' := by simpa using not_of_dropWhile hs
      exact Or.inl (Regexp.mem_language_seq.mpr ⟨['#'], r, rfl, ⟨'#', by simp, rfl⟩,
        Regexp.mem_language_star_cls.mpr fun _ _ => rfl⟩)

lemma rxEmpty_iff {s : Str} : rxEmpty.isMatch s ↔ ∀ c ∈ beforeComment s, isBlank c := by
  rw [Regexp.isMatch_iff, rxEmpty, Regexp.mem_language_seq]
  constructor
  · rintro ⟨u, v, rfl, hu, hv⟩
    have hublank := Regexp.mem_language_star_cls.mp hu
    rw [beforeComment_append (hash_not_mem_of_blank hublank)]
    intro c hc
    rcases List.mem_append.mp hc with hc | hc
    · exact hublank c hc
    · exact mem_language_regexpTrail.mp hv c hc
  · intro h
    exact ⟨[], s, rfl, Regexp.mem_language_star_cls.mpr (by simp), mem_language_regexpTrail.mpr h⟩

/-- A line whose first character behind the blanks is `a`. -/
lemma mem_language_header_char {a : Char} (ha : isBlank a = false) {r : Regexp Char} {s : Str} :
    s ∈ (Regexp.seq regexpHeader (.seq (.cls (· = a)) r)).language ↔
      ∃ v, s.dropWhile isBlank = a :: v ∧ v ∈ r.language := by
  rw [Regexp.mem_language_seq]
  constructor
  · rintro ⟨u, w, rfl, hu, hw⟩
    obtain ⟨_, v, rfl, ⟨b, hb, rfl⟩, hv⟩ := Regexp.mem_language_seq.mp hw
    obtain rfl : b = a := by simpa using hb
    refine ⟨v, ?_, hv⟩
    rw [dropWhile_blank (Regexp.mem_language_star_cls.mp hu)]
    simp [ha]
  · rintro ⟨v, hs, hv⟩
    refine ⟨s.takeWhile isBlank, a :: v, by rw [← hs, List.takeWhile_append_dropWhile],
      Regexp.mem_language_star_cls.mpr fun c hc => List.mem_takeWhile_imp hc, ?_⟩
    exact Regexp.mem_language_seq.mpr ⟨[a], v, rfl, ⟨a, by simp, rfl⟩, hv⟩

lemma rxBracket_iff {bracket : Char} (h : isBlank bracket = false) {s : Str} :
    (rxBracket bracket).isMatch s ↔
      ∃ v, s.dropWhile isBlank = bracket :: v ∧ ∀ c ∈ beforeComment v, isBlank c := by
  rw [Regexp.isMatch_iff, rxBracket, mem_language_header_char h]
  simp only [mem_language_regexpTrail]

lemma rxOpenBracket_iff {s : Str} :
    rxOpenBracket.isMatch s ↔
      ∃ v, s.dropWhile isBlank = '{' :: v ∧ ∀ c ∈ beforeComment v, isBlank c :=
  rxBracket_iff (by decide)

lemma rxCloseBracket_iff {s : Str} :
    rxCloseBracket.isMatch s ↔
      ∃ v, s.dropWhile isBlank = '}' :: v ∧ ∀ c ∈ beforeComment v, isBlank c :=
  rxBracket_iff (by decide)

/-! ### What they capture -/

/-- Up to its comment, a text is the trail of a line when nothing precedes the comment. -/
lemma exec_regexpTrail {v : Str} (hv : v = [] ∨ ∃ r, v = '#' :: r) (c : Regexp.Captures Char) :
    Regexp.exec regexpTrail v c Regexp.atEnd = some c := by
  rw [regexpTrail, Regexp.exec]
  rcases hv with rfl | ⟨r, rfl⟩
  · rfl
  · have hany : Regexp.exec (.star (.cls fun _ => true)) r c Regexp.atEnd = some c := by
      have hend : r.dropWhile (fun _ => true) = [] := List.dropWhile_eq_nil_iff.mpr fun _ _ => rfl
      rw [Regexp.exec_star_cls _ _ _ _ (by rw [hend]; rfl), hend]
      rfl
    have hcomment : Regexp.exec (.opt (.seq (.cls (· = '#')) (.star (.cls fun _ => true))))
        ('#' :: r) c Regexp.atEnd = some c := by
      rw [Regexp.opt, Regexp.exec, Regexp.exec, Regexp.exec, Regexp.exec_cls_cons (by simp), hany]
      rfl
    have hblank : ('#' :: r).dropWhile isBlank = '#' :: r :=
      List.dropWhile_cons_of_neg (by decide)
    rw [Regexp.exec_star_cls _ _ _ _ (by rw [hblank, hcomment]; rfl), hblank, hcomment]

lemma dropWhile_hash (s : Str) :
    s.dropWhile (· ≠ '#') = [] ∨ ∃ r, s.dropWhile (· ≠ '#') = '#' :: r := by
  cases hs : s.dropWhile (· ≠ '#') with
  | nil => exact Or.inl rfl
  | cons a r =>
    obtain rfl : a = '#' := by simpa using not_of_dropWhile hs
    exact Or.inr ⟨r, rfl⟩

/-- The name at the start of a line. -/
def nameOf (line : Str) : Str := (line.dropWhile isBlank).takeWhile isIdent

/-- What stands between the name and a comment. -/
def valueOf (line : Str) : Str := beforeComment ((line.dropWhile isBlank).dropWhile isIdent)

/-- `rx_name` captures the whole name, and with the value every blank behind it. -/
lemma fullMatch_rxName {s : Str} (h : nameOf s ≠ []) :
    Regexp.fullMatch rxName s = some [(2, valueOf s), (1, nameOf s)] := by
  have hvalue : ∀ (t : Str) (c : Regexp.Captures Char),
      Regexp.exec (.seq (.group 2 (.star (.cls (· ≠ '#')))) regexpTrail) t c Regexp.atEnd
        = some ((2, beforeComment t) :: c) := by
    intro t c
    have htrail := exec_regexpTrail (dropWhile_hash t)
    rw [Regexp.exec, Regexp.exec, Regexp.exec_star_cls]
    · rw [htrail, Regexp.take_length_sub_dropWhile, beforeComment]
    · rw [htrail]
      rfl
  cases hs : s.dropWhile isBlank with
  | nil => simp [nameOf, hs] at h
  | cons a t =>
    have ha : isIdent a := by
      by_contra ha
      simp [nameOf, hs, ha] at h
    have hname : Regexp.exec (.seq (.group 1 (.plus (.cls isIdent)))
        (.seq (.group 2 (.star (.cls (· ≠ '#')))) regexpTrail)) (a :: t) [] Regexp.atEnd
          = some [(2, valueOf s), (1, nameOf s)] := by
      have hdrop : (a :: t).dropWhile isIdent = t.dropWhile isIdent :=
        List.dropWhile_cons_of_pos ha
      rw [Regexp.exec, Regexp.exec, Regexp.exec_plus_cls _ _ _ ha]
      · rw [hvalue, valueOf, nameOf, hs, hdrop, ← hdrop, Regexp.take_length_sub_dropWhile]
      · rw [hvalue]
        rfl
    rw [Regexp.fullMatch, rxName, Regexp.exec, regexpHeader,
      Regexp.exec_star_cls _ _ _ _ (by rw [hs, hname]; rfl), hs, hname]

lemma fullMatch_rxName_eq_none {s : Str} (h : nameOf s = []) :
    Regexp.fullMatch rxName s = none := by
  rw [Regexp.fullMatch_eq_none_iff, rxName, Regexp.mem_language_seq]
  rintro ⟨u, v, rfl, hu, hv⟩
  obtain ⟨k, w, rfl, hk, -⟩ := Regexp.mem_language_seq.mp hv
  obtain ⟨hne, hident⟩ := Regexp.mem_language_plus_cls.mp (Regexp.mem_language_group.mp hk)
  obtain ⟨a, k, rfl⟩ := List.exists_cons_of_ne_nil hne
  have ha : isIdent a := hident a List.mem_cons_self
  rw [nameOf, dropWhile_blank (Regexp.mem_language_star_cls.mp hu)] at h
  simp [not_isBlank_of_isIdent ha, ha] at h

/-- The value of an attribute, given what follows the colon: blanks before the value are not part
of it, those behind it are. If there is nothing but blanks, the last one is the value. -/
def attributeValue (t : Str) : Option Str :=
  if t.dropWhile isBlank = [] then t.getLast?.map fun c => [c] else some (t.dropWhile isBlank)

lemma attributeValue_eq_none_iff {t : Str} : attributeValue t = none ↔ t = [] := by
  rw [attributeValue]
  split_ifs with h
  · simp [List.getLast?_eq_none_iff]
  · refine iff_of_false (by simp) ?_
    rintro rfl
    exact h rfl

lemma exec_value {t : Str} (ht : '#' ∉ t) (c : Regexp.Captures Char) :
    Regexp.exec (.seq (.group 1 (.plus (.cls (· ≠ '#')))) regexpTrail) t c Regexp.atEnd
      = if t = [] then none else some ((1, t) :: c) := by
  cases t with
  | nil => rfl
  | cons a t =>
    have ha : a ≠ '#' := fun h => ht (h ▸ List.mem_cons_self)
    have hend : t.dropWhile (· ≠ '#') = [] := by
      refine List.dropWhile_eq_nil_iff.mpr fun b hb => ?_
      have hne : b ≠ '#' := fun h => ht (h ▸ List.mem_cons_of_mem _ hb)
      simpa using hne
    have htrail := exec_regexpTrail (v := []) (Or.inl rfl)
    rw [Regexp.exec, Regexp.exec, Regexp.exec_plus_cls _ _ _ (by simpa using ha)]
    · rw [hend, htrail]
      simp
    · rw [hend, htrail]
      rfl

/-- `rx_attribute` behind the colon. -/
lemma exec_attributeValue {t : Str} (ht : '#' ∉ t) :
    Regexp.exec (.seq (.star (.cls isBlank)) (.seq (.group 1 (.plus (.cls (· ≠ '#'))))
      regexpTrail)) t [] Regexp.atEnd = (attributeValue t).map fun v => [(1, v)] := by
  have hsub : '#' ∉ t.dropWhile isBlank := fun h => ht (List.dropWhile_subset _ h)
  have hvalue := exec_value hsub []
  rw [attributeValue]
  split_ifs at hvalue ⊢ with hblank
  · rcases t.eq_nil_or_concat' with rfl | ⟨t, a, rfl⟩
    · rfl
    · have hall := List.dropWhile_eq_nil_iff.mp hblank
      have hlast := exec_value (t := [a]) (fun h => ht (by
        rw [List.mem_singleton.mp h]; simp)) []
      rw [if_neg (by simp)] at hlast
      rw [hblank] at hvalue
      rw [Regexp.exec, Regexp.exec_star_cls_last _ _ _ (fun b hb => hall b (by simp [hb]))
        (hall a (by simp)) _ _ hvalue (by rw [hlast]; rfl), hlast]
      simp
  · rw [Regexp.exec, Regexp.exec_star_cls _ _ _ _ (by rw [hvalue]; rfl), hvalue]
    rfl

lemma fullMatch_rxAttribute {value t : Str} (hash : '#' ∉ value)
    (h : value.dropWhile isBlank = ':' :: t) :
    Regexp.fullMatch rxAttribute value = (attributeValue t).map fun v => [(1, v)] := by
  have ht : '#' ∉ t := by
    intro hmem
    have hcons : '#' ∈ value.dropWhile isBlank := by rw [h]; exact List.mem_cons_of_mem _ hmem
    exact hash (List.dropWhile_subset _ hcons)
  cases hv : attributeValue t with
  | none =>
    refine Regexp.fullMatch_eq_none_iff.mpr ?_
    rw [rxAttribute, mem_language_header_char (by decide)]
    rintro ⟨w, hw, hlang⟩
    obtain rfl : t = w := by simpa [h] using hw
    rw [attributeValue_eq_none_iff.mp hv] at hlang
    obtain ⟨u, v, huv, -, hv⟩ := Regexp.mem_language_seq.mp hlang
    obtain ⟨-, rfl⟩ := List.append_eq_nil_iff.mp huv.symm
    obtain ⟨u', v', huv', hu', -⟩ := Regexp.mem_language_seq.mp hv
    obtain ⟨rfl, -⟩ := List.append_eq_nil_iff.mp huv'.symm
    exact absurd rfl (Regexp.mem_language_plus_cls.mp (Regexp.mem_language_group.mp hu')).1
  | some v =>
    have hcolon : Regexp.exec (.seq (.cls (· = ':')) (.seq (.star (.cls isBlank))
        (.seq (.group 1 (.plus (.cls (· ≠ '#')))) regexpTrail))) (':' :: t) [] Regexp.atEnd
          = some [(1, v)] := by
      rw [Regexp.exec, Regexp.exec_cls_cons (by simp), exec_attributeValue ht, hv]
      rfl
    rw [Regexp.fullMatch, rxAttribute, Regexp.exec, regexpHeader,
      Regexp.exec_star_cls _ _ _ _ (by rw [h, hcolon]; rfl), h, hcolon]
    rfl

lemma fullMatch_rxAttribute_eq_none {value : Str} (h : ∀ t, value.dropWhile isBlank ≠ ':' :: t) :
    Regexp.fullMatch rxAttribute value = none := by
  rw [Regexp.fullMatch_eq_none_iff, rxAttribute, mem_language_header_char (by decide)]
  rintro ⟨t, ht, -⟩
  exact h t ht

/-! ### Kinds of lines -/

inductive Line where
  | blank
  | attr (key value : Str)
  | opening (key : Str)
  | name (key : Str)
  | openBracket
  | closeBracket
  | other
deriving DecidableEq

/-- The kind of a line that starts with a name, given what stands behind the name. -/
def classifyNamed (key value : Str) : Line :=
  if value.isEmpty then .name key
  else if rxOpenBracket.isMatch value then .opening key
  else match Regexp.fullMatch rxAttribute value with
    | some captures => .attr key (Regexp.capture captures 1)
    | none => .other

/-- The kind of a line. -/
def classify (line : Str) : Line :=
  if rxEmpty.isMatch line then .blank
  else match Regexp.fullMatch rxName line with
    | some captures => classifyNamed (Regexp.capture captures 1) (Regexp.capture captures 2)
    | none =>
      if rxCloseBracket.isMatch line then .closeBracket
      else if rxOpenBracket.isMatch line then .openBracket
      else .other

@[simp] lemma classifyNamed_nil (key : Str) : classifyNamed key [] = .name key := rfl

/-- What stands behind the name is a bracket. -/
lemma classifyNamed_bracket (key : Str) {value : Str} (h : rxOpenBracket.isMatch value) :
    classifyNamed key value = .opening key := by
  have hne : value ≠ [] := by
    rintro rfl
    obtain ⟨v, hv, -⟩ := rxOpenBracket_iff.mp h
    cases hv
  rw [classifyNamed, if_neg (by simpa using hne), if_pos h]

/-- What stands behind the name is a colon and a value. -/
lemma classifyNamed_colon (key : Str) {value t : Str} (hash : '#' ∉ value)
    (h : value.dropWhile isBlank = ':' :: t) :
    classifyNamed key value
      = match attributeValue t with
        | some v => .attr key v
        | none => .other := by
  have hne : value ≠ [] := by
    rintro rfl
    cases h
  have hopen : ¬ rxOpenBracket.isMatch value := by
    rw [rxOpenBracket_iff, h]
    rintro ⟨v, hv, -⟩
    cases hv
  rw [classifyNamed, if_neg (by simpa using hne), if_neg hopen, fullMatch_rxAttribute hash h]
  cases attributeValue t <;> rfl

/-- What stands behind the name is neither a bracket nor a colon. -/
lemma classifyNamed_eq_other (key : Str) {value : Str} (hne : value ≠ [])
    (hopen : ¬ rxOpenBracket.isMatch value) (hcolon : ∀ t, value.dropWhile isBlank ≠ ':' :: t) :
    classifyNamed key value = .other := by
  rw [classifyNamed, if_neg (by simpa using hne), if_neg hopen,
    fullMatch_rxAttribute_eq_none hcolon]

/-- The first character that is not blank decides between blank lines and all others. -/
lemma rxEmpty_eq_false {line t : Str} {a : Char} (h : line.dropWhile isBlank = a :: t)
    (ha : a ≠ '#') : rxEmpty.isMatch line = false := by
  rw [← Bool.not_eq_true, rxEmpty_iff]
  intro hall
  have hmem : a ∈ beforeComment line := by
    have hblank : ∀ c ∈ line.takeWhile isBlank, isBlank c := fun c hc => List.mem_takeWhile_imp hc
    rw [← List.takeWhile_append_dropWhile (p := isBlank) (l := line), h,
      beforeComment_append (hash_not_mem_of_blank hblank)]
    simp [beforeComment, ha]
  have hnot : isBlank a = false := not_of_dropWhile h
  rw [hall a hmem] at hnot
  cases hnot

lemma dropWhile_of_nameOf {line : Str} (h : nameOf line ≠ []) :
    ∃ a t, line.dropWhile isBlank = a :: t ∧ isIdent a := by
  cases hs : line.dropWhile isBlank with
  | nil => simp [nameOf, hs] at h
  | cons a t =>
    refine ⟨a, t, rfl, ?_⟩
    by_contra ha
    simp [nameOf, hs, ha] at h

lemma classify_of_name {line : Str} (h : nameOf line ≠ []) :
    classify line = classifyNamed (nameOf line) (valueOf line) := by
  obtain ⟨a, t, hs, ha⟩ := dropWhile_of_nameOf h
  have hempty := rxEmpty_eq_false hs (isIdent_ne ha (by decide))
  rw [classify, if_neg (by simp [hempty]), fullMatch_rxName h]
  rfl

lemma classify_of_not_ident {line t : Str} {a : Char} (h : line.dropWhile isBlank = a :: t)
    (ha : a ≠ '#') (hi : isIdent a = false) :
    classify line = if rxCloseBracket.isMatch line then .closeBracket
      else if rxOpenBracket.isMatch line then .openBracket else .other := by
  have hname : nameOf line = [] := by simp [nameOf, h, hi]
  rw [classify, if_neg (by simp [rxEmpty_eq_false h ha]), fullMatch_rxName_eq_none hname]

/-- A line that starts with a name is neither blank nor a lone bracket. -/
lemma classifyNamed_ne (key value : Str) :
    classifyNamed key value ≠ .blank ∧ classifyNamed key value ≠ .openBracket := by
  rw [classifyNamed]
  split_ifs
  · simp
  · simp
  · cases Regexp.fullMatch rxAttribute value <;> simp

lemma classify_eq_blank_iff {line : Str} :
    classify line = .blank ↔ ∀ c ∈ beforeComment line, isBlank c := by
  rw [← rxEmpty_iff]
  constructor
  · intro h
    by_contra hempty
    rw [classify, if_neg hempty] at h
    cases hname : Regexp.fullMatch rxName line with
    | none =>
      simp only [hname] at h
      split_ifs at h
    | some c =>
      simp only [hname] at h
      exact (classifyNamed_ne _ _).1 h
  · intro h
    rw [classify, if_pos h]

/-- `rx_open_bracket` matches the lines with a lone bracket and no others. -/
lemma classify_eq_openBracket_iff {line : Str} :
    classify line = .openBracket ↔ rxOpenBracket.isMatch line := by
  constructor
  · intro h
    by_cases hempty : rxEmpty.isMatch line
    · rw [classify, if_pos hempty] at h
      cases h
    · rw [classify, if_neg hempty] at h
      cases hname : Regexp.fullMatch rxName line with
      | none =>
        simp only [hname] at h
        split_ifs at h with _ hopen
        exact hopen
      | some c =>
        simp only [hname] at h
        exact absurd h (classifyNamed_ne _ _).2
  · intro h
    obtain ⟨v, hv, -⟩ := rxOpenBracket_iff.mp h
    have hclose : ¬ rxCloseBracket.isMatch line := by
      rw [rxCloseBracket_iff]
      rintro ⟨w, hw, -⟩
      simp [hv] at hw
    rw [classify_of_not_ident hv (by decide) (by decide), if_neg hclose, if_pos h]

end ConfigFile

end Utilmm
