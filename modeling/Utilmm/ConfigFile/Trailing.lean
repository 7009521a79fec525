import Utilmm.ConfigFile.Rendering

/-!
# Blanks and comments at the end of a line

Every regular expression of a line ends in a trail of blanks and a comment. The trail is skipped
when a bracket or nothing precedes it, but the greedy groups for names and values take the blanks
first: blanks behind a value become part of it, and blanks behind a lone name make it an error.
-/

namespace Utilmm

namespace ConfigFile

/-! ### The kind of a longer line -/

/-- Blanks with a comment or nothing behind them. -/
structure IsTrail (blanks comment : Str) : Prop where
  blank : AllBlank blanks
  comment : comment = [] ∨ ∃ text, '\n' ∉ text ∧ comment = '#' :: text

lemma IsTrail.beforeComment {blanks comment s : Str} (h : IsTrail blanks comment) (hs : '#' ∉ s) :
    beforeComment (s ++ (blanks ++ comment)) = s ++ blanks := by
  rw [beforeComment_append hs, beforeComment_append (hash_not_mem_of_blank h.blank)]
  rcases h.comment with rfl | ⟨text, -, rfl⟩
  · rw [show ConfigFile.beforeComment [] = [] from rfl, List.append_nil]
  · rw [beforeComment_hash, List.append_nil]

/-- The trail does not continue a name. -/
lemma IsTrail.takeWhile_isIdent {blanks comment : Str} (h : IsTrail blanks comment) :
    (blanks ++ comment).takeWhile isIdent = [] := by
  have hhead : ∀ c, isIdent c = true → isBlank c = false := fun c hc => not_isBlank_of_isIdent hc
  cases hb : blanks with
  | cons c blanks =>
    have hc : isBlank c := h.blank c (by rw [hb]; exact List.mem_cons_self)
    refine List.takeWhile_cons_of_neg fun hi => ?_
    rw [hhead c hi] at hc
    cases hc
  | nil =>
    rcases h.comment with rfl | ⟨text, -, rfl⟩
    · rfl
    · exact List.takeWhile_cons_of_neg (by decide)

/-- Neither the rest of a line nor the trail behind it continues the name before them. -/
lemma takeWhile_rest {blanks comment : Str} (rest : Str) (h : IsTrail blanks comment)
    (hrest : ∀ b r, rest = b :: r → isIdent b = false) :
    rest.takeWhile isIdent = [] ∧ (rest ++ (blanks ++ comment)).takeWhile isIdent = [] := by
  cases rest with
  | nil => exact ⟨rfl, h.takeWhile_isIdent⟩
  | cons b r =>
    have hb := hrest b r rfl
    exact ⟨List.takeWhile_cons_of_neg (by simp [hb]), List.takeWhile_cons_of_neg (by simp [hb])⟩

lemma AllBlank.append {s t : Str} (hs : AllBlank s) (ht : AllBlank t) : AllBlank (s ++ t) := by
  intro c hc
  rcases List.mem_append.mp hc with hc | hc
  · exact hs c hc
  · exact ht c hc

lemma dropWhile_append_blanks {value t : Str} {a : Char} (h : value.dropWhile isBlank = a :: t)
    (blanks : Str) : (value ++ blanks).dropWhile isBlank = a :: (t ++ blanks) := by
  rw [List.dropWhile_append, h, if_neg (by simp)]
  rfl

/-- Blanks behind a value are added to it as if nothing preceded the value. -/
lemma attributeValue_append {t v blanks : Str} (hb : AllBlank blanks)
    (h : attributeValue t = some v) :
    attributeValue (t ++ blanks) = attributeValue (v ++ blanks) := by
  cases hdrop : t.dropWhile isBlank with
  | nil =>
    rw [attributeValue, if_pos hdrop] at h
    have ht : AllBlank t := List.dropWhile_eq_nil_iff.mp hdrop
    obtain ⟨c, hc, rfl⟩ := Option.map_eq_some_iff.mp h
    have hv : AllBlank [c] := fun d hd => by
      rw [List.mem_singleton.mp hd]
      exact ht c (List.mem_of_getLast? hc)
    rw [attributeValue, attributeValue, if_pos (List.dropWhile_eq_nil_iff.mpr (ht.append hb)),
      if_pos (List.dropWhile_eq_nil_iff.mpr (hv.append hb)), List.getLast?_append,
      List.getLast?_append, hc]
    rfl
  | cons a r =>
    rw [attributeValue, if_neg (by simp [hdrop]), hdrop] at h
    cases h
    have ha : (a :: r).dropWhile isBlank = a :: r :=
      List.dropWhile_cons_of_neg (by simp [not_of_dropWhile hdrop])
    rw [attributeValue, attributeValue, dropWhile_append_blanks hdrop, dropWhile_append_blanks ha,
      if_neg (List.cons_ne_nil _ _), if_neg (List.cons_ne_nil _ _)]

/-- The kind of a line when blanks are added to it. -/
def withBlanks (blanks : Str) : Line → Line
  | .name key => if blanks = [] then .name key else .other
  | .attr key value =>
    match attributeValue (value ++ blanks) with
    | some value' => .attr key value'
    | none => .other
  | kind => kind

lemma classifyNamed_append (key : Str) {value blanks : Str} (hash : '#' ∉ value)
    (hb : AllBlank blanks) (hother : classifyNamed key value ≠ .other) :
    classifyNamed key (value ++ blanks) = withBlanks blanks (classifyNamed key value) := by
  have hash' : '#' ∉ value ++ blanks := by
    rw [List.mem_append]
    rintro (h | h)
    · exact hash h
    · exact hash_not_mem_of_blank hb h
  by_cases hne : value = []
  · -- a lone name
    subst hne
    rw [classifyNamed_nil, List.nil_append, withBlanks]
    split_ifs with hblanks
    · rw [hblanks, classifyNamed_nil]
    · have hdrop : blanks.dropWhile isBlank = [] := List.dropWhile_eq_nil_iff.mpr hb
      apply classifyNamed_eq_other key hblanks
      · rw [rxOpenBracket_iff, hdrop]
        rintro ⟨v, hv, -⟩
        cases hv
      · intro t ht
        rw [hdrop] at ht
        cases ht
  · by_cases hopen : rxOpenBracket.isMatch value
    · -- a bracket, with nothing but blanks behind it
      obtain ⟨v, hv, hblank⟩ := rxOpenBracket_iff.mp hopen
      have hv' : '#' ∉ v := by
        intro h
        have hmem : '#' ∈ value.dropWhile isBlank := by rw [hv]; exact List.mem_cons_of_mem _ h
        exact hash (List.dropWhile_subset _ hmem)
      rw [beforeComment_of_not_mem hv'] at hblank
      have hopen' : rxOpenBracket.isMatch (value ++ blanks) := by
        rw [rxOpenBracket_iff]
        refine ⟨v ++ blanks, dropWhile_append_blanks hv blanks, ?_⟩
        rw [beforeComment_append hv', beforeComment_of_not_mem (hash_not_mem_of_blank hb)]
        exact AllBlank.append hblank hb
      rw [classifyNamed_bracket key hopen, classifyNamed_bracket key hopen']
      rfl
    · by_cases hcolon : ∃ t, value.dropWhile isBlank = ':' :: t
      · obtain ⟨t, ht⟩ := hcolon
        rw [classifyNamed_colon key hash ht] at hother ⊢
        rw [classifyNamed_colon key hash' (dropWhile_append_blanks ht blanks)]
        cases hattr : attributeValue t with
        | none => simp [hattr] at hother
        | some v => rw [attributeValue_append hb hattr]; rfl
      · exact absurd (classifyNamed_eq_other key hne hopen (by simpa using hcolon)) hother

/-- A lone bracket stays one. -/
lemma rxBracket_append (bracket : Char) (hbracket : isBlank bracket = false)
    {line blanks comment : Str} (hline : '#' ∉ line) (h : IsTrail blanks comment)
    (hne : line.dropWhile isBlank ≠ []) :
    (rxBracket bracket).isMatch (line ++ (blanks ++ comment))
      = (rxBracket bracket).isMatch line := by
  obtain ⟨a, t, hs⟩ := List.exists_cons_of_ne_nil hne
  have ht : '#' ∉ t := by
    intro hmem
    have hcons : '#' ∈ line.dropWhile isBlank := by rw [hs]; exact List.mem_cons_of_mem _ hmem
    exact hline (List.dropWhile_subset _ hcons)
  rw [Bool.eq_iff_iff, rxBracket_iff hbracket, rxBracket_iff hbracket, hs,
    dropWhile_append_blanks hs]
  constructor
  · rintro ⟨v, hv, hall⟩
    obtain ⟨rfl, rfl⟩ := List.cons_eq_cons.mp hv
    rw [h.beforeComment ht] at hall
    refine ⟨t, rfl, ?_⟩
    rw [beforeComment_of_not_mem ht]
    exact fun c hc => hall c (List.mem_append_left _ hc)
  · rintro ⟨v, hv, hall⟩
    obtain ⟨rfl, rfl⟩ := List.cons_eq_cons.mp hv
    rw [beforeComment_of_not_mem ht] at hall
    refine ⟨t ++ (blanks ++ comment), rfl, ?_⟩
    rw [h.beforeComment ht]
    exact AllBlank.append hall h.blank

/-- Blanks and a comment behind a line change its kind like blanks alone. -/
lemma classify_append {line blanks comment : Str} (hline : '#' ∉ line)
    (h : IsTrail blanks comment) (hother : classify line ≠ .other) :
    classify (line ++ (blanks ++ comment)) = withBlanks blanks (classify line) := by
  cases hs : line.dropWhile isBlank with
  | nil =>
    have hall : AllBlank line := List.dropWhile_eq_nil_iff.mp hs
    have hkind : classify line = .blank := by
      rw [classify_eq_blank_iff, beforeComment_of_not_mem hline]
      exact hall
    rw [hkind]
    refine classify_eq_blank_iff.mpr ?_
    rw [h.beforeComment hline]
    exact hall.append h.blank
  | cons a t =>
    have hash : '#' ∉ a :: t := fun hmem => hline (List.dropWhile_subset _ (by rw [hs]; exact hmem))
    by_cases ha : isIdent a
    · -- a name: the trail is added to what stands behind it
      have hlead : AllBlank (line.takeWhile isBlank) := fun c hc => List.mem_takeWhile_imp hc
      have hkey : ValidKey ((a :: t).takeWhile isIdent) := by
        rw [List.takeWhile_cons_of_pos ha]
        exact ⟨List.cons_ne_nil _ _, fun c hc => by
          rcases List.mem_cons.mp hc with rfl | hc
          · exact ha
          · exact List.mem_takeWhile_imp hc⟩
      have hsplit : line.takeWhile isBlank ++ (a :: t).takeWhile isIdent
          ++ (a :: t).dropWhile isIdent = line := by
        rw [List.append_assoc, List.takeWhile_append_dropWhile, ← hs,
          List.takeWhile_append_dropWhile]
      have hrest : '#' ∉ (a :: t).dropWhile isIdent := fun hmem =>
        hash (List.dropWhile_subset _ hmem)
      obtain ⟨hend, hend'⟩ := takeWhile_rest ((a :: t).dropWhile isIdent) h
        fun b r hb => not_of_dropWhile hb
      have hkind := classify_key hlead hkey hend
      have hkind' := classify_key hlead hkey hend'
      rw [← List.append_assoc, hsplit, h.beforeComment hrest] at hkind'
      rw [hsplit, beforeComment_of_not_mem hrest] at hkind
      rw [hkind] at hother ⊢
      rw [hkind']
      exact classifyNamed_append _ hrest h.blank hother
    · have hhash : a ≠ '#' := fun h => hash (h ▸ List.mem_cons_self)
      have hopen := rxBracket_append '{' (by decide) hline h (by simp [hs])
      have hclose := rxBracket_append '}' (by decide) hline h (by simp [hs])
      rw [classify_of_not_ident hs hhash (by simpa using ha),
        classify_of_not_ident (dropWhile_append_blanks hs _) hhash (by simpa using ha),
        rxCloseBracket, rxOpenBracket, hopen, hclose]
      split_ifs
      · rfl
      · rfl
      · rfl

/-! ### When the kind stays -/

/-- Blanks added to a line of this kind do not matter: the line is neither an attribute nor a lone
name, or it is an attribute whose value is a single blank, and the last of the blanks is that. -/
def TrailIgnored (blanks : Str) : Line → Prop
  | .name _ => blanks = []
  | .attr _ value => blanks = [] ∨ ∃ c, value = [c] ∧ isBlank c ∧ blanks.getLast? = some c
  | _ => True

lemma attributeValue_append_eq_iff {t v blanks : Str} (h : attributeValue t = some v)
    (hb : AllBlank blanks) :
    attributeValue (v ++ blanks) = some v ↔
      blanks = [] ∨ ∃ c, v = [c] ∧ isBlank c ∧ blanks.getLast? = some c := by
  cases hdrop : t.dropWhile isBlank with
  | nil =>
    rw [attributeValue, if_pos hdrop] at h
    obtain ⟨c, hc, rfl⟩ := Option.map_eq_some_iff.mp h
    have hcblank : isBlank c := List.dropWhile_eq_nil_iff.mp hdrop c (List.mem_of_getLast? hc)
    have hv : AllBlank [c] := fun d hd => by rwa [List.mem_singleton.mp hd]
    rw [attributeValue, if_pos (List.dropWhile_eq_nil_iff.mpr (hv.append hb)),
      List.getLast?_append]
    cases hlast : blanks.getLast? with
    | none => simp [List.getLast?_eq_none_iff.mp hlast]
    | some d =>
      have hne : blanks ≠ [] := by
        rintro rfl
        cases hlast
      simp [hne, hcblank]
  | cons a r =>
    rw [attributeValue, if_neg (by simp [hdrop]), hdrop] at h
    cases h
    have ha : isBlank a = false := not_of_dropWhile hdrop
    have hdrop' : (a :: r).dropWhile isBlank = a :: r := List.dropWhile_cons_of_neg (by simp [ha])
    rw [attributeValue, dropWhile_append_blanks hdrop', if_neg (List.cons_ne_nil _ _)]
    constructor
    · intro heq
      left
      simpa using heq
    · rintro (rfl | ⟨c, hc, hcblank, -⟩)
      · simp
      · obtain ⟨rfl, -⟩ := List.cons_eq_cons.mp hc
        rw [ha] at hcblank
        cases hcblank

/-- The value of an attribute line is one that `rx_attribute` captured. -/
lemma attributeValue_of_classify {line key v : Str} (h : classify line = .attr key v) :
    ∃ t, attributeValue t = some v := by
  have hname : nameOf line ≠ [] := by
    intro hname
    rw [classify, fullMatch_rxName_eq_none hname] at h
    split_ifs at h
  rw [classify_of_name hname] at h
  have hash : '#' ∉ valueOf line := not_mem_beforeComment _
  by_cases hcolon : ∃ t, (valueOf line).dropWhile isBlank = ':' :: t
  · obtain ⟨t, ht⟩ := hcolon
    rw [classifyNamed_colon _ hash ht] at h
    cases hattr : attributeValue t with
    | none => simp [hattr] at h
    | some w =>
      simp only [hattr, Line.attr.injEq] at h
      exact ⟨t, by rw [hattr, h.2]⟩
  · have hnone := fullMatch_rxAttribute_eq_none (by simpa using hcolon)
    rw [classifyNamed, hnone] at h
    split_ifs at h

lemma withBlanks_eq_iff {line blanks : Str} (hb : AllBlank blanks) :
    withBlanks blanks (classify line) = classify line ↔ TrailIgnored blanks (classify line) := by
  cases hkind : classify line with
  | name key => simp [withBlanks, TrailIgnored]
  | attr key v =>
    obtain ⟨t, ht⟩ := attributeValue_of_classify hkind
    rw [TrailIgnored, ← attributeValue_append_eq_iff ht hb, withBlanks]
    cases attributeValue (v ++ blanks) <;> simp
  | blank => exact iff_of_true rfl trivial
  | opening key => exact iff_of_true rfl trivial
  | openBracket => exact iff_of_true rfl trivial
  | closeBracket => exact iff_of_true rfl trivial
  | other => exact iff_of_true rfl trivial

/-! ### When the tree stays -/

lemma newline_not_mem_line {text line : Str} (h : line ∈ lines text) : '\n' ∉ line := by
  induction text generalizing line with
  | nil =>
    rw [lines_nil, List.mem_singleton] at h
    simp [h]
  | cons c text ih =>
    by_cases hc : c = '\n'
    · subst hc
      rw [lines_newline] at h
      rcases List.mem_cons.mp h with rfl | h
      · simp
      · exact ih h
    · obtain ⟨l, ls, hls⟩ := List.exists_cons_of_ne_nil (lines_ne_nil text)
      have hcons : lines (c :: text) = (c :: l) :: ls := by
        rw [lines, List.splitOn_cons_eq_if_modifyHead, if_neg (by simpa using hc), ← lines, hls]
        rfl
      rw [hls] at ih
      rw [hcons] at h
      rcases List.mem_cons.mp h with rfl | h
      · have hl := ih List.mem_cons_self
        simp [hl, Ne.symm hc]
      · exact ih (List.mem_cons_of_mem _ h)

/-- The new text differs in one line. -/
lemma lines_joinLines_append {text line blanks comment : Str} {pre post : List Str}
    (hlines : lines text = pre ++ line :: post) (h : IsTrail blanks comment) :
    lines (joinLines (pre ++ (line ++ (blanks ++ comment)) :: post))
      = pre ++ (line ++ (blanks ++ comment)) :: post := by
  have hold : ∀ l ∈ pre ++ line :: post, '\n' ∉ l := by
    intro l hl
    rw [← hlines] at hl
    exact newline_not_mem_line hl
  have htrail : '\n' ∉ blanks ++ comment := by
    rcases h.comment with rfl | ⟨text, htext, rfl⟩
    · simpa using newline_not_mem_blank h.blank
    · simp [newline_not_mem_blank h.blank, htext]
  refine lines_joinLines (fun l hl => ?_) (by simp)
  simp only [List.mem_append, List.mem_cons] at hl hold
  rcases hl with hl | rfl | hl
  · exact hold l (Or.inl hl)
  · rw [List.mem_append]
    rintro (hmem | hmem)
    · exact hold line (Or.inr (Or.inl rfl)) hmem
    · exact htrail hmem
  · exact hold l (Or.inr (Or.inr hl))

/-- An accepted text is derived, as the tree that is stored. -/
lemma derives_of_readText {text : Str} {sets : List ConfigSet} (h : readText text = .ok sets) :
    ∃ t, Derives (significant (lines text)) t ∧
      IsTree sets 0 none t (List.range sets.length) := by
  obtain ⟨t, ht⟩ : ∃ t, Derives (significant (lines text)) t := by
    by_contra hnot
    obtain ⟨n, message, herror, -⟩ := readText_of_not_derives hnot
    rw [h] at herror
    cases herror
  obtain ⟨sets', hread, htree⟩ := readText_of_derives ht
  rw [h] at hread
  cases hread
  exact ⟨t, ht, htree⟩

/-- Texts with the same kinds of lines give the same objects. -/
lemma readText_congr {text text' : Str} {sets : List ConfigSet}
    (h : significant (lines text') = significant (lines text)) (hread : readText text = .ok sets) :
    readText text' = .ok sets := by
  obtain ⟨t, ht, htree⟩ := derives_of_readText hread
  rw [← h] at ht
  obtain ⟨sets', hread', htree'⟩ := readText_of_derives ht
  rw [hread', htree.unique htree']

/-- A line whose kind changes to an attribute with another value, or to no kind at all, changes
the outcome. -/
lemma readText_ne {text text' : Str} {pre post : List Str} {line line' : Str}
    {sets : List ConfigSet} (hlines : lines text = pre ++ line :: post)
    (hlines' : lines text' = pre ++ line' :: post)
    (hkind : classify line' = .other ∨ ∃ key v v', classify line = .attr key v ∧
      classify line' = .attr key v' ∧ v' ≠ v)
    (hread : readText text = .ok sets) : readText text' ≠ .ok sets := by
  intro hread'
  obtain ⟨t, ht, htree⟩ := derives_of_readText hread
  obtain ⟨t', ht', htree'⟩ := derives_of_readText hread'
  rw [hlines, significant_append] at ht
  rw [hlines', significant_append] at ht'
  rcases hkind with hother | ⟨key, v, v', hv, hv', hne⟩
  · rw [significant_cons (by rw [hother]; simp), hother] at ht'
    exact ht'.other_not_mem (by simp)
  · rw [significant_cons (by rw [hv]; simp), hv] at ht
    rw [significant_cons (by rw [hv']; simp), hv'] at ht'
    have hperm : t'.allAttributes.Perm t.allAttributes := htree'.perm.symm.trans htree.perm
    rw [ht.allAttributes, ht'.allAttributes, List.filterMap_append, List.filterMap_append,
      List.perm_append_left_iff] at hperm
    simp only [List.filterMap_cons, Line.attribute?] at hperm
    have hcount := List.perm_iff_count.mp hperm (key, v')
    rw [List.count_cons_self, List.count_cons_of_ne (by simpa using hne.symm)] at hcount
    omega

/-- A trail added to a line of an accepted text leaves the tree as it is exactly when the kind of
the line allows it. -/
theorem readText_trail_iff (text : Str) (sets : List ConfigSet) (hread : readText text = .ok sets)
    (pre post : List Str) (line : Str) (hlines : lines text = pre ++ line :: post)
    (hash : '#' ∉ line) (blanks comment : Str) (htrail : IsTrail blanks comment) :
    readText (joinLines (pre ++ (line ++ (blanks ++ comment)) :: post)) = .ok sets ↔
      TrailIgnored blanks (classify line) := by
  have hother : classify line ≠ .other := by
    intro hother
    obtain ⟨t, ht, -⟩ := derives_of_readText hread
    rw [hlines, significant_append, significant_cons (by rw [hother]; simp), hother] at ht
    exact ht.other_not_mem (by simp)
  have hkind := classify_append hash htrail hother
  have hlines' := lines_joinLines_append hlines htrail
  rw [← withBlanks_eq_iff htrail.blank]
  constructor
  · intro hnew
    by_contra hne
    refine readText_ne hlines hlines' ?_ hread hnew
    rw [hkind]
    cases hline : classify line with
    | name key =>
      rw [hline, withBlanks] at hne
      split_ifs at hne with hblanks
      · exact absurd rfl hne
      · exact Or.inl (by rw [withBlanks, if_neg hblanks])
    | attr key v =>
      rw [hline, withBlanks] at hne
      rw [withBlanks]
      cases hattr : attributeValue (v ++ blanks) with
      | none => exact Or.inl rfl
      | some v' =>
        simp only [hattr, Line.attr.injEq, true_and] at hne
        exact Or.inr ⟨key, v, v', rfl, rfl, hne⟩
    | blank => exact absurd (by rw [hline]; rfl) hne
    | opening key => exact absurd (by rw [hline]; rfl) hne
    | openBracket => exact absurd (by rw [hline]; rfl) hne
    | closeBracket => exact absurd (by rw [hline]; rfl) hne
    | other => exact absurd hline hother
  · intro h
    apply readText_congr _ hread
    rw [h] at hkind
    rw [hlines, hlines', significant_append, significant_append]
    congr 1
    simp only [significant, List.map_cons, hkind]

/-- A comment behind a bracket. -/
theorem readText_trail_bracket :
    ∃ sets, readText "child \x7b\n\x7d".toList = .ok sets ∧
      (readText (joinLines ([] ++ ("child \x7b".toList ++ (" ".toList ++ "# open".toList))
        :: ["\x7d".toList])) = .ok sets ↔
          TrailIgnored " ".toList (classify "child \x7b".toList)) := by
  have hblank : AllBlank " ".toList := by
    intro c hc
    rw [List.mem_singleton.mp hc]
    rfl
  exact ⟨_, rfl, readText_trail_iff "child \x7b\n\x7d".toList _ rfl [] ["\x7d".toList] _ rfl
    (by decide) " ".toList "# open".toList ⟨hblank, Or.inr ⟨" open".toList, by decide, rfl⟩⟩⟩

/-- A blank behind a value becomes part of it. -/
theorem readText_trail_value :
    ((readText "a: b".toList).toOption.map fun sets => sets.map (·.getStringlist "a".toList []))
      = some [["b".toList]] ∧
    ((readText "a: b ".toList).toOption.map fun sets => sets.map (·.getStringlist "a".toList []))
      = some [["b ".toList]] := by
  decide

end ConfigFile

end Utilmm
