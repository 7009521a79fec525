import Utilmm.ConfigFile.Correctness
import Utilmm.ConfigFile.Get

/-!
# Reading undoes writing

A tree can be written down in many ways: the layout is free in its blanks, empty lines, comments
and places of brackets. Whatever the layout, the kinds of the lines are those that the grammar
derives the tree from, so that `read` gives the tree back.
-/

namespace Utilmm

namespace ConfigFile

/-! ### The values and children of a section -/

namespace Tree

/-- The values of a key, in order. -/
def valuesOf : Tree → Str → List Str
  | empty, _ => []
  | attr key' value rest, key =>
    if key' = key then value :: rest.valuesOf key else rest.valuesOf key
  | child _ _ rest, key => rest.valuesOf key

/-- The children of a key, in order. -/
def childrenNamed : Tree → Str → List Tree
  | empty, _ => []
  | attr _ _ rest, key => rest.childrenNamed key
  | child key' body rest, key =>
    if key' = key then body :: rest.childrenNamed key else rest.childrenNamed key

end Tree

/-- The object `id` has the values and the children of `t` under every key, in order. -/
inductive Stores (sets : List ConfigSet) : SetId → Tree → Prop where
  | intro {id : SetId} {t : Tree} {s : ConfigSet} (hset : sets[id]? = some s)
      (values : ∀ key, s.getStringlist key [] = t.valuesOf key)
      (children : ∀ key, List.Forall₂ (Stores sets) (s.childrenNamed key) (t.childrenNamed key)) :
      Stores sets id t

/-- What an insertion of a whole sequence leaves under a key. -/
lemma equalRange_insertAll_cons {V : Type} (key' : Str) (v : V) (es : List (Str × V)) (key : Str) :
    (Multimap.insertAll ∅ ((key', v) :: es)).equalRange key
      = if key' = key then v :: (Multimap.insertAll ∅ es).equalRange key
        else (Multimap.insertAll ∅ es).equalRange key := by
  simp only [Multimap.equalRange_insertAll, Multimap.equalRange_empty, List.nil_append]
  split_ifs with hkey
  · rw [List.filter_cons_of_pos (by simpa using hkey), List.map_cons]
  · rw [List.filter_cons_of_neg (by simpa using hkey)]

lemma equalRange_attributes (t : Tree) (key : Str) :
    (Multimap.insertAll ∅ t.attributes).equalRange key = t.valuesOf key := by
  induction t with
  | empty => rfl
  | attr key' value rest ih =>
    rw [Tree.attributes, equalRange_insertAll_cons, ih, Tree.valuesOf]
  | child key' body rest _ ih => exact ih

lemma getStringlist_attributes (parent : Option SetId) (t : Tree) (children : Multimap Str SetId)
    (key : Str) :
    (ConfigSet.mk parent (Multimap.insertAll ∅ t.attributes) children).getStringlist key []
      = t.valuesOf key := by
  rw [ConfigSet.getStringlist, ConfigSet.stringlist_eq, ConfigSet.valuesOf, equalRange_attributes]
  cases t.valuesOf key <;> rfl

/-- The children of every key. -/
lemma Children.stores {sets : List ConfigSet} {id : SetId} {t : Tree} {cs : List (Str × SetId)}
    {ids : List SetId} (h : Children sets id t cs ids) (key : Str) :
    List.Forall₂ (Stores sets) ((Multimap.insertAll ∅ cs).equalRange key)
      (t.childrenNamed key) := by
  induction h generalizing key with
  | empty id => exact .nil
  | attr _ ih => exact ih key
  | child hset _ _ ihbody ih =>
    rw [equalRange_insertAll_cons, Tree.childrenNamed]
    split_ifs
    · exact .cons (.intro hset (getStringlist_attributes _ _ _) ihbody) (ih key)
    · exact ih key

lemma IsTree.stores {sets : List ConfigSet} {id : SetId} {parent : Option SetId} {t : Tree}
    {ids : List SetId} (h : IsTree sets id parent t ids) : Stores sets id t := by
  obtain ⟨cs, below, -, hchildren, hset⟩ := h
  exact .intro hset (getStringlist_attributes parent t _) hchildren.stores

/-! ### What can be written -/

def ValidKey (key : Str) : Prop := key ≠ [] ∧ ∀ c ∈ key, isIdent c

/-- A text of one line without `#`, with no blank at either end. -/
structure ValidValue (value : Str) : Prop where
  ne_nil : value ≠ []
  no_newline : '\n' ∉ value
  no_hash : '#' ∉ value
  head : ∀ c, value.head? = some c → isBlank c = false
  last : ∀ c, value.getLast? = some c → isBlank c = false

/-- All keys and values of the tree can be written. -/
def Tree.Valid : Tree → Prop
  | .empty => True
  | .attr key value rest => ValidKey key ∧ ValidValue value ∧ rest.Valid
  | .child key body rest => ValidKey key ∧ body.Valid ∧ rest.Valid

def AllBlank (s : Str) : Prop := ∀ c ∈ s, isBlank c

/-- An empty line or a line with nothing but a comment. -/
def IsNoise (line : Str) : Prop :=
  ∃ lead, AllBlank lead ∧
    (line = lead ∨ ∃ comment, '\n' ∉ comment ∧ line = lead ++ '#' :: comment)

/-- The lines that open a section: the bracket is on the line of the key, or on a line of its own
further down. -/
inductive RendersOpening (key : Str) : List Str → Prop where
  | sameLine {lead gap : Str} (hlead : AllBlank lead) (hgap : gap = [] ∨ gap = [' ']) :
      RendersOpening key [lead ++ key ++ (gap ++ ['{'])]
  | ownLine {lead lead' : Str} {noise : List Str} (hlead : AllBlank lead)
      (hnoise : ∀ line ∈ noise, IsNoise line) (hlead' : AllBlank lead') :
      RendersOpening key ((lead ++ key) :: (noise ++ [lead' ++ ['{']]))

/-- `Renders t ls`: the lines `ls` are a way of writing `t`. -/
inductive Renders : Tree → List Str → Prop where
  | empty : Renders .empty []
  | noise {t : Tree} {line : Str} {ls : List Str} (hline : IsNoise line) (h : Renders t ls) :
      Renders t (line :: ls)
  | attr {t : Tree} {ls : List Str} {lead key gap value : Str} (hlead : AllBlank lead)
      (hgap : gap = [] ∨ gap = [' ']) (h : Renders t ls) :
      Renders (.attr key value t) ((lead ++ key ++ ':' :: (gap ++ value)) :: ls)
  | child {body t : Tree} {os ls ls' : List Str} {lead key : Str} (ho : RendersOpening key os)
      (hbody : Renders body ls) (hlead : AllBlank lead) (h : Renders t ls') :
      Renders (.child key body t) (os ++ ls ++ (lead ++ ['}']) :: ls')

/-! ### Kinds of written lines -/

lemma gap_blank {gap : Str} (h : gap = [] ∨ gap = [' ']) : AllBlank gap := by
  rcases h with rfl | rfl
  · exact fun c hc => absurd hc List.not_mem_nil
  · intro c hc
    rw [List.mem_singleton.mp hc]
    decide

lemma IsNoise.classify {line : Str} (h : IsNoise line) : classify line = .blank := by
  obtain ⟨lead, hlead, hline⟩ := h
  rw [classify_eq_blank_iff]
  rcases hline with rfl | ⟨comment, -, rfl⟩
  · rw [beforeComment_of_not_mem (hash_not_mem_of_blank hlead)]
    exact hlead
  · rw [beforeComment_append (hash_not_mem_of_blank hlead), beforeComment_hash, List.append_nil]
    exact hlead

/-- The name and the value of a line that starts with a key. -/
lemma nameOf_valueOf {lead key rest : Str} (hlead : AllBlank lead) (hkey : ValidKey key)
    (hrest : rest.takeWhile isIdent = []) :
    nameOf (lead ++ key ++ rest) = key ∧ valueOf (lead ++ key ++ rest) = beforeComment rest := by
  obtain ⟨hne, hident⟩ := hkey
  obtain ⟨a, key, rfl⟩ := List.exists_cons_of_ne_nil hne
  have ha : isBlank a = false := not_isBlank_of_isIdent (hident a List.mem_cons_self)
  have hdrop : (lead ++ a :: key ++ rest).dropWhile isBlank = a :: key ++ rest := by
    rw [List.append_assoc, dropWhile_blank hlead, List.cons_append]
    exact List.dropWhile_cons_of_neg (by simp [ha])
  have hrest' : rest.dropWhile isIdent = rest := by
    conv_rhs => rw [← List.takeWhile_append_dropWhile (p := isIdent) (l := rest), hrest]
    rfl
  constructor
  · rw [nameOf, hdrop, List.takeWhile_append_of_pos hident, hrest, List.append_nil]
  · rw [valueOf, hdrop, List.dropWhile_append_of_pos hident, hrest']

lemma classify_key {lead key rest : Str} (hlead : AllBlank lead) (hkey : ValidKey key)
    (hrest : rest.takeWhile isIdent = []) :
    classify (lead ++ key ++ rest) = classifyNamed key (beforeComment rest) := by
  obtain ⟨hname, hvalue⟩ := nameOf_valueOf hlead hkey hrest
  rw [classify_of_name (by rw [hname]; exact hkey.1), hname, hvalue]

lemma classify_attr {lead key gap value : Str} (hlead : AllBlank lead) (hkey : ValidKey key)
    (hgap : gap = [] ∨ gap = [' ']) (hvalue : ValidValue value) :
    classify (lead ++ key ++ ':' :: (gap ++ value)) = .attr key value := by
  have hash : '#' ∉ gap ++ value := by
    rw [List.mem_append]
    rintro (h | h)
    · exact hash_not_mem_of_blank (gap_blank hgap) h
    · exact hvalue.no_hash h
  have hdrop : (gap ++ value).dropWhile isBlank = value := by
    rw [dropWhile_blank (gap_blank hgap)]
    cases hv : value with
    | nil => exact absurd hv hvalue.ne_nil
    | cons a v =>
      have ha := hvalue.head a (by rw [hv]; rfl)
      exact List.dropWhile_cons_of_neg (by simp [ha])
  have hattr : attributeValue (gap ++ value) = some value := by
    rw [attributeValue, hdrop, if_neg hvalue.ne_nil]
  have hbefore : beforeComment (':' :: (gap ++ value)) = ':' :: (gap ++ value) :=
    beforeComment_of_not_mem (by simpa using hash)
  rw [classify_key hlead hkey (List.takeWhile_cons_of_neg (by decide)), hbefore,
    classifyNamed_colon key (by simpa using hash) (List.dropWhile_cons_of_neg (by decide)), hattr]

lemma classify_opening {lead key gap : Str} (hlead : AllBlank lead) (hkey : ValidKey key)
    (hgap : gap = [] ∨ gap = [' ']) :
    classify (lead ++ key ++ (gap ++ ['{'])) = .opening key := by
  have hopen : rxOpenBracket.isMatch (gap ++ ['{']) := by
    rw [rxOpenBracket_iff, dropWhile_blank (gap_blank hgap)]
    exact ⟨[], rfl, by simp [beforeComment]⟩
  have hrest : (gap ++ ['{']).takeWhile isIdent = [] := by rcases hgap with rfl | rfl <;> rfl
  have hbefore : beforeComment (gap ++ ['{']) = gap ++ ['{'] := by
    rcases hgap with rfl | rfl <;> rfl
  rw [classify_key hlead hkey hrest, hbefore, classifyNamed_bracket key hopen]

lemma classify_name {lead key : Str} (hlead : AllBlank lead) (hkey : ValidKey key) :
    classify (lead ++ key) = .name key := by
  have h := classify_key hlead hkey (show ([] : Str).takeWhile isIdent = [] from rfl)
  rwa [List.append_nil] at h

lemma classify_openBracket {lead : Str} (hlead : AllBlank lead) :
    classify (lead ++ ['{']) = .openBracket := by
  rw [classify_eq_openBracket_iff, rxOpenBracket_iff, dropWhile_blank hlead]
  exact ⟨[], rfl, by simp [beforeComment]⟩

lemma classify_closeBracket {lead : Str} (hlead : AllBlank lead) :
    classify (lead ++ ['}']) = .closeBracket := by
  have hdrop : (lead ++ ['}']).dropWhile isBlank = ['}'] := by
    rw [dropWhile_blank hlead]
    rfl
  have hclose : rxCloseBracket.isMatch (lead ++ ['}']) := by
    rw [rxCloseBracket_iff, hdrop]
    exact ⟨[], rfl, by simp [beforeComment]⟩
  rw [classify_of_not_ident hdrop (by decide) (by decide), if_pos hclose]

/-! ### Written lines are derived -/

@[simp] lemma significant_nil : significant [] = [] := rfl

@[simp] lemma significant_append (ls ls' : List Str) :
    significant (ls ++ ls') = significant ls ++ significant ls' := by
  simp [significant]

lemma significant_cons_blank {line : Str} (h : classify line = .blank) (ls : List Str) :
    significant (line :: ls) = significant ls := by
  simp [significant, h]

lemma significant_cons {line : Str} (h : classify line ≠ .blank) (ls : List Str) :
    significant (line :: ls) = classify line :: significant ls := by
  simp [significant, h]

lemma significant_noise {noise : List Str} (h : ∀ line ∈ noise, IsNoise line) :
    significant noise = [] := by
  rw [significant, List.filter_eq_nil_iff]
  intro l hl
  obtain ⟨line, hline, rfl⟩ := List.mem_map.mp hl
  simpa using (h line hline).classify

lemma RendersOpening.opening {key : Str} {os : List Str} (hkey : ValidKey key)
    (h : RendersOpening key os) : Opening key (significant os) := by
  cases h with
  | sameLine hlead hgap =>
    have hkind := classify_opening hlead hkey hgap
    rw [significant_cons (by rw [hkind]; simp), hkind]
    exact .oneLine key
  | ownLine hlead hnoise hlead' =>
    have hkind := classify_name hlead hkey
    have hkind' := classify_openBracket hlead'
    rw [significant_cons (by rw [hkind]; simp), hkind, significant_append,
      significant_noise hnoise, significant_cons (by rw [hkind']; simp), hkind']
    exact .twoLines key

/-- Every way of writing a tree is derived as that tree. -/
lemma Renders.derives {t : Tree} {ls : List Str} (h : Renders t ls) (hvalid : t.Valid) :
    Derives (significant ls) t := by
  induction h with
  | empty => exact .empty
  | noise hline _ ih =>
    rw [significant_cons_blank hline.classify]
    exact ih hvalid
  | attr hlead hgap _ ih =>
    obtain ⟨hkey, hvalue, hrest⟩ := hvalid
    have hkind := classify_attr hlead hkey hgap hvalue
    rw [significant_cons (by rw [hkind]; simp), hkind]
    exact .attr _ _ (ih hrest)
  | child ho _ hlead _ ihbody ih =>
    obtain ⟨hkey, hbody, hrest⟩ := hvalid
    have hkind := classify_closeBracket hlead
    rw [significant_append, significant_append, significant_cons (by rw [hkind]; simp), hkind]
    exact .child (ho.opening hkey) (ihbody hbody) (ih hrest)

/-! ### Written lines are lines -/

lemma newline_not_mem_blank {s : Str} (h : AllBlank s) : '\n' ∉ s := by
  intro hmem
  exact absurd (h '\n' hmem) (by decide)

lemma ValidKey.no_newline {key : Str} (h : ValidKey key) : '\n' ∉ key := by
  intro hmem
  exact absurd (h.2 '\n' hmem) (by decide)

lemma IsNoise.no_newline {line : Str} (h : IsNoise line) : '\n' ∉ line := by
  obtain ⟨lead, hlead, rfl | ⟨comment, hcomment, rfl⟩⟩ := h
  · exact newline_not_mem_blank hlead
  · simp [newline_not_mem_blank hlead, hcomment]

lemma RendersOpening.no_newline {key : Str} {os : List Str} (hkey : ValidKey key)
    (h : RendersOpening key os) : ∀ line ∈ os, '\n' ∉ line := by
  intro line hline
  cases h with
  | sameLine hlead hgap =>
    rw [List.mem_singleton.mp hline]
    simp [newline_not_mem_blank hlead, hkey.no_newline, newline_not_mem_blank (gap_blank hgap)]
  | ownLine hlead hnoise hlead' =>
    simp only [List.mem_cons, List.mem_append, List.not_mem_nil, or_false] at hline
    rcases hline with rfl | hline | rfl
    · simp [newline_not_mem_blank hlead, hkey.no_newline]
    · exact (hnoise line hline).no_newline
    · simp [newline_not_mem_blank hlead']

lemma Renders.no_newline {t : Tree} {ls : List Str} (h : Renders t ls) (hvalid : t.Valid) :
    ∀ line ∈ ls, '\n' ∉ line := by
  induction h with
  | empty => simp
  | noise hline _ ih => exact List.forall_mem_cons.mpr ⟨hline.no_newline, ih hvalid⟩
  | attr hlead hgap _ ih =>
    obtain ⟨hkey, hvalue, hrest⟩ := hvalid
    refine List.forall_mem_cons.mpr ⟨?_, ih hrest⟩
    simp [newline_not_mem_blank hlead, hkey.no_newline, newline_not_mem_blank (gap_blank hgap),
      hvalue.no_newline]
  | child ho _ hlead _ ihbody ih =>
    obtain ⟨hkey, hbody, hrest⟩ := hvalid
    intro line hline
    simp only [List.mem_cons, List.mem_append] at hline
    rcases hline with (hline | hline) | rfl | hline
    · exact ho.no_newline hkey line hline
    · exact ihbody hbody line hline
    · simp [newline_not_mem_blank hlead]
    · exact ih hrest line hline

/-! ### Texts -/

/-- Lines with newlines between them. -/
def joinLines (ls : List Str) : Str := ['\n'].intercalate ls

lemma lines_joinLines {ls : List Str} (h : ∀ line ∈ ls, '\n' ∉ line) (hne : ls ≠ []) :
    lines (joinLines ls) = ls := List.splitOn_intercalate '\n' h hne

/-- No lines and one empty line give the same text. -/
lemma significant_lines_joinLines {ls : List Str} (h : ∀ line ∈ ls, '\n' ∉ line) :
    significant (lines (joinLines ls)) = significant ls := by
  cases ls with
  | nil => rfl
  | cons line ls => rw [lines_joinLines h (List.cons_ne_nil _ _)]

/-- A final newline adds an empty line. -/
lemma significant_lines_newline (text : Str) :
    significant (lines (text ++ ['\n'])) = significant (lines text) := by
  rw [lines, List.splitOn_append_cons_self, significant_append]
  exact List.append_nil _

/-- `read` gives back the tree that a text was written from. -/
theorem readText_of_renders (t : Tree) (hvalid : t.Valid) (ls : List Str) (h : Renders t ls)
    (text : Str) (htext : text = joinLines ls ∨ text = joinLines ls ++ ['\n']) :
    ∃ sets, readText text = .ok sets ∧ Stores sets 0 t ∧
      IsTree sets 0 none t (List.range sets.length) := by
  have hlines : significant (lines text) = significant ls := by
    rcases htext with rfl | rfl
    · exact significant_lines_joinLines (h.no_newline hvalid)
    · rw [significant_lines_newline]
      exact significant_lines_joinLines (h.no_newline hvalid)
  have hderives := h.derives hvalid
  rw [← hlines] at hderives
  obtain ⟨sets, hread, htree⟩ := readText_of_derives hderives
  exact ⟨sets, hread, htree.stores, htree⟩

/-- A section with an attribute, written with a comment and with its bracket on its own line. -/
theorem readText_of_renders_child :
    ∃ sets, readText "# file\nchild\n\x7b\n  a: x:y\n\x7d\n".toList = .ok sets ∧
      Stores sets 0 (.child "child".toList (.attr "a".toList "x:y".toList .empty) .empty) ∧
      IsTree sets 0 none (.child "child".toList (.attr "a".toList "x:y".toList .empty) .empty)
        (List.range sets.length) := by
  have hblank : ∀ {s : Str}, s.all isBlank = true → AllBlank s := by
    intro s hs
    simpa [AllBlank] using hs
  have hkey : ∀ {s : Str}, s ≠ [] → s.all isIdent = true → ValidKey s :=
    fun hs hident => ⟨hs, List.all_eq_true.mp hident⟩
  have hchild : ValidKey "child".toList := hkey (by decide) rfl
  have ha : ValidKey "a".toList := hkey (by decide) rfl
  have hvalue : ValidValue "x:y".toList :=
    ⟨by decide, by decide, by decide, by simp; decide, by simp; decide⟩
  have hcomment : IsNoise "# file".toList :=
    ⟨[], hblank rfl, Or.inr ⟨" file".toList, by decide, rfl⟩⟩
  have hopening : RendersOpening "child".toList ["child".toList, "\x7b".toList] :=
    @RendersOpening.ownLine _ [] [] [] (hblank rfl) (by simp) (hblank rfl)
  have hbody : Renders (.attr "a".toList "x:y".toList .empty) ["  a: x:y".toList] :=
    @Renders.attr _ _ "  ".toList _ [' '] _ (hblank rfl) (Or.inr rfl) .empty
  have hrenders : Renders (.child "child".toList (.attr "a".toList "x:y".toList .empty) .empty)
      ["# file".toList, "child".toList, "\x7b".toList, "  a: x:y".toList, "\x7d".toList] :=
    .noise hcomment (@Renders.child _ _ _ _ _ [] _ hopening hbody (hblank rfl) .empty)
  have hvalid : (Tree.child "child".toList (.attr "a".toList "x:y".toList .empty) .empty).Valid :=
    ⟨hchild, ⟨ha, hvalue, trivial⟩, trivial⟩
  exact readText_of_renders _ hvalid _ hrenders _ (Or.inr (by decide))

end ConfigFile

end Utilmm
