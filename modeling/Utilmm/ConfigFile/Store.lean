import Utilmm.ConfigFile.Grammar
import Utilmm.ConfigFile.Reader

/-!
# Trees of `config_set`s

A tree in memory is a `config_set` for each section, with pointers to its children and to its
parent. While a file is being read, the sections from the file down to the current one are still
open: the object of an open section has one child more than its section has been closed.
-/

namespace Utilmm

namespace ConfigFile

/-! ### Closed sections -/

/-- `Children sets id t cs ids`: the children of the section `t`, whose object is `id`, are stored
under the keys and pointers `cs`, and `ids` are all the objects below `id`, in file order. -/
inductive Children (sets : List ConfigSet) :
    SetId → Tree → List (Str × SetId) → List SetId → Prop where
  | empty (id : SetId) : Children sets id .empty [] []
  | attr {id : SetId} {key value : Str} {t : Tree} {cs : List (Str × SetId)} {ids : List SetId}
      (h : Children sets id t cs ids) : Children sets id (.attr key value t) cs ids
  | child {id c : SetId} {key : Str} {body t : Tree} {cs cs' : List (Str × SetId)}
      {ids ids' : List SetId}
      (hset : sets[c]? =
        some ⟨some id, Multimap.insertAll ∅ body.attributes, Multimap.insertAll ∅ cs'⟩)
      (hbody : Children sets c body cs' ids') (h : Children sets id t cs ids) :
      Children sets id (.child key body t) ((key, c) :: cs) (c :: ids' ++ ids)

/-- The object `id` stores the section `t`, and `ids` are the objects of the whole tree. -/
def IsTree (sets : List ConfigSet) (id : SetId) (parent : Option SetId) (t : Tree)
    (ids : List SetId) : Prop :=
  ∃ cs below, ids = id :: below ∧ Children sets id t cs below ∧
    sets[id]? = some ⟨parent, Multimap.insertAll ∅ t.attributes, Multimap.insertAll ∅ cs⟩

lemma Children.append {sets : List ConfigSet} {id : SetId} {t t' : Tree}
    {cs cs' : List (Str × SetId)} {ids ids' : List SetId} (h : Children sets id t cs ids)
    (h' : Children sets id t' cs' ids') :
    Children sets id (t.append t') (cs ++ cs') (ids ++ ids') := by
  induction h with
  | empty id => exact h'
  | attr _ ih => exact .attr (ih h')
  | child hset hbody _ _ ih =>
    rw [List.cons_append, List.cons_append, List.cons_append, List.append_assoc]
    exact .child hset hbody (ih h')

/-- Objects outside the tree do not matter. -/
lemma Children.congr {sets sets' : List ConfigSet} {id : SetId} {t : Tree}
    {cs : List (Str × SetId)} {ids : List SetId} (h : Children sets id t cs ids)
    (hsets : ∀ i ∈ ids, sets'[i]? = sets[i]?) : Children sets' id t cs ids := by
  induction h with
  | empty id => exact .empty id
  | attr _ ih => exact .attr (ih hsets)
  | child hset _ _ ihbody ih =>
    refine .child ((hsets _ (by simp)).trans hset) (ihbody fun i hi => ?_) (ih fun i hi => ?_)
    · exact hsets i (by simp [hi])
    · exact hsets i (by simp [hi])

/-- There is an object for every section. -/
lemma Children.length_eq {sets : List ConfigSet} {id : SetId} {t : Tree} {cs : List (Str × SetId)}
    {ids : List SetId} (h : Children sets id t cs ids) : ids.length = t.size := by
  induction h with
  | empty id => rfl
  | attr _ ih => exact ih
  | child _ _ _ ihbody ih =>
    rw [List.length_append, List.length_cons, ihbody, ih]
    rfl

/-- The tree and the order of the objects determine the objects. -/
lemma Children.unique {sets sets' : List ConfigSet} {id : SetId} {t : Tree}
    {cs cs' : List (Str × SetId)} {ids ids' : List SetId} (h : Children sets id t cs ids)
    (h' : Children sets' id t cs' ids') (hids : ids = ids') :
    cs = cs' ∧ ∀ i ∈ ids, sets[i]? = sets'[i]? := by
  induction h generalizing cs' ids' with
  | empty id =>
    cases h' with
    | empty => simp
  | attr _ ih =>
    cases h' with
    | attr h' => exact ih h' hids
  | child hset hbody _ ihbody ih =>
    cases h' with
    | child hset' hbody' h' =>
      obtain ⟨rfl, htail⟩ := List.cons_eq_cons.mp hids
      obtain ⟨hids₁, hids₂⟩ := List.append_inj htail (hbody.length_eq.trans hbody'.length_eq.symm)
      obtain ⟨rfl, hbelow⟩ := ihbody hbody' hids₁
      obtain ⟨rfl, hrest⟩ := ih h' hids₂
      refine ⟨rfl, fun i hi => ?_⟩
      simp only [List.mem_cons, List.mem_append] at hi
      rcases hi with (rfl | hi) | hi
      · rw [hset, hset']
      · exact hbelow i hi
      · exact hrest i hi

/-- Two stores of the same tree are equal when their objects come in the same order. -/
theorem IsTree.unique {sets sets' : List ConfigSet} {t : Tree}
    (h : IsTree sets 0 none t (List.range sets.length))
    (h' : IsTree sets' 0 none t (List.range sets'.length)) : sets = sets' := by
  obtain ⟨cs, below, hids, hchildren, hset⟩ := h
  obtain ⟨cs', below', hids', hchildren', hset'⟩ := h'
  have hlen : sets.length = sets'.length := by
    have h₁ := congrArg List.length hids
    have h₂ := congrArg List.length hids'
    rw [List.length_range, List.length_cons, hchildren.length_eq] at h₁
    rw [List.length_range, List.length_cons, hchildren'.length_eq] at h₂
    rw [h₁, h₂]
  have hbelow : below = below' := by
    rw [hlen, hids'] at hids
    exact (List.cons_eq_cons.mp hids).2.symm
  obtain ⟨rfl, hsame⟩ := hchildren.unique hchildren' hbelow
  refine List.ext_getElem? fun i => ?_
  by_cases hi : i < sets.length
  · have hmem : i ∈ 0 :: below := by
      rw [← hids]
      exact List.mem_range.mpr hi
    rcases List.mem_cons.mp hmem with rfl | hmem
    · rw [hset, hset']
    · exact hsame i hmem
  · rw [List.getElem?_eq_none (not_lt.mp hi), List.getElem?_eq_none (hlen ▸ not_lt.mp hi)]

/-- The values stored in an object. -/
def entriesAt (sets : List ConfigSet) (id : SetId) : List (Str × Str) :=
  match sets[id]? with
  | some s => s.values.entries
  | none => []

lemma perm_entriesAt {sets : List ConfigSet} {id : SetId} {parent : Option SetId} {t : Tree}
    {children : Multimap Str SetId}
    (hset : sets[id]? = some ⟨parent, Multimap.insertAll ∅ t.attributes, children⟩) :
    (entriesAt sets id).Perm t.attributes := by
  rw [entriesAt, hset]
  exact Multimap.perm_insertAll ∅ t.attributes

lemma Children.perm {sets : List ConfigSet} {id : SetId} {t : Tree} {cs : List (Str × SetId)}
    {ids : List SetId} (h : Children sets id t cs ids) :
    (t.attributes ++ ids.flatMap (entriesAt sets)).Perm t.allAttributes := by
  induction h with
  | empty id => exact .refl _
  | attr _ ih => exact ih.cons _
  | @child id c key body t cs cs' ids ids' hset _ _ ihbody ih =>
    have hchild : (entriesAt sets c ++ ids'.flatMap (entriesAt sets)).Perm body.allAttributes :=
      ((perm_entriesAt hset).append_right _).trans ihbody
    have hsplit : (c :: ids' ++ ids).flatMap (entriesAt sets)
        = (entriesAt sets c ++ ids'.flatMap (entriesAt sets)) ++ ids.flatMap (entriesAt sets) := by
      rw [List.flatMap_append, List.flatMap_cons]
    rw [hsplit, Tree.attributes, Tree.allAttributes, ← List.append_assoc]
    refine (List.perm_append_comm.append_right _).trans ?_
    rw [List.append_assoc]
    exact hchild.append ih

/-- Every attribute of a tree is stored once. -/
lemma IsTree.perm {sets : List ConfigSet} {id : SetId} {parent : Option SetId} {t : Tree}
    {ids : List SetId} (h : IsTree sets id parent t ids) :
    (ids.flatMap (entriesAt sets)).Perm t.allAttributes := by
  obtain ⟨cs, below, rfl, hchildren, hset⟩ := h
  rw [List.flatMap_cons]
  exact ((perm_entriesAt hset).append_right _).trans hchildren.perm

/-! ### Open sections -/

/-- `Spine sets cur pending t stack ids`: the object `cur` stores the section `t` and the further
children `pending`; around it are the open sections of `stack`, innermost first, each with the key
of the next. `ids` are all the objects, in file order. -/
inductive Spine (sets : List ConfigSet) :
    SetId → List (Str × SetId) → Tree → List (Str × Tree) → List SetId → Prop where
  | file {pending cs : List (Str × SetId)} {t : Tree} {ids : List SetId}
      (hset : sets[0]? = some
        ⟨none, Multimap.insertAll ∅ t.attributes, Multimap.insertAll ∅ (cs ++ pending)⟩)
      (h : Children sets 0 t cs ids) : Spine sets 0 pending t [] (0 :: ids)
  | inner {cur outer : SetId} {pending cs : List (Str × SetId)} {key : Str} {t t' : Tree}
      {stack : List (Str × Tree)} {ids ids' : List SetId}
      (hset : sets[cur]? = some
        ⟨some outer, Multimap.insertAll ∅ t.attributes, Multimap.insertAll ∅ (cs ++ pending)⟩)
      (h : Children sets cur t cs ids) (houter : Spine sets outer [(key, cur)] t' stack ids') :
      Spine sets cur pending t ((key, t') :: stack) (ids' ++ cur :: ids)

lemma Spine.congr {sets sets' : List ConfigSet} {cur : SetId} {pending : List (Str × SetId)}
    {t : Tree} {stack : List (Str × Tree)} {ids : List SetId}
    (h : Spine sets cur pending t stack ids) (hsets : ∀ i ∈ ids, sets'[i]? = sets[i]?) :
    Spine sets' cur pending t stack ids := by
  induction h with
  | file hset h =>
    exact .file ((hsets 0 (by simp)).trans hset) (h.congr fun i hi => hsets i (by simp [hi]))
  | inner hset h _ ih =>
    refine .inner ((hsets _ (by simp)).trans hset) (h.congr fun i hi => ?_) (ih fun i hi => ?_)
    · exact hsets i (by simp [hi])
    · exact hsets i (by simp [hi])

/-- The current object can be replaced without regard to the objects above it. -/
lemma Spine.focus {sets : List ConfigSet} {cur : SetId} {pending : List (Str × SetId)} {t : Tree}
    {stack : List (Str × Tree)} {ids : List SetId} (h : Spine sets cur pending t stack ids) :
    ∃ parent cs below above, ids = above ++ cur :: below ∧ Children sets cur t cs below ∧
      sets[cur]? = some
        ⟨parent, Multimap.insertAll ∅ t.attributes, Multimap.insertAll ∅ (cs ++ pending)⟩ ∧
      ∀ sets' pending' t' cs' below', (∀ i ∈ above, sets'[i]? = sets[i]?) →
        Children sets' cur t' cs' below' →
        sets'[cur]? = some
          ⟨parent, Multimap.insertAll ∅ t'.attributes, Multimap.insertAll ∅ (cs' ++ pending')⟩ →
        Spine sets' cur pending' t' stack (above ++ cur :: below') := by
  cases h with
  | @file _ cs _ below hset h =>
    exact ⟨none, cs, below, [], rfl, h, hset, fun _ _ _ _ _ _ h' hset' => .file hset' h'⟩
  | @inner _ _ _ cs _ _ _ _ below above hset h houter =>
    exact ⟨_, cs, below, above, rfl, h, hset,
      fun _ _ _ _ _ hsets h' hset' => .inner hset' h' (houter.congr hsets)⟩

/-- The objects of an open section are below those of the sections around it. -/
lemma not_mem_of_nodup {cur : SetId} {above below : List SetId}
    (h : (above ++ cur :: below).Nodup) : cur ∉ above ∧ cur ∉ below := by
  rw [List.nodup_append, List.nodup_cons] at h
  refine ⟨fun hmem => ?_, h.2.1.1⟩
  exact h.2.2 cur hmem cur List.mem_cons_self rfl

/-! ### What the reader does to the objects -/

/-- Add an attribute to the current section. -/
lemma Spine.insert {sets : List ConfigSet} {cur : SetId} {t : Tree} {stack : List (Str × Tree)}
    {ids : List SetId} (h : Spine sets cur [] t stack ids) (hnodup : ids.Nodup)
    (key value : Str) :
    Spine (sets.modify cur (·.insert key value)) cur [] (t.append (.attr key value .empty)) stack
      ids := by
  obtain ⟨parent, cs, below, above, rfl, hbelow, hset, hreplace⟩ := h.focus
  obtain ⟨habove, hcur⟩ := not_mem_of_nodup hnodup
  have hframe : ∀ i, i ≠ cur → (sets.modify cur (·.insert key value))[i]? = sets[i]? := by
    intro i hi
    exact List.getElem?_modify_ne _ _ hi.symm
  refine hreplace _ [] _ cs below (fun i hi => hframe i fun h => habove (h ▸ hi)) ?_ ?_
  · have hattr :
        Children (sets.modify cur (·.insert key value)) cur (.attr key value .empty) [] [] :=
      .attr (.empty cur)
    have happ := (hbelow.congr fun i hi => hframe i fun h => hcur (h ▸ hi)).append hattr
    simpa using happ
  · rw [List.getElem?_modify_eq, hset, Tree.attributes_append]
    simp [ConfigSet.insert, Tree.attributes]

/-- Open a section in the current one. -/
lemma Spine.enter {sets : List ConfigSet} {cur : SetId} {t : Tree} {stack : List (Str × Tree)}
    {ids : List SetId} (h : Spine sets cur [] t stack ids) (hnodup : ids.Nodup)
    (hids : ∀ i ∈ ids, i < sets.length) (key : Str) :
    Spine (sets.modify cur (·.insertChild key sets.length) ++ [ConfigSet.new cur]) sets.length []
      .empty ((key, t) :: stack) (ids ++ [sets.length]) := by
  obtain ⟨parent, cs, below, above, rfl, hbelow, hset, hreplace⟩ := h.focus
  obtain ⟨habove, hcur⟩ := not_mem_of_nodup hnodup
  have hlen : (sets.modify cur (·.insertChild key sets.length)).length = sets.length :=
    List.length_modify ..
  have hold : ∀ i, i < sets.length →
      (sets.modify cur (·.insertChild key sets.length) ++ [ConfigSet.new cur])[i]?
        = (sets.modify cur (·.insertChild key sets.length))[i]? := by
    intro i hi
    exact List.getElem?_append_left (by rw [hlen]; exact hi)
  have hframe : ∀ i ∈ above ++ cur :: below, i ≠ cur →
      (sets.modify cur (·.insertChild key sets.length) ++ [ConfigSet.new cur])[i]?
        = sets[i]? := by
    intro i hi hne
    rw [hold i (hids i hi), List.getElem?_modify_ne _ _ hne.symm]
  have hnew : (sets.modify cur (·.insertChild key sets.length) ++ [ConfigSet.new cur])[sets.length]?
      = some ⟨some cur, Multimap.insertAll ∅ Tree.empty.attributes,
        Multimap.insertAll ∅ ([] ++ [])⟩ := by
    rw [List.getElem?_append_right (by rw [hlen]), hlen, Nat.sub_self]
    rfl
  have houter : Spine (sets.modify cur (·.insertChild key sets.length) ++ [ConfigSet.new cur]) cur
      [(key, sets.length)] t stack (above ++ cur :: below) := by
    refine hreplace _ _ t cs below (fun i hi => ?_) (hbelow.congr fun i hi => ?_) ?_
    · exact hframe i (by simp [hi]) fun h => habove (h ▸ hi)
    · exact hframe i (by simp [hi]) fun h => hcur (h ▸ hi)
    · rw [hold cur (hids cur (by simp)), List.getElem?_modify_eq, hset, List.append_nil,
        Multimap.insertAll_append_singleton]
      rfl
  exact .inner hnew (.empty _) houter

/-- Close the current section. -/
lemma Spine.close {sets : List ConfigSet} {cur : SetId} {key : Str} {t t' : Tree}
    {stack : List (Str × Tree)} {ids : List SetId}
    (h : Spine sets cur [] t ((key, t') :: stack) ids) :
    ∃ outer, sets[cur]?.bind ConfigSet.parent = some outer ∧
      Spine sets outer [] (t'.append (.child key t .empty)) stack ids := by
  cases h with
  | @inner _ outer _ cs _ _ _ _ ids ids' hset h houter =>
    refine ⟨outer, by rw [hset]; rfl, ?_⟩
    obtain ⟨parent, cs', below, above, rfl, hbelow, hset', hreplace⟩ := houter.focus
    rw [List.append_nil] at hset
    have hone : Children sets outer (.child key t .empty) [(key, cur)] (cur :: ids ++ []) :=
      .child hset h (.empty outer)
    have hchild := hbelow.append hone
    have hspine := hreplace sets [] (t'.append (.child key t .empty)) (cs' ++ [(key, cur)])
      (below ++ (cur :: ids ++ [])) (fun _ _ => rfl) hchild
      (by rw [hset', Tree.attributes_append]; simp [Tree.attributes])
    simpa using hspine

/-- The object of the file has no parent. -/
lemma Spine.parent_file {sets : List ConfigSet} {cur : SetId} {pending : List (Str × SetId)}
    {t : Tree} {ids : List SetId} (h : Spine sets cur pending t [] ids) :
    sets[cur]?.bind ConfigSet.parent = none := by
  cases h with
  | file hset h => rw [hset]; rfl

/-- When no section is open, the file is stored. -/
lemma Spine.isTree {sets : List ConfigSet} {cur : SetId} {t : Tree} {ids : List SetId}
    (h : Spine sets cur [] t [] ids) : IsTree sets 0 none t ids := by
  cases h with
  | @file _ cs _ below hset h => exact ⟨cs, below, rfl, h, by rw [hset, List.append_nil]⟩

end ConfigFile

end Utilmm
