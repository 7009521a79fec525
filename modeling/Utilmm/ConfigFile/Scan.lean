import Utilmm.ConfigFile.Reader
import Utilmm.Core.Except

/-!
# What a reader has made when it stops

If a line is not understood, the objects which the reader has made are there. Here the loop of `read`
gives them back with the error. A file is not the only thing in memory: what the reader makes depends
on the objects made before only in the places of its objects.
-/

namespace Utilmm

namespace ConfigFile

/-- The loop of `read`, with the reader as it is when the loop throws. -/
def scanLoop : Nat → FileStream → Nat → Reader → Reader × Except ReadError Nat
  | 0, _, _, r => (r, .error .diverges)
  | fuel + 1, file, lineNumber, r =>
    if file.eof then (r, .ok lineNumber)
    else match skipNewlines (file.rest.length + 1) file lineNumber with
      | .error e => (r, .error e)
      | .ok (file, lineNumber) =>
        match readLine lineNumber r file.get.1 with
        | .error e => (r, .error e)
        | .ok r => scanLoop fuel file.get.2 lineNumber r

/-- The loop of `read` forgets the reader when it throws. -/
lemma readLoop_eq_scanLoop (fuel : Nat) (file : FileStream) (n : Nat) (r : Reader) :
    readLoop fuel file n r = (scanLoop fuel file n r).2.map (·, (scanLoop fuel file n r).1) := by
  induction fuel generalizing file n r with
  | zero => rfl
  | succ fuel ih =>
    rw [readLoop, scanLoop]
    split_ifs with heof
    · rfl
    · cases hskip : skipNewlines (file.rest.length + 1) file n with
      | error e => rfl
      | ok result =>
        obtain ⟨file', n'⟩ := result
        simp only [Except.ok_bind]
        cases hline : readLine n' r file'.get.1 with
        | error e => rfl
        | ok r' => exact ih file'.get.2 n' r'

/-- The reader at the end of a text, or where it has stopped. -/
def reached (text : Str) : Reader := (scanLoop (text.length + 2) ⟨text, false, false⟩ 1 .start).1

/-- The objects of a text which is read to its end. -/
lemma sets_reached {text : Str} {sets : List ConfigSet} (h : readText text = .ok sets) :
    (reached text).sets = sets := by
  rw [readText, readLoop_eq_scanLoop, ← reached] at h
  cases hresult : (scanLoop (text.length + 2) ⟨text, false, false⟩ 1 .start).2 with
  | error e =>
    rw [hresult] at h
    cases h
  | ok n =>
    rw [hresult] at h
    have hfinish : finish n (reached text) = .ok sets := h
    rw [finish] at hfinish
    split_ifs at hfinish
    exact Except.ok.inj hfinish

/-! ### One line -/

/-- What a line can do. -/
inductive Reads (r : Reader) : Reader → Prop
  | mode (mode : Mode) : Reads r { r with mode }
  | enter (key : Str) (mode : Mode) : Reads r (r.enter key mode)
  | insert (key value : Str) : Reads r (r.insert key value)
  | close {p : SetId} (hp : r.parent = some p) : Reads r { r with curSet := p }

lemma reads_of_readLine {n : Nat} {r r' : Reader} {line : Str} (h : readLine n r line = .ok r') :
    Reads r r' := by
  unfold readLine at h
  split at h
  · exact Except.ok.inj h ▸ .mode r.mode
  · split at h
    · split at h
      · cases h
      · exact Except.ok.inj h ▸ .mode .normal
    · split at h
      · dsimp only at h
        split at h
        · exact Except.ok.inj h ▸ .enter _ _
        · split at h
          · exact Except.ok.inj h ▸ .insert _ _
          · cases h
      · split at h
        · split at h
          · cases h
          · rename_i hp
            exact Except.ok.inj h ▸ .close hp
        · cases h

/-- What every line keeps holds where the reader stops. -/
lemma scanLoop_invariant {P : Reader → Prop} (hstep : ∀ r r', P r → Reads r r' → P r') {r : Reader}
    (h : P r) (fuel : Nat) (file : FileStream) (n : Nat) : P (scanLoop fuel file n r).1 := by
  induction fuel generalizing file n r with
  | zero => exact h
  | succ fuel ih =>
    rw [scanLoop]
    split_ifs with heof
    · exact h
    · cases hskip : skipNewlines (file.rest.length + 1) file n with
      | error e => exact h
      | ok result =>
        obtain ⟨file', n'⟩ := result
        dsimp only
        cases hline : readLine n' r file'.get.1 with
        | error e => exact h
        | ok r' => exact ih (hstep r r' h (reads_of_readLine hline)) file'.get.2 n'

end ConfigFile

/-! ### Other objects -/

namespace ConfigSet

/-- The same set, if `base` objects are made before. -/
def shift (base : Nat) (s : ConfigSet) : ConfigSet where
  parent := s.parent.map (base + ·)
  values := s.values
  children := ⟨s.children.entries.map fun e => (e.1, base + e.2),
    List.pairwise_map.mpr s.children.sorted⟩

lemma shift_insertChild (base : Nat) (s : ConfigSet) (name : Str) (child : SetId) :
    (s.insertChild name child).shift base = (s.shift base).insertChild name (base + child) := by
  have hentries : ∀ entries : List (Str × SetId),
      (Multimap.insertEntry (name, child) entries).map (fun e => (e.1, base + e.2)) =
        Multimap.insertEntry (name, base + child) (entries.map fun e => (e.1, base + e.2)) := by
    intro entries
    induction entries with
    | nil => rfl
    | cons e entries ih =>
      simp only [Multimap.insertEntry, List.map_cons]
      split_ifs
      · rfl
      · rw [List.map_cons, ih]
  simp only [shift, insertChild, Multimap.insert, hentries]

end ConfigSet

namespace ConfigFile

namespace Reader

/-- The same reader behind other objects. -/
def shift (old : List ConfigSet) (r : Reader) : Reader where
  sets := old ++ r.sets.map (·.shift old.length)
  curSet := old.length + r.curSet
  mode := r.mode

variable {old : List ConfigSet} {r : Reader}

lemma getElem?_shift (id : SetId) :
    (r.shift old).sets[old.length + id]? = r.sets[id]?.map (·.shift old.length) := by
  rw [shift, List.getElem?_append_right (Nat.le_add_right _ _), Nat.add_sub_cancel_left,
    List.getElem?_map]

lemma getElem?_shift_of_lt {id : SetId} (h : id < old.length) : (r.shift old).sets[id]? = old[id]? :=
  List.getElem?_append_left h

@[simp] lemma length_shift : (r.shift old).sets.length = old.length + r.sets.length := by
  rw [shift, List.length_append, List.length_map]

lemma modify_shift {f g : ConfigSet → ConfigSet} (sets : List ConfigSet) (id : SetId)
    (h : ∀ set, (f set).shift old.length = g (set.shift old.length)) :
    (old ++ sets.map (·.shift old.length)).modify (old.length + id) g =
      old ++ (sets.modify id f).map (·.shift old.length) := by
  refine List.ext_getElem? fun i => ?_
  rw [List.getElem?_modify]
  by_cases hi : i < old.length
  · have hne : old.length + id ≠ i := by omega
    rw [List.getElem?_append_left hi, List.getElem?_append_left hi]
    simp [hne]
  · obtain ⟨j, rfl⟩ := Nat.exists_eq_add_of_le (Nat.le_of_not_lt hi)
    rw [List.getElem?_append_right (Nat.le_add_right _ _),
      List.getElem?_append_right (Nat.le_add_right _ _), Nat.add_sub_cancel_left,
      List.getElem?_map, List.getElem?_map, List.getElem?_modify]
    cases sets[j]? with
    | none => rfl
    | some set =>
      by_cases hj : id = j
      · simp [hj, h]
      · simp [hj]

lemma shift_insert (key value : Str) :
    (r.insert key value).shift old = (r.shift old).insert key value := by
  simp only [shift, insert]
  rw [modify_shift r.sets r.curSet]
  exact fun set => rfl

lemma shift_enter (key : Str) (mode : Mode) :
    (r.enter key mode).shift old = (r.shift old).enter key mode := by
  have hmodify : (old ++ r.sets.map (·.shift old.length)).modify (old.length + r.curSet)
        (·.insertChild key (old.length + r.sets.length)) =
      old ++ (r.sets.modify r.curSet (·.insertChild key r.sets.length)).map (·.shift old.length) :=
    modify_shift r.sets r.curSet fun set => set.shift_insertChild old.length key r.sets.length
  simp only [shift, enter, List.map_append, List.length_append, List.length_map, hmodify,
    List.append_assoc]
  rfl

lemma parent_shift : (r.shift old).parent = r.parent.map (old.length + ·) := by
  have hget : (r.shift old).sets[old.length + r.curSet]? =
      r.sets[r.curSet]?.map (·.shift old.length) := getElem?_shift r.curSet
  rw [parent, parent, shift] at *
  simp only at hget ⊢
  rw [hget]
  cases r.sets[r.curSet]? <;> rfl

end Reader

/-- A line does the same behind other objects. -/
lemma readLine_shift (old : List ConfigSet) (n : Nat) (r : Reader) (line : Str) :
    readLine n (r.shift old) line = (readLine n r line).map (·.shift old) := by
  have hmode : (r.shift old).mode = r.mode := rfl
  simp only [readLine, hmode, Reader.parent_shift, ← Reader.shift_enter, ← Reader.shift_insert]
  split
  · rfl
  · split
    · split <;> rfl
    · split
      · split
        · rfl
        · split <;> rfl
      · split
        · cases r.parent <;> rfl
        · rfl

lemma scanLoop_shift (old : List ConfigSet) (fuel : Nat) (file : FileStream) (n : Nat) (r : Reader) :
    scanLoop fuel file n (r.shift old) =
      ((scanLoop fuel file n r).1.shift old, (scanLoop fuel file n r).2) := by
  induction fuel generalizing file n r with
  | zero => rfl
  | succ fuel ih =>
    rw [scanLoop, scanLoop]
    split_ifs with heof
    · rfl
    · cases hskip : skipNewlines (file.rest.length + 1) file n with
      | error e => rfl
      | ok result =>
        obtain ⟨file', n'⟩ := result
        simp only [readLine_shift]
        cases hline : readLine n' r file'.get.1 with
        | error e => rfl
        | ok r' => exact ih file'.get.2 n' r'

lemma finish_shift (old : List ConfigSet) (n : Nat) (r : Reader) :
    (finish n (r.shift old)).map (fun _ => ()) = (finish n r).map fun _ => () := by
  have hmode : (r.shift old).mode = r.mode := rfl
  simp only [finish, hmode, Reader.parent_shift, Option.isSome_map]
  split_ifs <;> rfl

end ConfigFile

end Utilmm
