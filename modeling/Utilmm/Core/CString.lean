import Mathlib.Tactic
import Mathlib.Data.List.TakeWhile

/-!
# Zero-terminated texts in a buffer

A buffer has a fixed number of cells, and a write outside of them is a fault. A text in a buffer
ends at the first zero. The functions are those of the C library, for any type of characters and
any zero.
-/

namespace CString

variable {α : Type} {n : Nat}

inductive Fault
  | outOfBounds (i : Nat)
  | unterminated

/-- One cell is written. -/
def store (v : Vector α n) (i : Nat) (a : α) : Except Fault (Vector α n) :=
  if h : i < n then .ok (v.set i a) else .error (.outOfBounds i)

/-- The cells are written one after the other. -/
def write (v : Vector α n) (i : Nat) : List α → Except Fault (Vector α n)
  | [] => .ok v
  | a :: s => store v i a >>= fun v => write v (i + 1) s

variable [DecidableEq α] (nul : α)

/-- The text that ends at the first zero. -/
def text (s : List α) : List α := s.takeWhile (· ≠ nul)

def strlen (v : Vector α n) : Except Fault Nat :=
  if nul ∈ v.toList then .ok (text nul v.toList).length else .error .unterminated

/-- At most `k` characters are copied, and zeros behind them up to `k`. -/
def strncpy (v : Vector α n) (src : List α) (k : Nat) : Except Fault (Vector α n) :=
  write v 0 ((text nul src).take k ++ List.replicate (k - (text nul src).length) nul)

def strcat (v : Vector α n) (src : List α) : Except Fault (Vector α n) :=
  strlen nul v >>= fun i => write v i (text nul src ++ [nul])

/-- At most `k` characters are appended, and a zero behind them. -/
def strncat (v : Vector α n) (src : List α) (k : Nat) : Except Fault (Vector α n) :=
  strlen nul v >>= fun i => write v i ((text nul src).take k ++ [nul])

/-- The buffer holds a text, with its zero. -/
def Holds (v : Vector α n) (t : List α) : Prop :=
  nul ∉ t ∧ ∃ rest, v.toList = t ++ nul :: rest

variable {v : Vector α n} {s t : List α} {i k : Nat}

/-! ### Writes -/

omit [DecidableEq α] in
lemma store_of_lt (h : i < n) (a : α) :
    ∃ v', store v i a = .ok v' ∧ v'.toList = v.toList.set i a :=
  ⟨v.set i a, dif_pos h, Vector.toList_set h⟩

omit [DecidableEq α] in
/-- What fits is written, and the other cells are left alone. -/
lemma write_of_le (h : i + s.length ≤ n) : ∃ v', write v i s = .ok v' ∧
    v'.toList = v.toList.take i ++ (s ++ v.toList.drop (i + s.length)) := by
  induction s generalizing v i with
  | nil => exact ⟨v, rfl, by simp⟩
  | cons a s ih =>
    rw [List.length_cons] at h
    obtain ⟨v₁, hv₁, hlist₁⟩ := store_of_lt (v := v) (show i < n by omega) a
    obtain ⟨v₂, hv₂, hlist₂⟩ := ih (v := v₁) (i := i + 1) (by omega)
    have hi : i < v.toList.length := by simpa using (show i < n by omega)
    refine ⟨v₂, by rw [write, hv₁]; exact hv₂, ?_⟩
    rw [hlist₂, hlist₁, List.length_cons, List.take_set, List.take_succ_eq_append_getElem hi,
      List.set_append_right _ _ (by simp), List.drop_set_of_lt (by omega)]
    have hlength : (v.toList.take i).length = i := by simp [(show i ≤ n by omega)]
    rw [hlength, Nat.sub_self, List.set_cons_zero, List.append_assoc, Nat.add_right_comm,
      Nat.add_assoc]
    rfl

omit [DecidableEq α] in
/-- What does not fit is not written. -/
lemma write_of_lt (h : n < i + s.length) (hi : i ≤ n) : ∃ e, write v i s = .error e := by
  induction s generalizing v i with
  | nil => simp at h; omega
  | cons a s ih =>
    rw [List.length_cons] at h
    by_cases hlt : i < n
    · obtain ⟨v₁, hv₁, -⟩ := store_of_lt (v := v) hlt a
      obtain ⟨e, he⟩ := ih (v := v₁) (i := i + 1) (by omega) hlt
      exact ⟨e, by rw [write, hv₁]; exact he⟩
    · exact ⟨.outOfBounds i, by rw [write, store, dif_neg hlt]; rfl⟩

/-! ### Texts -/

variable {nul}

lemma nul_notMem_text : nul ∉ text nul s := by
  intro h
  simpa using List.mem_takeWhile_imp h

lemma text_eq_self (h : nul ∉ s) : text nul s = s := by
  rw [text, List.takeWhile_eq_self_iff]
  intro a ha
  simpa using ne_of_mem_of_not_mem ha h

lemma text_append (h : nul ∉ s) (t : List α) : text nul (s ++ t) = s ++ text nul t :=
  List.takeWhile_append_of_pos fun a ha => by simpa using ne_of_mem_of_not_mem ha h

lemma text_append_nul (h : nul ∉ t) (s : List α) : text nul (t ++ nul :: s) = t := by
  rw [text, List.takeWhile_append_of_pos (fun a ha => by simpa using ne_of_mem_of_not_mem ha h)]
  simp

lemma Holds.text_eq (h : Holds nul v t) : text nul v.toList = t := by
  obtain ⟨hnul, rest, hv⟩ := h
  rw [hv, text_append_nul hnul]

lemma Holds.strlen_eq (h : Holds nul v t) : strlen nul v = .ok t.length := by
  rw [strlen, if_pos, h.text_eq]
  obtain ⟨-, rest, hv⟩ := h
  simp [hv]

omit [DecidableEq α] in
lemma Holds.length_lt (h : Holds nul v t) : t.length < n := by
  obtain ⟨-, rest, hv⟩ := h
  have hlength := congrArg List.length hv
  simp only [Vector.length_toList, List.length_append, List.length_cons] at hlength
  omega

omit [DecidableEq α] in
/-- A text is written behind the one in the buffer. -/
lemma Holds.write_of_lt (h : Holds nul v t) (hs : nul ∉ s) (hlt : t.length + s.length < n) :
    ∃ v', write v t.length (s ++ [nul]) = .ok v' ∧ Holds nul v' (t ++ s) := by
  have hle : t.length + (s ++ [nul]).length ≤ n := by
    rw [List.length_append, List.length_singleton]
    omega
  obtain ⟨v', hv', hlist⟩ := write_of_le (v := v) hle
  obtain ⟨hnul, rest, hv⟩ := h
  refine ⟨v', hv', by simp [hnul, hs], v.toList.drop (t.length + (s ++ [nul]).length), ?_⟩
  rw [hlist, hv, List.take_left, List.append_assoc, List.append_assoc]
  rfl

lemma Holds.strcat_of_lt (h : Holds nul v t) (hlt : t.length + (text nul s).length < n) :
    ∃ v', strcat nul v s = .ok v' ∧ Holds nul v' (t ++ text nul s) := by
  obtain ⟨v', hv', hholds⟩ := h.write_of_lt nul_notMem_text hlt
  exact ⟨v', by rw [strcat, h.strlen_eq]; exact hv', hholds⟩

lemma Holds.strncat_of_lt (h : Holds nul v t) (hlt : t.length + ((text nul s).take k).length < n) :
    ∃ v', strncat nul v s k = .ok v' ∧ Holds nul v' (t ++ (text nul s).take k) := by
  have hnul : nul ∉ (text nul s).take k := fun hmem => nul_notMem_text (List.mem_of_mem_take hmem)
  obtain ⟨v', hv', hholds⟩ := h.write_of_lt hnul hlt
  exact ⟨v', by rw [strncat, h.strlen_eq]; exact hv', hholds⟩

lemma Holds.strncat_of_le (h : Holds nul v t) (hle : n ≤ t.length + ((text nul s).take k).length) :
    ∃ e, strncat nul v s k = .error e := by
  have hlt : n < t.length + ((text nul s).take k ++ [nul]).length := by
    rw [List.length_append, List.length_singleton]
    omega
  obtain ⟨e, he⟩ := CString.write_of_lt (v := v) hlt h.length_lt.le
  exact ⟨e, by rw [strncat, h.strlen_eq]; exact he⟩

/-- With a zero at the end of the part that it fills, `strncpy` leaves a text. -/
lemma strncpy_store (nul : α) (v : Vector α n) (hk : k < n) (src : List α) :
    ∃ v₁ v₂, strncpy nul v src k = .ok v₁ ∧ store v₁ k nul = .ok v₂ ∧
      Holds nul v₂ ((text nul src).take k) := by
  have hnul : nul ∉ (text nul src).take k :=
    fun hmem => nul_notMem_text (List.mem_of_mem_take hmem)
  have hlength : ((text nul src).take k ++
      List.replicate (k - (text nul src).length) nul).length = k := by
    simp only [List.length_append, List.length_take, List.length_replicate]
    omega
  obtain ⟨v₁, hv₁, hlist₁⟩ := write_of_le (v := v) (i := 0)
    (s := (text nul src).take k ++ List.replicate (k - (text nul src).length) nul) (by omega)
  obtain ⟨v₂, hv₂, hlist₂⟩ := store_of_lt (v := v₁) hk nul
  refine ⟨v₁, v₂, hv₁, hv₂, hnul, ?_⟩
  have hrest : v.toList.drop k ≠ [] := by simpa using hk
  obtain ⟨a, rest, hrest⟩ := List.exists_cons_of_ne_nil hrest
  rw [Nat.zero_add, hlength, List.take_zero, List.nil_append, hrest] at hlist₁
  rw [hlist₁, List.set_append_right _ _ hlength.le, hlength, Nat.sub_self, List.set_cons_zero]
    at hlist₂
  cases hzeros : k - (text nul src).length with
  | zero => exact ⟨rest, by rw [hlist₂, hzeros, List.replicate_zero, List.append_nil]⟩
  | succ m =>
    exact ⟨_, by rw [hlist₂, hzeros, List.replicate_succ, List.append_assoc]; rfl⟩

end CString
