import Utilmm.ConfigFile.Reader
import Utilmm.Core.Except

/-!
# The reader sees the lines of the text

The loop over the stream takes the non-empty lines of the text in order and counts every newline,
wherever the text ends. So reading a text is reading its lines.
-/

namespace Utilmm

namespace ConfigFile

/-! ### Newlines -/

lemma readLine_nil (n : Nat) (r : Reader) : readLine n r [] = .ok r := by
  rw [readLine, if_pos (rxEmpty_iff.mpr (by simp [beforeComment]))]

/-- The stream behind the newlines at the start of a text. -/
def afterNewlines (text : Str) : FileStream :=
  let rest := text.dropWhile (· = '\n')
  { rest, eof := rest.isEmpty }

/-- How many newlines there are at the start of a text. -/
def newlines (text : Str) : Nat := (text.takeWhile (· = '\n')).length

lemma skipNewlines_eq (text : Str) (n fuel : Nat) (h : text.length < fuel) :
    skipNewlines fuel ⟨text, false, false⟩ n = .ok (afterNewlines text, n + newlines text) := by
  induction text generalizing n fuel with
  | nil =>
    obtain ⟨fuel, rfl⟩ := Nat.exists_eq_succ_of_ne_zero h.ne'
    rfl
  | cons c text ih =>
    obtain ⟨fuel, rfl⟩ := Nat.exists_eq_succ_of_ne_zero (Nat.ne_zero_of_lt h)
    have hpeek : FileStream.peek ⟨c :: text, false, false⟩ =
        (some c, ⟨c :: text, false, false⟩) := rfl
    rw [skipNewlines, hpeek]
    by_cases hc : c = '\n'
    · subst hc
      have hrec := ih (n + 1) fuel (by simpa using h)
      simp only [if_true]
      refine hrec.trans ?_
      simp [afterNewlines, newlines]
      omega
    · simp [hc, afterNewlines, newlines]

/-- Newlines at the start are empty lines. -/
lemma readLines_afterNewlines (text : Str) (n : Nat) (r : Reader) :
    readLines n r (lines text)
      = readLines (n + newlines text) r (lines (text.dropWhile (· = '\n'))) := by
  induction text generalizing n with
  | nil => rfl
  | cons c text ih =>
    by_cases hc : c = '\n'
    · subst hc
      rw [lines_newline, readLines, readLine_nil]
      have hlen : newlines ('\n' :: text) = newlines text + 1 := by simp [newlines]
      rw [hlen, List.dropWhile_cons_of_pos (by simp)]
      refine (ih (n + 1)).trans ?_
      rw [Nat.add_assoc, Nat.add_comm 1]
    · rw [List.dropWhile_cons_of_neg (by simpa using hc)]
      simp [newlines, hc]

lemma count_newlines (text : Str) :
    text.count '\n' = newlines text + (text.dropWhile (· = '\n')).count '\n' := by
  have hall : (text.takeWhile (· = '\n')).count '\n' = newlines text := by
    rw [newlines, List.count_eq_length]
    intro c hc
    have := List.mem_takeWhile_imp hc
    simpa using Eq.symm (by simpa using this)
  rw [← hall, ← List.count_append, List.takeWhile_append_dropWhile]

/-- Behind the newlines the text is at its end, or it has a line, which is the last one or ends with
a newline. -/
lemma afterNewlines_get_cases (text : Str) :
    (text.dropWhile (· = '\n') = [] ∧ (afterNewlines text).get = ([], ⟨[], true, true⟩)) ∨
      ∃ line, line ≠ [] ∧ '\n' ∉ line ∧
        ((text.dropWhile (· = '\n') = line ∧
            (afterNewlines text).get = (line, ⟨[], true, false⟩)) ∨
          ∃ more, text.dropWhile (· = '\n') = line ++ '\n' :: more ∧
            (afterNewlines text).get = (line, ⟨'\n' :: more, false, false⟩)) := by
  cases hrest : text.dropWhile (· = '\n') with
  | nil => exact Or.inl ⟨rfl, by simp [afterNewlines, hrest, FileStream.get, FileStream.good]⟩
  | cons c rest =>
    have hc : c ≠ '\n' := by simpa using not_of_dropWhile hrest
    have happ := List.takeWhile_append_dropWhile (p := (· ≠ '\n')) (l := c :: rest)
    refine Or.inr ⟨(c :: rest).takeWhile (· ≠ '\n'), by simp [hc], fun hmem => ?_, ?_⟩
    · simpa using List.mem_takeWhile_imp hmem
    · have hget : (afterNewlines text).get = ((c :: rest).takeWhile (· ≠ '\n'),
          ⟨(c :: rest).dropWhile (· ≠ '\n'),
            ((c :: rest).dropWhile (· ≠ '\n')).isEmpty, false⟩) := by
        simp [afterNewlines, hrest, FileStream.get, FileStream.good, hc]
      cases hmore : (c :: rest).dropWhile (· ≠ '\n') with
      | nil =>
        rw [hmore, List.append_nil] at happ
        rw [hmore] at hget
        exact Or.inl ⟨happ.symm, hget⟩
      | cons d more =>
        obtain rfl : d = '\n' := by simpa using not_of_dropWhile hmore
        rw [hmore] at happ hget
        exact Or.inr ⟨more, happ.symm, hget⟩

/-! ### The loop -/

lemma readLoop_eof (fuel n : Nat) (r : Reader) {file : FileStream} (h : file.eof = true) :
    readLoop (fuel + 1) file n r = .ok (n, r) := by
  rw [readLoop, if_pos h]

/-- One round of the loop. -/
lemma readLoop_round (fuel : Nat) (text : Str) (n : Nat) (r : Reader) :
    readLoop (fuel + 1) ⟨text, false, false⟩ n r
      = readLine (n + newlines text) r (afterNewlines text).get.1 >>= fun r =>
          readLoop fuel (afterNewlines text).get.2 (n + newlines text) r := by
  rw [readLoop, if_neg (by simp), skipNewlines_eq text n _ (Nat.lt_succ_self _)]
  rfl

/-- The loop reads the lines of the text and counts its newlines. -/
lemma readLoop_eq (text : Str) (fuel n : Nat) (r : Reader) (h : text.length + 1 < fuel) :
    readLoop fuel ⟨text, false, false⟩ n r
      = (readLines n r (lines text)).map fun r => (n + text.count '\n', r) := by
  induction hlen : text.length using Nat.strong_induction_on generalizing text fuel n r with
  | _ len ih =>
    obtain ⟨fuel, rfl⟩ := Nat.exists_eq_succ_of_ne_zero (Nat.ne_zero_of_lt h)
    obtain ⟨fuel, rfl⟩ := Nat.exists_eq_succ_of_ne_zero (n := fuel) (by omega)
    have hsplit : text.length = newlines text + (text.dropWhile (· = '\n')).length := by
      rw [newlines, ← List.length_append, List.takeWhile_append_dropWhile]
    rw [Nat.succ_eq_add_one, readLoop_round, readLines_afterNewlines, count_newlines,
      ← Nat.add_assoc]
    rcases afterNewlines_get_cases text with
      ⟨hrest, hget⟩ | ⟨line, hne, hline, ⟨hrest, hget⟩ | ⟨more, hrest, hget⟩⟩
    · rw [hrest, hget, readLine_nil, lines_nil, readLines, readLine_nil]
      exact @readLoop_eof fuel _ r ⟨[], true, true⟩ rfl
    · rw [hrest, hget, lines_of_not_mem hline, readLines, List.count_eq_zero_of_not_mem hline]
      cases hread : readLine (n + newlines text) r line with
      | error e => rfl
      | ok r' => exact @readLoop_eof fuel _ r' ⟨[], true, false⟩ rfl
    · have hshort : ('\n' :: more).length < len := by
        have hpos := List.length_pos_of_ne_nil hne
        rw [hrest, List.length_append] at hsplit
        omega
      rw [hrest, hget, lines_append_newline hline, readLines, List.count_append,
        List.count_eq_zero_of_not_mem hline, Nat.zero_add]
      cases hread : readLine (n + newlines text) r line with
      | error e => rfl
      | ok r' =>
        have hrec := ih _ hshort ('\n' :: more) (fuel + 1) (n + newlines text) r' (by omega) rfl
        rw [lines_newline, readLines, readLine_nil] at hrec
        exact hrec

/-- Reading a text is reading its lines and checking the end. -/
theorem readText_eq (text : Str) :
    readText text
      = readLines 1 .start (lines text) >>= fun r => finish (1 + text.count '\n') r := by
  rw [readText, readLoop_eq text _ 1 .start (Nat.lt_succ_self _)]
  cases readLines 1 .start (lines text) <;> rfl

end ConfigFile

end Utilmm
