import Mathlib.Tactic

/-!
# `iterator_sequence`

An `iterator_sequence` walks through two ranges as if they were one. It is the iterator at a
position in the concatenation of the ranges: the first part of it moves until it is at the end of
the first range, and the second part stays at the beginning of the second range until then.
-/

namespace Utilmm

/-- A range of random-access iterators. The iterators are the numbers from `start` on. -/
structure Range (α : Type) where
  start : Int
  elems : List α

namespace Range

variable {α : Type}

/-- The number of elements. -/
def size (r : Range α) : Int := r.elems.length

lemma size_nonneg (r : Range α) : 0 ≤ r.size := Int.natCast_nonneg _

/-- The iterator behind the last element. -/
def stop (r : Range α) : Int := r.start + r.size

/-- The element at an iterator, if it may be dereferenced. -/
def deref (r : Range α) (it : Int) : Option α :=
  if r.start ≤ it then r.elems[(it - r.start).toNat]? else none

end Range

@[ext] structure IteratorSequence where
  first : Int
  firstEnd : Int
  secondBegin : Int
  second : Int
deriving DecidableEq

namespace IteratorSequence

variable {α : Type}

def dereference (a b : Range α) (it : IteratorSequence) : Option α :=
  if it.first = it.firstEnd then b.deref it.second else a.deref it.first

def equal (it x : IteratorSequence) : Bool := x.first = it.first && x.second = it.second

def increment (it : IteratorSequence) : IteratorSequence :=
  if it.first = it.firstEnd then { it with second := it.second + 1 }
  else { it with first := it.first + 1 }

def decrement (it : IteratorSequence) : IteratorSequence :=
  if it.second = it.secondBegin then { it with first := it.first - 1 }
  else { it with second := it.second - 1 }

def advance (it : IteratorSequence) (i : Int) : IteratorSequence :=
  if i > 0 then
    let remains := it.firstEnd - it.first
    if remains > i then { it with first := it.first + i }
    else { it with first := it.firstEnd, second := it.second + (i - remains) }
  else
    let remains := it.secondBegin - it.second
    if remains < i then { it with second := it.second + i }
    else { it with second := it.secondBegin, first := it.first + (i - remains) }

def distanceTo (it x : IteratorSequence) : Int := (x.first - it.first) + (x.second - it.second)

/-- The begin iterator of the sequence of two ranges. -/
def begin (a b : Range α) : IteratorSequence := ⟨a.start, a.stop, b.start, b.start⟩

/-! ### Positions -/

/-- The iterator at the position `p` in the concatenation of two ranges. -/
def position (a b : Range α) (p : Int) : IteratorSequence :=
  ⟨a.start + min p a.size, a.stop, b.start, b.start + max 0 (p - a.size)⟩

variable {a b : Range α} {p p' d : Int}

lemma position_of_le (h : p ≤ a.size) :
    position a b p = ⟨a.start + p, a.stop, b.start, b.start⟩ := by
  rw [position, min_eq_left h, max_eq_left (sub_nonpos.mpr h), add_zero]

lemma position_of_ge (h : a.size ≤ p) :
    position a b p = ⟨a.stop, a.stop, b.start, b.start + (p - a.size)⟩ := by
  rw [position, min_eq_right h, max_eq_right (sub_nonneg.mpr h), Range.stop]

lemma begin_eq (a b : Range α) : begin a b = position a b 0 := by
  rw [position_of_le a.size_nonneg, begin, add_zero]

lemma increment_position (a b : Range α) (p : Int) :
    (position a b p).increment = position a b (p + 1) := by
  by_cases h : p < a.size
  · rw [position_of_le h.le, position_of_le h, increment, if_neg, add_assoc]
    simp only [Range.stop]
    omega
  · rw [position_of_ge (not_lt.mp h), position_of_ge (by omega), increment, if_pos rfl]
    ext <;> simp only
    omega

lemma decrement_position (a b : Range α) (p : Int) :
    (position a b p).decrement = position a b (p - 1) := by
  by_cases h : p ≤ a.size
  · rw [position_of_le h, position_of_le (by omega), decrement, if_pos rfl]
    ext <;> simp only
    omega
  · rw [position_of_ge (by omega), position_of_ge (by omega), decrement, if_neg]
    · ext <;> simp only
      omega
    · simp only
      omega

/-- A jump forward from the first range may end behind the seam. -/
lemma advance_of_pos (hd : 0 < d) : (position a b p).advance d = position a b (p + d) := by
  rw [advance, if_pos hd]
  by_cases h : p ≤ a.size
  · rw [position_of_le h]
    have hremains : a.stop - (a.start + p) = a.size - p := by
      rw [Range.stop]
      omega
    by_cases hseam : p + d < a.size
    · rw [position_of_le hseam.le]
      refine (if_pos (show a.stop - (a.start + p) > d by omega)).trans ?_
      ext <;> simp only
      omega
    · rw [position_of_ge (not_lt.mp hseam)]
      refine (if_neg (show ¬ a.stop - (a.start + p) > d by omega)).trans ?_
      ext <;> simp only
      omega
  · rw [position_of_ge (by omega), position_of_ge (by omega)]
    refine (if_neg (show ¬ a.stop - a.stop > d by omega)).trans ?_
    ext <;> simp only
    omega

/-- A jump backward from the second range may end before the seam. -/
lemma advance_of_nonpos (hd : d ≤ 0) : (position a b p).advance d = position a b (p + d) := by
  rw [advance, if_neg (not_lt.mpr hd)]
  by_cases h : p ≤ a.size
  · rw [position_of_le h, position_of_le (by omega)]
    refine (if_neg (show ¬ b.start - b.start < d by omega)).trans ?_
    ext <;> simp only
    omega
  · rw [position_of_ge (by omega)]
    by_cases hseam : a.size < p + d
    · rw [position_of_ge hseam.le]
      refine (if_pos (show b.start - (b.start + (p - a.size)) < d by omega)).trans ?_
      ext <;> simp only
      omega
    · rw [position_of_le (not_lt.mp hseam)]
      refine (if_neg (show ¬ b.start - (b.start + (p - a.size)) < d by omega)).trans ?_
      ext <;> simp only [Range.stop]
      omega

lemma advance_position (a b : Range α) (p d : Int) :
    (position a b p).advance d = position a b (p + d) := by
  rcases lt_or_ge 0 d with hd | hd
  · exact advance_of_pos hd
  · exact advance_of_nonpos hd

lemma distanceTo_position (a b : Range α) (p p' : Int) :
    (position a b p).distanceTo (position a b p') = p' - p := by
  simp only [distanceTo, position]
  omega

lemma equal_position (a b : Range α) (p p' : Int) :
    (position a b p).equal (position a b p') = true ↔ p = p' := by
  rw [equal, Bool.and_eq_true, decide_eq_true_eq, decide_eq_true_eq]
  simp only [position]
  omega

/-- Below the end the element of the concatenation is read. -/
lemma dereference_position (hp : 0 ≤ p) (hlt : p < a.size + b.size) :
    ∃ x, (position a b p).dereference a b = some x ∧ (a.elems ++ b.elems)[p.toNat]? = some x := by
  by_cases h : p < a.size
  · have hlen : p.toNat < a.elems.length := by
      simp only [Range.size] at h
      omega
    refine ⟨a.elems[p.toNat], ?_, ?_⟩
    · rw [position_of_le h.le, dereference, if_neg, Range.deref, if_pos (by simpa using hp)]
      · simp only [add_sub_cancel_left]
        exact List.getElem?_eq_getElem hlen
      · simp only [Range.stop]
        omega
    · rw [List.getElem?_append_left hlen]
      exact List.getElem?_eq_getElem hlen
  · have hlen : p.toNat - a.elems.length < b.elems.length := by
      simp only [Range.size] at h hlt
      omega
    refine ⟨b.elems[p.toNat - a.elems.length], ?_, ?_⟩
    · have hnat : (p - a.size).toNat = p.toNat - a.elems.length := by
        simp only [Range.size]
        omega
      rw [position_of_ge (not_lt.mp h), dereference, if_pos rfl, Range.deref,
        if_pos (by simp only; omega)]
      simp only [add_sub_cancel_left, hnat]
      exact List.getElem?_eq_getElem hlen
    · rw [List.getElem?_append_right (by simp only [Range.size] at h; omega)]
      exact List.getElem?_eq_getElem hlen

/-! ### Runs -/

/-- What can be done with an iterator. -/
inductive Move
  | increment
  | decrement
  | advance (d : Int)

/-- How far a move goes. -/
def Move.offset : Move → Int
  | .increment => 1
  | .decrement => -1
  | .advance d => d

def move (it : IteratorSequence) : Move → IteratorSequence
  | .increment => it.increment
  | .decrement => it.decrement
  | .advance d => it.advance d

/-- The iterator after some moves. -/
def moves (it : IteratorSequence) (ms : List Move) : IteratorSequence := ms.foldl move it

/-- Where some moves lead from the position `p`. -/
def moved (p : Int) (ms : List Move) : Int := p + (ms.map Move.offset).sum

/-- The moves from the position `p` never leave the positions from 0 to `size`. -/
def Stays (size : Int) : Int → List Move → Prop
  | p, [] => 0 ≤ p ∧ p ≤ size
  | p, m :: ms => (0 ≤ p ∧ p ≤ size) ∧ Stays size (p + m.offset) ms

lemma moved_cons (p : Int) (m : Move) (ms : List Move) :
    moved p (m :: ms) = moved (p + m.offset) ms := by
  simp only [moved, List.map_cons, List.sum_cons]
  omega

lemma move_position (a b : Range α) (p : Int) (m : Move) :
    (position a b p).move m = position a b (p + m.offset) := by
  cases m with
  | increment => exact increment_position a b p
  | decrement => exact decrement_position a b p
  | advance d => exact advance_position a b p d

lemma moves_position (a b : Range α) (p : Int) (ms : List Move) :
    (position a b p).moves ms = position a b (moved p ms) := by
  induction ms generalizing p with
  | nil => simp [moves, moved]
  | cons m ms ih =>
    rw [moved_cons, ← ih, ← move_position]
    rfl

/-- The position stays in the concatenation to the end. -/
lemma Stays.moved {size p : Int} {ms : List Move} (h : Stays size p ms) :
    0 ≤ moved p ms ∧ moved p ms ≤ size := by
  induction ms generalizing p with
  | nil => simpa [IteratorSequence.moved, Stays] using h
  | cons m ms ih =>
    rw [moved_cons]
    exact ih h.2

lemma iterate_increment (a b : Range α) (p : Int) (n : Nat) :
    increment^[n] (position a b p) = position a b (p + n) := by
  induction n generalizing p with
  | zero => simp
  | succ n ih =>
    rw [Function.iterate_succ_apply, increment_position, ih]
    congr 1
    push_cast
    omega

lemma iterate_decrement (a b : Range α) (p : Int) (n : Nat) :
    decrement^[n] (position a b p) = position a b (p - n) := by
  induction n generalizing p with
  | zero => simp
  | succ n ih =>
    rw [Function.iterate_succ_apply, decrement_position, ih]
    congr 1
    push_cast
    omega

/-- `|d|` steps, in the direction of `d`. -/
def steps (it : IteratorSequence) (d : Int) : IteratorSequence :=
  if 0 ≤ d then increment^[d.natAbs] it else decrement^[d.natAbs] it

lemma steps_position (a b : Range α) (p d : Int) :
    (position a b p).steps d = position a b (p + d) := by
  rw [steps]
  split_ifs with hd
  · rw [iterate_increment]
    congr 1
    omega
  · rw [iterate_decrement]
    congr 1
    omega

/-- Whatever moves were made from its begin iterator, an iterator sequence is the position to which
they lead in the concatenation of the ranges. -/
theorem moves_begin (a b : Range α) (ms : List Move) (h : Stays (a.size + b.size) 0 ms) :
    let it := (begin a b).moves ms
    let p := moved 0 ms
    it = position a b p ∧
      (p < a.size + b.size →
        ∃ x, it.dereference a b = some x ∧ (a.elems ++ b.elems)[p.toNat]? = some x) ∧
      (∀ ms', Stays (a.size + b.size) 0 ms' →
        (it.equal ((begin a b).moves ms') = true ↔ p = moved 0 ms') ∧
        it.distanceTo ((begin a b).moves ms') = moved 0 ms' - p) ∧
      ∀ d, 0 ≤ p + d → p + d ≤ a.size + b.size →
        it.advance d = it.steps d ∧ it.advance d = position a b (p + d) := by
  intro it p
  have hit : it = position a b p := by rw [← moves_position, ← begin_eq]
  refine ⟨hit, fun hlt => ?_, fun ms' _ => ?_, fun d _ _ => ?_⟩
  · rw [hit]
    exact dereference_position h.moved.1 hlt
  · rw [begin_eq, moves_position, hit]
    exact ⟨equal_position a b p _, distanceTo_position a b p _⟩
  · rw [hit, steps_position, advance_position]
    exact ⟨rfl, rfl⟩

theorem moves_begin_seam :
    let a : Range Char := ⟨0, ['a', 'b']⟩
    let b : Range Char := ⟨7, ['c']⟩
    ((begin a b).moves [.advance 3, .decrement]).dereference a b = some 'c' := by
  intro a b
  obtain ⟨-, hderef, -⟩ := moves_begin a b [.advance 3, .decrement]
    (by simp [Stays, Move.offset, Range.size, a, b])
  obtain ⟨x, hx, hcat⟩ := hderef (by decide)
  rw [hx, ← hcat]
  rfl

/-! ### Backward from the end -/

/-- The end iterator of the sequence of two ranges, as its constructor documents it. Its second part
has the end of the second range for a beginning. -/
def stop (a b : Range α) : IteratorSequence := ⟨a.stop, a.stop, b.stop, b.stop⟩

/-- The end iterator compares like the position behind all the elements. -/
lemma equal_stop (a b : Range α) (p : Int) :
    (position a b p).equal (stop a b) = true ↔ p = a.size + b.size := by
  have hb := b.size_nonneg
  rw [equal, Bool.and_eq_true, decide_eq_true_eq, decide_eq_true_eq]
  simp only [stop, position, Range.stop]
  omega

/-- Going back from the end iterator visits the elements of the concatenation in reverse order, and
after as many steps as there are elements the begin iterator is reached. -/
def Backward (a b : Range α) : Prop :=
  ∀ ms : List Move, (∀ m ∈ ms, m.offset < 0) → ∀ k : Nat, moved 0 ms = -k →
    k ≤ (a.elems ++ b.elems).length →
    (0 < k → ∃ x, ((stop a b).moves ms).dereference a b = some x ∧
      (a.elems ++ b.elems)[(a.elems ++ b.elems).length - k]? = some x) ∧
    (k = (a.elems ++ b.elems).length → ((stop a b).moves ms).equal (begin a b) = true)

/-- The second part never moves, since it is at its beginning. -/
lemma move_back {it : IteratorSequence} (hit : it.second = it.secondBegin) {m : Move}
    (hm : m.offset < 0) : it.move m = { it with first := it.first + m.offset } := by
  cases m with
  | increment => simp [Move.offset] at hm
  | decrement =>
    rw [move, decrement, if_pos hit]
    rfl
  | advance d =>
    rw [Move.offset] at hm
    rw [move, advance, if_neg (not_lt.mpr hm.le)]
    simp only [hit, sub_self, sub_zero, if_neg (not_lt.mpr hm.le)]
    rfl

lemma moves_back {it : IteratorSequence} (hit : it.second = it.secondBegin) {ms : List Move}
    (hms : ∀ m ∈ ms, m.offset < 0) : it.moves ms = { it with first := moved it.first ms } := by
  induction ms generalizing it with
  | nil => simp [moves, moved]
  | cons m ms ih =>
    rw [List.forall_mem_cons] at hms
    have hrest := @ih { it with first := it.first + m.offset } hit hms.2
    rw [moved_cons, ← hrest, ← move_back hit hms.1]
    rfl

/-- Without a second range the end iterator is the last position. -/
lemma stop_eq_position (hb : b.elems = []) : stop a b = position a b a.size := by
  have hsize : b.size = 0 := by simp [Range.size, hb]
  rw [position_of_le le_rfl, stop]
  simp [Range.stop, hsize]

/-- It is possible to go back from the documented end just when the second range is empty. -/
theorem backward_iff (a b : Range α) : Backward a b ↔ b.elems = [] := by
  constructor
  · intro h
    have hms : ∀ m ∈ List.replicate (a.elems ++ b.elems).length Move.decrement, m.offset < 0 := by
      intro m hm
      rw [List.eq_of_mem_replicate hm]
      decide
    obtain ⟨-, hbegin⟩ := h _ hms (a.elems ++ b.elems).length (by simp [moved, Move.offset]) le_rfl
    have hequal := hbegin rfl
    rw [moves_back rfl hms, equal, Bool.and_eq_true, decide_eq_true_eq, decide_eq_true_eq]
      at hequal
    have hsecond : b.start = b.start + b.size := hequal.2
    rw [Range.size] at hsecond
    exact List.length_eq_zero_iff.mp (by omega)
  · intro hb ms hms k hk hle
    rw [hb, List.append_nil] at hle ⊢
    have hmoved : moved a.size ms = a.size - k := by
      simp only [moved] at hk ⊢
      omega
    have hsize : b.size = 0 := by simp [Range.size, hb]
    rw [stop_eq_position hb, moves_position, hmoved]
    constructor
    · intro hpos
      have hread := @dereference_position _ a b (a.size - k) (by rw [Range.size]; omega) (by omega)
      rw [hb, List.append_nil] at hread
      have hindex : (a.size - (k : Int)).toNat = a.elems.length - k := by
        rw [Range.size]
        omega
      rwa [hindex] at hread
    · intro hall
      rw [begin_eq, equal_position, hall, Range.size, sub_self]

/-- The first step back skips the second range. -/
theorem not_backward_two : ¬ Backward (⟨0, ['a']⟩ : Range Char) ⟨0, ['b']⟩ := by
  intro h
  obtain ⟨hread, -⟩ := h [.decrement] (by decide) 1 (by decide) (by decide)
  obtain ⟨x, hx, hcat⟩ := hread Nat.one_pos
  cases hx
  cases hcat

end IteratorSequence

end Utilmm
