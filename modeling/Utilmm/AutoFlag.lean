import Utilmm.Core.Runs

/-!
# Guards on flags

An `auto_flag<int>` sets or clears the bits of a mask while it lives. It keeps one bit for the whole
mask and writes it to all bits of the mask at the end. The guards of a field are destroyed in the
opposite order of their construction. An `int` has 32 bits.
-/

namespace Utilmm

namespace AutoFlag

abbrev CInt := BitVec 32

structure Guard where
  mask : CInt
  restore : Bool
  deriving DecidableEq

def get (field mask : CInt) : Bool := field &&& mask = mask

def set (field mask : CInt) (value : Bool) : CInt :=
  (field &&& ~~~mask) ||| (mask * if value then 1 else 0)

/-- The constructor: the field it leaves and the new guard. -/
def construct (field mask : CInt) (value restoreOld : Bool) : CInt × Guard :=
  (set field mask value, ⟨mask, if restoreOld then get field mask else !value⟩)

/-- The destructor. -/
def destroy (field : CInt) (g : Guard) : CInt := set field g.mask g.restore

/-- A field and the guards on it, the innermost one first. -/
structure State where
  field : CInt
  guards : List Guard
  deriving DecidableEq

inductive Action
  | construct (mask : CInt) (value : Bool)
  | destroy
  deriving DecidableEq

def step (s : State) : Action → State
  | .construct mask value =>
    let (field, g) := construct s.field mask value true
    ⟨field, g :: s.guards⟩
  | .destroy =>
    match s.guards with
    | [] => s
    | g :: guards => ⟨destroy s.field g, guards⟩

/-- All guards restore the old value, and there has to be one where one is destroyed. -/
def machine : Machine State Action Empty where
  legal s a := a = .destroy → s.guards ≠ []
  step s a := .ok (step s a)

lemma legal_construct (s : State) (mask : CInt) (value : Bool) :
    machine.legal s (.construct mask value) := by
  rintro ⟨⟩

lemma legal_destroy (field : CInt) (g : Guard) (guards : List Guard) :
    machine.legal ⟨field, g :: guards⟩ .destroy := fun _ => List.cons_ne_nil g guards

/-- The bits under the masks of the guards. -/
def covered (guards : List Guard) : CInt := guards.foldr (fun g bits => g.mask ||| bits) 0

/-- A new guard finds all bits of its mask set, or it finds none set but such as another guard
covers. -/
def Keeps (s : State) : Action → Prop
  | .construct mask _ =>
    s.field &&& mask = mask ∨ s.field &&& mask &&& ~~~covered s.guards = 0
  | .destroy => True

/-- The field when all guards are destroyed. -/
def unwind (s : State) : CInt := s.guards.foldl destroy s.field

/-! ### Bits -/

lemma getElem_set (field mask : CInt) (value : Bool) (i : Fin 32) :
    (set field mask value)[i] = if mask[i] then value else field[i] := by
  cases value <;> cases h : mask[i] <;> simp_all [set]

lemma getElem_covered_cons (g : Guard) (guards : List Guard) (i : Fin 32) :
    (covered (g :: guards))[i] = (g.mask[i] || (covered guards)[i]) := by
  simp [covered]

lemma get_iff {field mask : CInt} :
    get field mask = true ↔ ∀ i : Fin 32, mask[i] = true → field[i] = true := by
  simp only [get, decide_eq_true_eq, BitVec.eq_of_getElem_eq_iff]
  constructor
  · intro h i hi
    have hbit := h i i.isLt
    simp_all
  · intro h i hi
    have hbit := h ⟨i, hi⟩
    cases hmask : mask[i] <;> simp_all

/-- The guards decide the bits that they cover, and leave the others alone. -/
lemma getElem_unwind (field : CInt) (guards : List Guard) (i : Fin 32) :
    (unwind ⟨field, guards⟩)[i] =
      if (covered guards)[i] then (unwind ⟨0, guards⟩)[i] else field[i] := by
  induction guards generalizing field with
  | nil => simp [covered, unwind]
  | cons g guards ih =>
    have hcons : ∀ field, unwind ⟨field, g :: guards⟩ = unwind ⟨destroy field g, guards⟩ :=
      fun _ => rfl
    rw [hcons, hcons, ih, ih (destroy 0 g), getElem_covered_cons, destroy, destroy, getElem_set,
      getElem_set]
    cases g.mask[i] <;> cases (covered guards)[i] <;> rfl

/-- A guard that is destroyed at once leaves the value which it has kept. -/
lemma getElem_unwind_construct (s : State) (mask : CInt) (value : Bool) (i : Fin 32) :
    (unwind (step s (.construct mask value)))[i] =
      if !(covered s.guards)[i] && mask[i] then get s.field mask else (unwind s)[i] := by
  have hstep : unwind (step s (.construct mask value)) =
      unwind ⟨set (set s.field mask value) mask (get s.field mask), s.guards⟩ := rfl
  have hs : (unwind s)[i] = if (covered s.guards)[i] then (unwind ⟨0, s.guards⟩)[i] else s.field[i] :=
    getElem_unwind s.field s.guards i
  rw [hstep, getElem_unwind, getElem_set, getElem_set, hs]
  cases mask[i] <;> cases (covered s.guards)[i] <;> rfl

lemma unwind_destroy {s : State} (h : s.guards ≠ []) : unwind (step s .destroy) = unwind s := by
  obtain ⟨field, guards⟩ := s
  cases guards with
  | nil => exact absurd rfl h
  | cons g guards => rfl

/-- The bits that are left when all guards are destroyed. -/
def bits (s : State) (i : Fin 32) : Bool := (unwind s)[i]

lemma bits_inj {s s' : State} : bits s = bits s' ↔ unwind s = unwind s' := by
  rw [funext_iff, BitVec.eq_of_getElem_eq_iff]
  exact ⟨fun h i hi => h ⟨i, hi⟩, fun h i => h i i.isLt⟩

lemma bits_of_not_covered {s : State} {i : Fin 32} (h : (covered s.guards)[i] = false) :
    bits s i = s.field[i] := by
  have hbit := getElem_unwind s.field s.guards i
  rw [h] at hbit
  exact hbit

/-- No bit of a mask is left uncovered. -/
lemma and_not_eq_zero_iff {field mask outer : CInt} : field &&& mask &&& ~~~outer = 0 ↔
    ∀ i : Fin 32, mask[i] = true → outer[i] = false → field[i] = false := by
  rw [BitVec.eq_of_getElem_eq_iff]
  constructor
  · intro h i hmask houter
    have hbit := h i i.isLt
    simp_all
  · intro h i hi
    have hbit := h ⟨i, hi⟩
    cases hmask : mask[i] <;> cases houter : outer[i] <;> simp_all

/-- A guard can only lose bits, and it loses none if it keeps the flags. -/
lemma bits_construct (s : State) (mask : CInt) (value : Bool) :
    bits (step s (.construct mask value)) ≤ bits s ∧
      (bits (step s (.construct mask value)) = bits s ↔ Keeps s (.construct mask value)) := by
  have hbits : ∀ i, bits (step s (.construct mask value)) i =
      if !(covered s.guards)[i] && mask[i] then get s.field mask else bits s i :=
    getElem_unwind_construct s mask value
  constructor
  · intro i
    rw [hbits]
    split_ifs with h
    · simp only [Bool.and_eq_true, Bool.not_eq_true'] at h
      rw [bits_of_not_covered h.1]
      intro hget
      exact get_iff.mp hget i h.2
    · exact le_refl _
  · rw [Keeps, and_not_eq_zero_iff, funext_iff]
    simp only [hbits]
    by_cases hget : get s.field mask = true
    · refine iff_of_true (fun i => ?_) (.inl (of_decide_eq_true hget))
      split_ifs with h
      · simp only [Bool.and_eq_true, Bool.not_eq_true'] at h
        rw [bits_of_not_covered h.1, hget, get_iff.mp hget i h.2]
      · rfl
    · have hne : ¬ s.field &&& mask = mask := fun heq => hget (decide_eq_true heq)
      have hfalse : get s.field mask = false := Bool.eq_false_iff.mpr hget
      rw [or_iff_right hne, hfalse]
      refine forall_congr' fun i => ⟨fun h hmask hcovered => ?_, fun h => ?_⟩
      · rw [hmask, hcovered, bits_of_not_covered hcovered] at h
        exact h.symm
      · split_ifs with hi
        · simp only [Bool.and_eq_true, Bool.not_eq_true'] at hi
          rw [bits_of_not_covered hi.1, h hi.2 hi.1]
        · rfl

lemma step_bits (s : State) (a : Action) (h : machine.legal s a) :
    ∃ s', machine.step s a = .ok s' ∧ bits s' ≤ bits s ∧ (bits s' = bits s ↔ Keeps s a) := by
  refine ⟨step s a, rfl, ?_⟩
  cases a with
  | construct mask value => exact bits_construct s mask value
  | destroy =>
    have hbits := bits_inj.mpr (unwind_destroy (h rfl))
    exact ⟨hbits.le, iff_of_true hbits trivial⟩

/-- A guard on a single bit keeps the flags. -/
lemma keeps_twoPow (s : State) (i : Fin 32) (value : Bool) :
    Keeps s (.construct (BitVec.twoPow 32 i) value) := by
  rw [Keeps, and_not_eq_zero_iff]
  cases hi : s.field[i] with
  | true =>
    refine .inl (of_decide_eq_true (get_iff.mpr fun j hj => ?_))
    obtain rfl : i = j := by simpa [Fin.ext_iff, eq_comm] using hj
    exact hi
  | false =>
    refine .inr fun j hj _ => ?_
    obtain rfl : i = j := by simpa [Fin.ext_iff, eq_comm] using hj
    exact hi

/-- After all guards are destroyed the field is what it was, if and only if every guard found all
bits of its mask set, or none but such as another guard restores. -/
theorem field_restored_iff (field : CInt) (as : List Action) (hlegal : machine.Legal ⟨field, []⟩ as)
    (s' : State) (hrun : as.foldlM machine.step ⟨field, []⟩ = .ok s') (hend : s'.guards = []) :
    s'.field = field ↔ machine.Meets Keeps ⟨field, []⟩ as := by
  obtain ⟨s₁, hs₁, -, hiff⟩ := Machine.result_eq_iff_meets step_bits hlegal
  obtain rfl : s₁ = s' := Except.ok.inj (hs₁.symm.trans hrun)
  rw [← hiff, bits_inj, unwind, unwind, hend]
  rfl

theorem field_restored_iff_nested : (1 : CInt) = 1 ↔ machine.Meets Keeps ⟨1, []⟩
    [.construct 2 true, .construct 3 false, .destroy, .destroy] :=
  field_restored_iff 1 [.construct 2 true, .construct 3 false, .destroy, .destroy]
    (.cons (legal_construct _ _ _) rfl <| .cons (legal_construct _ _ _) rfl <|
      .cons (legal_destroy _ _ _) rfl <| .cons (legal_destroy _ _ _) rfl trivial)
    ⟨1, []⟩ rfl rfl

/-- A guard on two bits of which one is set loses this bit. -/
theorem not_field_restored_twoBits : ¬ ∀ (field : CInt) (as : List Action),
    machine.Legal ⟨field, []⟩ as → ∀ s' : State, as.foldlM machine.step ⟨field, []⟩ = .ok s' →
      s'.guards = [] → s'.field = field := by
  intro h
  have hfield := h 1 [.construct 3 true, .destroy]
    (.cons (legal_construct _ _ _) rfl <| .cons (legal_destroy _ _ _) rfl trivial) ⟨0, []⟩ rfl rfl
  exact absurd hfield (by decide)

end AutoFlag

end Utilmm
