import Utilmm.Core.CString
import Utilmm.Core.Except
import Utilmm.Text

/-!
# The messages of system errors

A `unix_error` writes its message into a buffer of 512 characters: the description, cut to 500
characters, then a colon and the text of the error. The number of characters left for the text is a
subtraction of type `size_t`, from the length of the whole description. That length fits
`ptrdiff_t`, as for every `std::string`.
-/

namespace Utilmm.System

/-- The zero character. -/
def nul : Char := Char.ofNat 0

structure UnixError where
  mDesc : Vector Char 512
  mError : Int

namespace UnixError

variable (strerror : Int → Str)

def initDescription (e : UnixError) (desc : Str) : Except CString.Fault UnixError := do
  let descLen := BitVec.ofNat 64 desc.length
  let mDesc ← CString.strncpy nul e.mDesc desc 500
  let mDesc ← CString.store mDesc 500 nul
  let mDesc ← CString.strcat nul mDesc ": ".toList
  let mDesc ← CString.strncat nul mDesc (strerror e.mError) (500 - descLen).toNat
  return { e with mDesc }

/-- `unix_error(desc, error)`, in the memory of the new object. The error is `errno` by default. -/
def ofDescription (mDesc : Vector Char 512) (desc : Str) (error : Int) :
    Except CString.Fault UnixError :=
  initDescription strerror ⟨mDesc, error⟩ desc

/-- `unix_error(error)`. The error is `errno` by default. -/
def ofError (mDesc : Vector Char 512) (error : Int) : Except CString.Fault UnixError :=
  initDescription strerror ⟨mDesc, error⟩ []

def what (e : UnixError) : Str := CString.text nul e.mDesc.toList

/-- The description as a C string, cut to 500 characters. -/
def cut (desc : Str) : Str := (CString.text nul desc).take 500

/-- The limit of the last call. -/
def limit (desc : Str) : Nat := (500 - BitVec.ofNat 64 desc.length : BitVec 64).toNat

variable {strerror} {desc : Str}

lemma limit_of_le (h : desc.length ≤ 500) : limit desc = 500 - desc.length := by
  rw [limit]
  bv_omega

/-- For a long description the subtraction wraps around. -/
lemma limit_of_lt (hlong : 500 < desc.length) (hsize : desc.length < 2 ^ 63) : 509 < limit desc := by
  rw [limit]
  bv_omega

lemma length_cut_le (desc : Str) : (cut desc).length ≤ 500 := List.length_take_le _ _

lemma length_cut_le_length (desc : Str) : (cut desc).length ≤ desc.length :=
  (List.length_take_le' _ _).trans (List.takeWhile_sublist _).length_le

lemma cut_eq_take_iff : cut desc = desc.take 500 ↔ nul ∉ desc.take 500 := by
  have hcut : cut desc = CString.text nul (desc.take 500) := List.take_takeWhile
  rw [hcut]
  exact ⟨fun h => h ▸ CString.nul_notMem_text, CString.text_eq_self⟩

/-- The first three calls fit. -/
lemma exists_holds_cut (v : Vector Char 512) (desc : Str) :
    ∃ v₁ v₂ v₃, CString.strncpy nul v desc 500 = .ok v₁ ∧ CString.store v₁ 500 nul = .ok v₂ ∧
      CString.strcat nul v₂ ": ".toList = .ok v₃ ∧
      CString.Holds nul v₃ (cut desc ++ ": ".toList) := by
  obtain ⟨v₁, v₂, hv₁, hv₂, hholds⟩ :=
    CString.strncpy_store nul v (show 500 < 512 by decide) desc
  have hcolon : CString.text nul ": ".toList = ": ".toList := by decide
  have hlt : (cut desc).length + (CString.text nul ": ".toList).length < 512 := by
    have hle := length_cut_le desc
    rw [hcolon]
    simp
    omega
  obtain ⟨v₃, hv₃, hholds₃⟩ := CString.Holds.strcat_of_lt hholds hlt
  exact ⟨v₁, v₂, v₃, hv₁, hv₂, hv₃, hcolon ▸ hholds₃⟩

/-- The last call needs one more cell, for the zero. -/
lemma initDescription_of_le (strerror : Int → Str) (e : UnixError) (desc : Str)
    (h : (cut desc).length + ((CString.text nul (strerror e.mError)).take (limit desc)).length
      ≤ 509) :
    ∃ e', initDescription strerror e desc = .ok e' ∧ e'.mError = e.mError ∧
      CString.Holds nul e'.mDesc
        (cut desc ++ (": ".toList ++ (CString.text nul (strerror e.mError)).take (limit desc))) := by
  obtain ⟨v₁, v₂, v₃, hv₁, hv₂, hv₃, hholds⟩ := exists_holds_cut e.mDesc desc
  obtain ⟨v₄, hv₄, hholds₄⟩ := hholds.strncat_of_lt (s := strerror e.mError) (k := limit desc)
    (by rw [List.length_append]; simp at h ⊢; omega)
  refine ⟨{ e with mDesc := v₄ }, ?_, rfl, by rwa [List.append_assoc] at hholds₄⟩
  rw [limit] at hv₄
  simp only [initDescription, hv₁, hv₂, hv₃, hv₄, Except.ok_bind]
  rfl

lemma initDescription_of_lt (strerror : Int → Str) (e : UnixError) (desc : Str) (h : 509 <
      (cut desc).length + ((CString.text nul (strerror e.mError)).take (limit desc)).length) :
    ∃ fault, initDescription strerror e desc = .error fault := by
  obtain ⟨v₁, v₂, v₃, hv₁, hv₂, hv₃, hholds⟩ := exists_holds_cut e.mDesc desc
  obtain ⟨fault, hfault⟩ := hholds.strncat_of_le (s := strerror e.mError) (k := limit desc)
    (by rw [List.length_append]; simp at h ⊢; omega)
  refine ⟨fault, ?_⟩
  rw [limit] at hfault
  simp only [initDescription, hv₁, hv₂, hv₃, hfault, Except.ok_bind]
  rfl

/-- The text of the error gets its share of the 512 characters, except behind a long description,
where it is not limited. -/
lemma length_take_limit_le_iff (hsize : desc.length < 2 ^ 63) (text : Str) :
    (cut desc).length + (text.take (limit desc)).length ≤ 509 ↔
      desc.length ≤ 500 ∨ (cut desc).length + text.length ≤ 509 := by
  rw [List.length_take]
  rcases Nat.lt_or_ge 500 desc.length with hlong | hshort
  · have hlimit := limit_of_lt hlong hsize
    omega
  · have hlimit := limit_of_le hshort
    have hle := length_cut_le_length desc
    omega

/-- Without a description the message always fits. -/
lemma what_ofError (v : Vector Char 512) (error : Int) : ∃ e', ofError strerror v error = .ok e' ∧
    e'.mError = error ∧
    what e' = ": ".toList ++ (CString.text nul (strerror error)).take 500 := by
  have hcut : cut [] = [] := rfl
  have hlimit : limit [] = 500 := rfl
  obtain ⟨e', hok, herror, hholds⟩ := initDescription_of_le strerror ⟨v, error⟩ []
    (by rw [hcut, hlimit, List.length_nil, List.length_take]; omega)
  exact ⟨e', hok, herror, hholds.text_eq⟩

/-- The message fits and is the cut description with a part of the error text, unless a
description of more than 500 characters leaves too little room for the text. -/
theorem initDescription_fits_iff (strerror : Int → Str) (e : UnixError) (desc : Str)
    (hsize : desc.length < 2 ^ 63) :
    ((∃ e' part, initDescription strerror e desc = .ok e' ∧
        part <+: CString.text nul (strerror e.mError) ∧
        CString.Holds nul e'.mDesc (cut desc ++ (": ".toList ++ part))) ↔
      desc.length ≤ 500 ∨
        (cut desc).length + (CString.text nul (strerror e.mError)).length ≤ 509) ∧
    (cut desc = desc.take 500 ↔ nul ∉ desc.take 500) := by
  refine ⟨?_, cut_eq_take_iff⟩
  rw [← length_take_limit_le_iff hsize]
  constructor
  · rintro ⟨e', part, hok, -, -⟩
    by_contra hlt
    obtain ⟨fault, hfault⟩ := initDescription_of_lt strerror e desc (Nat.not_le.mp hlt)
    cases hok.symm.trans hfault
  · intro hle
    obtain ⟨e', hok, -, hholds⟩ := initDescription_of_le strerror e desc hle
    exact ⟨e', _, hok, List.take_prefix _ _, hholds⟩

theorem initDescription_fits_iff_noFile : ∃ e' part,
    initDescription (fun _ => "No such file".toList) ⟨Vector.replicate 512 nul, 2⟩ "open".toList =
        .ok e' ∧
      part <+: CString.text nul "No such file".toList ∧
      CString.Holds nul e'.mDesc (cut "open".toList ++ (": ".toList ++ part)) :=
  (initDescription_fits_iff (fun _ => "No such file".toList) ⟨Vector.replicate 512 nul, 2⟩
    "open".toList (by decide)).1.mpr (.inl (by decide))

/-- A description of 501 characters leaves no room for a text of 10. -/
theorem not_initDescription_fits_longDescription : ¬ ∃ e',
    initDescription (fun _ => "0123456789".toList) ⟨Vector.replicate 512 nul, 0⟩
      (List.replicate 501 'a') = .ok e' := by
  rintro ⟨e', hok⟩
  generalize hdesc : List.replicate 501 'a' = desc at hok
  have hlength : desc.length = 501 := hdesc ▸ List.length_replicate
  have hlimit := limit_of_lt (show 500 < desc.length by omega) (by omega)
  have hcut : cut desc = desc.take 500 := by
    refine cut_eq_take_iff.mpr fun hmem => ?_
    have ha := List.eq_of_mem_replicate (hdesc ▸ List.mem_of_mem_take hmem)
    exact absurd ha (by decide)
  have htext : CString.text nul "0123456789".toList = "0123456789".toList := by decide
  obtain ⟨fault, hfault⟩ := initDescription_of_lt (fun _ => "0123456789".toList)
    ⟨Vector.replicate 512 nul, 0⟩ desc (by
      have hten : "0123456789".toList.length = 10 := by decide
      rw [htext, hcut, List.length_take, List.length_take]
      omega)
  cases hok.symm.trans hfault

end UnixError

end Utilmm.System
