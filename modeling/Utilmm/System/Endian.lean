import Utilmm.Core.Bytes

/-!
# Byte orders

`utilmm::endian` swaps the bytes of a value between the order of the host and the two fixed orders.
A value of `n` bytes is a word, which is stored in memory in the order of the host.
-/

namespace Utilmm.System.Endian

/-- The sizes for which `swap_helper` is there. -/
inductive Width
  | one
  | two
  | four
  | eight
  deriving DecidableEq, Repr

/-- `sizeof`. -/
def Width.bytes : Width → Nat
  | .one => 1
  | .two => 2
  | .four => 4
  | .eight => 8

abbrev Word (w : Width) : Type := BitVec (8 * w.bytes)

/-- `swap_helper<1, uint8_t>` -/
def swapHelper1 (data : BitVec 8) : BitVec 8 := data

/-- `swap_helper<2, uint16_t>` -/
def swapHelper2 (data : BitVec 16) : BitVec 16 :=
  ((data >>> 8) &&& 0xFF) ||| ((data <<< 8) &&& 0xFF00)

/-- `swap_helper<4, uint32_t>` -/
def swapHelper4 (data : BitVec 32) : BitVec 32 :=
  ((data &&& 0xFF000000) >>> 24) ||| ((data &&& 0x00FF0000) >>> 8) ||| ((data &&& 0xFF) <<< 24) |||
    ((data &&& 0xFF00) <<< 8)

/-- `swap_helper<8, uint64_t>` -/
def swapHelper8 (data : BitVec 64) : BitVec 64 :=
  let srcLow : BitVec 32 := (data &&& 0xFFFFFFFF).setWidth 32
  let srcHigh : BitVec 32 := (data >>> 32).setWidth 32
  let dstLow := swapHelper4 srcHigh
  let dstHigh := swapHelper4 srcLow
  (dstHigh.setWidth 64 <<< 32) ||| dstLow.setWidth 64

/-- `swap` -/
def swap : {w : Width} → Word w → Word w
  | .one => swapHelper1
  | .two => swapHelper2
  | .four => swapHelper4
  | .eight => swapHelper8

/-- The byte order of a host, which is big with `WORDS_BIGENDIAN`. -/
inductive Host
  | little
  | big
  deriving DecidableEq, Repr

namespace Host

variable {w : Width}

/-- `to_big` -/
def toBig : Host → Word w → Word w
  | .big, source => source
  | .little, source => swap source

/-- `to_little` -/
def toLittle : Host → Word w → Word w
  | .big, source => swap source
  | .little, source => source

/-- `from_big` -/
def fromBig (host : Host) (source : Word w) : Word w := host.toBig source

/-- `from_little` -/
def fromLittle (host : Host) (source : Word w) : Word w := host.toLittle source

/-- `to_network` -/
def toNetwork (host : Host) (source : Word w) : Word w := host.toBig source

/-- What the host has in memory for a value, from the lowest address on. -/
def memory : Host → Word w → List (BitVec 8)
  | .little, x => Bytes.ofWord w.bytes x
  | .big, x => (Bytes.ofWord w.bytes x).reverse

/-- The value which the host sees in memory. -/
def value (w : Width) : Host → List (BitVec 8) → Word w
  | .little, bytes => Bytes.toWord _ bytes
  | .big, bytes => Bytes.toWord _ bytes.reverse

end Host

/-! ### The bytes of a swapped word -/

lemma ofWord_swapHelper2 (data : BitVec 16) :
    Bytes.ofWord 2 (swapHelper2 data) = (Bytes.ofWord 2 data).reverse := by
  refine Bytes.ofWord_eq_reverse fun i hi => ?_
  interval_cases i <;> (ext j hj; interval_cases j <;> simp [swapHelper2])

lemma ofWord_swapHelper4 (data : BitVec 32) :
    Bytes.ofWord 4 (swapHelper4 data) = (Bytes.ofWord 4 data).reverse := by
  refine Bytes.ofWord_eq_reverse fun i hi => ?_
  interval_cases i <;> (ext j hj; interval_cases j <;> simp [swapHelper4])

/-- The halves are swapped, and each of them is. -/
lemma swapHelper8_eq (data : BitVec 64) : swapHelper8 data =
    swapHelper4 (data.extractLsb' 0 32) ++ swapHelper4 (data.extractLsb' 32 32) := by
  have hlow : (data &&& 0xFFFFFFFF).setWidth 32 = data.extractLsb' 0 32 := by
    ext j hj
    interval_cases j <;> simp
  have hhigh : (data >>> 32).setWidth 32 = data.extractLsb' 32 32 := by
    ext j hj
    simp
  rw [swapHelper8, hlow, hhigh, ← BitVec.setWidth_append_eq_shiftLeft_setWidth_or]
  exact BitVec.setWidth_eq _

lemma ofWord_swapHelper8 (data : BitVec 64) :
    Bytes.ofWord 8 (swapHelper8 data) = (Bytes.ofWord 8 data).reverse := by
  have hdata : data = data.extractLsb' 32 32 ++ data.extractLsb' 0 32 :=
    (@BitVec.extractLsb'_append_extractLsb' 32 32 data).symm
  rw [swapHelper8_eq, Bytes.ofWord_append 4 4 _ _ rfl, ofWord_swapHelper4, ofWord_swapHelper4,
    ← List.reverse_append, ← Bytes.ofWord_append 4 4 _ _ rfl, ← hdata]

/-- `swap` turns the bytes of a value around. -/
lemma ofWord_swap : ∀ {w : Width} (x : Word w),
    Bytes.ofWord w.bytes (swap x) = (Bytes.ofWord w.bytes x).reverse
  | .one, _ => rfl
  | .two, x => ofWord_swapHelper2 x
  | .four, x => ofWord_swapHelper4 x
  | .eight, x => ofWord_swapHelper8 x

/-- To swap twice changes nothing. -/
lemma swap_swap {w : Width} (x : Word w) : swap (swap x) = x := by
  rw [← Bytes.toWord_ofWord rfl (swap (swap x)), ofWord_swap, ofWord_swap, List.reverse_reverse,
    Bytes.toWord_ofWord rfl]

namespace Host

variable {w : Width}

/-- A host reads what it has written. -/
lemma value_memory (host : Host) (x : Word w) : host.value w (host.memory x) = x := by
  cases host with
  | little => exact Bytes.toWord_ofWord rfl x
  | big =>
    rw [value, memory, List.reverse_reverse]
    exact Bytes.toWord_ofWord rfl x

/-- What `to_big` returns lies in memory from the highest byte to the lowest. -/
lemma memory_toBig (host : Host) (x : Word w) :
    host.memory (host.toBig x) = (Bytes.ofWord w.bytes x).reverse := by
  cases host with
  | little => exact ofWord_swap x
  | big => rfl

lemma memory_toLittle (host : Host) (x : Word w) :
    host.memory (host.toLittle x) = Bytes.ofWord w.bytes x := by
  cases host with
  | little => rfl
  | big => rw [toLittle, memory, ofWord_swap, List.reverse_reverse]

end Host

/-- A value that one host writes in network order or in little order lies in memory in the same way
on every host, and every host reads the value back. -/
theorem exchange (sender receiver : Host) {w : Width} (x : Word w) :
    (sender.memory (sender.toNetwork x) = (Bytes.ofWord w.bytes x).reverse ∧
      receiver.fromBig (receiver.value w (sender.memory (sender.toNetwork x))) = x) ∧
    sender.memory (sender.toLittle x) = Bytes.ofWord w.bytes x ∧
      receiver.fromLittle (receiver.value w (sender.memory (sender.toLittle x))) = x := by
  have hbig : sender.memory (sender.toNetwork x) = receiver.memory (receiver.toNetwork x) := by
    rw [Host.toNetwork, Host.toNetwork, Host.memory_toBig, Host.memory_toBig]
  have hlittle : sender.memory (sender.toLittle x) = receiver.memory (receiver.toLittle x) := by
    rw [Host.memory_toLittle, Host.memory_toLittle]
  refine ⟨⟨Host.memory_toBig sender x, ?_⟩, Host.memory_toLittle sender x, ?_⟩
  · rw [hbig, Host.value_memory, Host.toNetwork, Host.fromBig]
    cases receiver with
    | little => exact swap_swap x
    | big => rfl
  · rw [hlittle, Host.value_memory, Host.fromLittle]
    cases receiver with
    | little => rfl
    | big => exact swap_swap x

/-- The values of the test of the repository. -/
example : swap (w := .four) 0x76543210 = 0x10325476 ∧
    swap (w := .eight) 0xfedcba9876543210 = 0x1032547698badcfe := by
  decide

end Utilmm.System.Endian
