import Utilmm.ConfigFile.Get
import Utilmm.Core.CString
import Utilmm.Core.Except
import Utilmm.Core.Regexp
import Utilmm.System.Endian
import Utilmm.System.UnixError

/-!
# Addresses of sockets

`base_socket::to_sockaddr` makes the bytes that the system gets for an address. A structure which
is not initialised has bytes of which nothing is known. The families are those of Linux.
-/

namespace Utilmm.System.SocketAddress

open Endian

inductive Domain
  | unix
  | inet
  deriving DecidableEq, Repr

inductive Thrown
  | badAddress
  | badLexicalCast
  | unixError
  deriving DecidableEq, Repr

inductive Failure
  | thrown (exception : Thrown)
  | buffer (fault : CString.Fault)

/-- A byte, or none that is known. -/
abbrev Cell : Type := Option (BitVec 8)

/-- What `gethostbyname` finds: the first address of the list. Of the list itself the bytes of two
pointers are given. -/
inductive Hostent
  | inet (addr : Vector (BitVec 8) 4)
  | inet6 (addr : Vector (BitVec 8) 16) (addrList : Vector (BitVec 8) 16)

def byte (c : Char) : BitVec 8 := BitVec.ofNat 8 c.toNat

def afUnix : Word .two := 1
def afInet : Word .two := 2
def afInet6 : Word .two := 10

/-- `UNIX_MAX_PATH`. -/
def unixMaxPath : Nat := 108

/-- What a host has in memory for a value. -/
def cells (host : Host) {w : Width} (x : Word w) : List Cell := (host.memory x).map some

/-- The name and the port of `rx_ip`: `^(.+):(\d+)$`. -/
def rxIp : Regexp Char :=
  .seq (.group 1 (.plus (.cls fun _ => true)))
    (.seq (.cls (· = ':')) (.group 2 (.plus (.cls Char.isDigit))))

/-- `lexical_cast<uint16_t>` of decimal digits. -/
def lexicalCastPort (digits : Str) : Option (Word .two) :=
  if decimal digits < 2 ^ 16 then some (BitVec.ofNat 16 (decimal digits)) else none

section

variable (host : Host)

/-- `to_sockaddr` of a path. -/
def toSockaddrUnix (address : Str) : Except Failure (List Cell) :=
  if address.length ≥ unixMaxPath then .error (.thrown .badAddress)
  else do
    let sunPath : Vector Cell unixMaxPath := Vector.replicate _ none
    let src : List Cell := address.map fun c => some (byte c)
    let sunPath ← (CString.strncpy (some 0) sunPath src (unixMaxPath - 1)).mapError .buffer
    let sunPath ← (CString.store sunPath (unixMaxPath - 1) (some 0)).mapError .buffer
    return cells host afUnix ++ sunPath.toList

/-- The structure for an address that `gethostbyname` has found. -/
def sockaddr (port : Word .two) : Hostent → List Cell
  | .inet addr =>
    let sinPort := host.toNetwork port
    cells host afInet ++ (cells host sinPort ++ (addr.toList.map some ++ List.replicate 8 none))
  | .inet6 _ addrList =>
    let sin6Port := host.toNetwork port
    let flowinfo : Word .four := 0
    cells host afInet6 ++ (cells host sin6Port ++ (cells host flowinfo ++
      -- what is copied is the list of pointers
      (addrList.toList.map some ++ List.replicate 4 none)))

/-- `base_socket::to_sockaddr`, where `gethostbyname` gets the name as a C string. -/
def toSockaddr (gethostbyname : Str → Option Hostent) (domain : Domain) (address : Str) :
    Except Failure (List Cell) :=
  match domain with
  | .unix => toSockaddrUnix host address
  | .inet =>
    match Regexp.fullMatch rxIp address with
    | none => .error (.thrown .badAddress)
    | some result =>
      let hostname := Regexp.capture result 1
      match lexicalCastPort (Regexp.capture result 2) with
      | none => .error (.thrown .badLexicalCast)
      | some port =>
        match gethostbyname (CString.text nul hostname) with
        | none => .error (.thrown .unixError)
        | some entry => .ok (sockaddr host port entry)

end

/-! ### What the system reads -/

/-- The bytes, if all of them are known. -/
def known (cells : List Cell) : Option (List (BitVec 8)) := cells.mapM id

/-- The family, in the order of the host. -/
def family (host : Host) (addr : List Cell) : Option (Word .two) :=
  (known (addr.take 2)).map (host.value .two)

/-- The path, up to its zero. -/
def path (addr : List Cell) : Option (List (BitVec 8)) :=
  (known (addr.drop 2)).map (CString.text 0)

/-- The port, in network order. -/
def port (addr : List Cell) : Option (Word .two) :=
  (known ((addr.drop 2).take 2)).map (Host.big.value .two)

/-- The bytes of an internet address. -/
def inetAddr (addr : List Cell) : Option (List (BitVec 8)) := known ((addr.drop 4).take 4)

def inet6Addr (addr : List Cell) : Option (List (BitVec 8)) := known ((addr.drop 8).take 16)

/-- The system finds the port and the address, or the pointers to it. -/
def Describes (host : Host) (addr : List Cell) (number : Nat) : Hostent → Prop
  | .inet bytes => addr.length = 16 ∧ family host addr = some afInet ∧
      port addr = some (BitVec.ofNat 16 number) ∧ inetAddr addr = some bytes.toList
  | .inet6 _ addrList => addr.length = 28 ∧ family host addr = some afInet6 ∧
      port addr = some (BitVec.ofNat 16 number) ∧ inet6Addr addr = some addrList.toList

/-- A name, a colon and the digits of a port. -/
structure IsAddress (address name digits : Str) : Prop where
  eq : address = name ++ ':' :: digits
  name_ne : name ≠ []
  digits_ne : digits ≠ []
  isDigit : ∀ c ∈ digits, c.isDigit

/-! ### Names and ports -/

section

variable {address name digits : Str}

lemma isAddress_iff : (∃ name digits, IsAddress address name digits) ↔ address ∈ rxIp.language := by
  rw [rxIp, Regexp.mem_language_seq]
  simp only [Regexp.mem_language_seq, Regexp.mem_language_group, Regexp.mem_language_plus_cls]
  constructor
  · rintro ⟨name, digits, rfl, hname, hdigits, hall⟩
    exact ⟨name, ':' :: digits, rfl, ⟨hname, fun _ _ => trivial⟩, [':'], digits, rfl,
      ⟨':', by simp, rfl⟩, hdigits, hall⟩
  · rintro ⟨name, -, rfl, ⟨hname, -⟩, -, digits, rfl, ⟨c, hc, rfl⟩, hdigits, hall⟩
    obtain rfl : c = ':' := by simpa using hc
    exact ⟨name, digits, rfl, hname, hdigits, hall⟩

lemma fullMatch_eq_none (h : ¬ ∃ name digits, IsAddress address name digits) :
    Regexp.fullMatch rxIp address = none :=
  Regexp.fullMatch_eq_none_iff.mpr (mt isAddress_iff.mpr h)

/-- The name ends at the last colon. -/
lemma fullMatch_eq_some (h : IsAddress address name digits) :
    Regexp.fullMatch rxIp address = some [(2, digits), (1, name)] := by
  obtain ⟨rfl, hname, hdigits, hall⟩ := h
  obtain ⟨a, name, rfl⟩ := List.exists_cons_of_ne_nil hname
  obtain ⟨d, digits, rfl⟩ := List.exists_cons_of_ne_nil hdigits
  -- what follows the name
  have hport : ∀ c, Regexp.exec (.seq (.cls (· = ':')) (.group 2 (.plus (.cls Char.isDigit))))
      (':' :: d :: digits) c Regexp.atEnd = some ((2, d :: digits) :: c) := by
    intro c
    have hrest : (d :: digits).dropWhile Char.isDigit = [] := by
      simpa [List.dropWhile_eq_nil_iff] using hall
    rw [List.dropWhile_cons_of_pos (hall d List.mem_cons_self)] at hrest
    rw [Regexp.exec, Regexp.exec_cls_cons (by simp), Regexp.exec,
      Regexp.exec_plus_cls _ d digits (hall d List.mem_cons_self) _ _ (by simp [hrest, Regexp.atEnd]),
      hrest]
    simp [Regexp.atEnd]
  have hother : ∀ c t, t <:+ d :: digits →
      Regexp.exec (.seq (.cls (· = ':')) (.group 2 (.plus (.cls Char.isDigit)))) t c
        Regexp.atEnd = none := by
    intro c t ht
    cases t with
    | nil => rfl
    | cons e t =>
      have he : e.isDigit := hall e (ht.subset List.mem_cons_self)
      have hne : e ≠ ':' := by
        rintro rfl
        simp at he
      simp [Regexp.exec, hne]
  rw [Regexp.fullMatch, rxIp, Regexp.exec, Regexp.exec, Regexp.plus, Regexp.exec, List.cons_append,
    Regexp.exec_cls_cons rfl, Regexp.exec_star_cls_of_last _ (fun _ _ => rfl)]
  · have hlength : (a :: (name ++ ':' :: d :: digits)).length - (':' :: d :: digits).length =
        (a :: name).length := by
      simp only [List.length_cons, List.length_append]
      omega
    rw [hport, hlength, ← List.cons_append, List.take_left]
  · rw [hport]
    rfl
  · intro t ht hne
    refine hother _ t ?_
    rcases List.suffix_cons_iff.mp ht with rfl | ht
    · exact absurd rfl hne
    · exact ht

end

/-! ### What is known -/

lemma known_map_some (bytes : List (BitVec 8)) : known (bytes.map some) = some bytes := by
  induction bytes with
  | nil => rfl
  | cons b bytes ih =>
    rw [known] at ih
    rw [known, List.map_cons, List.mapM_cons, ih]
    rfl

lemma length_cells (host : Host) {w : Width} (x : Word w) :
    (cells host x).length = w.bytes := by
  cases host <;> simp [cells, Host.memory]

lemma length_two (host : Host) (x : Word .two) : (cells host x).length = 2 := length_cells host x

/-- What the system finds in a structure which starts with a family. -/
lemma family_append (host : Host) (x : Word .two) (rest : List Cell) :
    family host (cells host x ++ rest) = some x := by
  rw [family, List.take_left' (length_two host x), cells, known_map_some, Option.map_some,
    Host.value_memory]

/-- The port is in network order, whatever the order of the host. -/
lemma port_append (host : Host) (x number : Word .two) (rest : List Cell) :
    port (cells host x ++ (cells host (host.toNetwork number) ++ rest)) = some number := by
  have hswapped : host.memory (host.toNetwork number) = Host.big.memory number :=
    host.memory_toBig number
  rw [port, List.drop_left' (length_two host x), List.take_left' (length_two host _), cells,
    known_map_some, hswapped, Option.map_some, Host.value_memory]

lemma describes_sockaddr (host : Host) (number : Nat) (entry : Hostent) :
    Describes host (sockaddr host (BitVec.ofNat 16 number) entry) number entry := by
  cases entry with
  | inet addr =>
    refine ⟨?_, family_append host afInet _, port_append host afInet _ _, ?_⟩
    · simp [sockaddr, length_two]
    · have hdrop : (sockaddr host (BitVec.ofNat 16 number) (.inet addr)).drop 4 =
          addr.toList.map some ++ List.replicate 8 none := by
        simp only [sockaddr]
        rw [← List.append_assoc]
        exact List.drop_left' (by simp [length_two])
      rw [inetAddr, hdrop, List.take_left' (by simp), known_map_some]
  | inet6 addr addrList =>
    refine ⟨?_, family_append host afInet6 _, port_append host afInet6 _ _, ?_⟩
    · simp only [sockaddr, List.length_append, length_cells, List.length_map, Vector.length_toList,
        List.length_replicate]
      rfl
    · have hdrop : (sockaddr host (BitVec.ofNat 16 number) (.inet6 addr addrList)).drop 8 =
          addrList.toList.map some ++ List.replicate 4 none := by
        simp only [sockaddr]
        rw [← List.append_assoc, ← List.append_assoc]
        exact List.drop_left' (by simp only [List.length_append, length_cells, Width.bytes])
      rw [inet6Addr, hdrop, List.take_left' (by simp), known_map_some]

/-- A path is copied up to its zero, with zeros behind it. -/
lemma toSockaddrUnix_eq (host : Host) {address : Str} (h : address.length < unixMaxPath) :
    ∃ zeros, 0 < zeros ∧ (CString.text 0 (address.map byte)).length + zeros = unixMaxPath ∧
      toSockaddrUnix host address = .ok (cells host afUnix ++
        (CString.text 0 (address.map byte) ++ List.replicate zeros 0).map some) := by
  let text := CString.text 0 (address.map byte)
  let src : List Cell := address.map fun c => some (byte c)
  have htext : CString.text (some 0) src = text.map some := by
    simp only [src, text, CString.text, List.takeWhile_map, List.map_map]
    exact congrArg (fun p => (address.takeWhile p).map _) (by funext c; simp)
  have hle : text.length ≤ 107 := by
    have hle := (List.takeWhile_prefix (· ≠ (0 : BitVec 8)) (l := address.map byte)).length_le
    rw [List.length_map] at hle
    exact hle.trans (Nat.le_of_lt_succ h)
  -- what `strncpy` writes
  have hcopied : (CString.text (some 0) src).take 107 ++
      List.replicate (107 - (CString.text (some 0) src).length) (some 0) =
        (text ++ List.replicate (107 - text.length) 0).map some := by
    rw [htext, List.take_of_length_le (by simpa using hle), List.length_map, List.map_append,
      List.map_replicate]
  obtain ⟨v₁, hv₁, hlist₁⟩ := CString.write_of_le (v := Vector.replicate unixMaxPath none) (i := 0)
    (s := (text ++ List.replicate (107 - text.length) 0).map some) (by
      simp only [List.length_map, List.length_append, List.length_replicate, unixMaxPath]
      omega)
  obtain ⟨v₂, hv₂, hlist₂⟩ := CString.store_of_lt (v := v₁) (i := 107) (by decide) (some 0)
  have hlength : ((text ++ List.replicate (107 - text.length) 0).map some).length = 107 := by
    simp only [List.length_map, List.length_append, List.length_replicate]
    omega
  have hvalue : v₂.toList = (text ++ List.replicate (108 - text.length) 0).map some := by
    have hzeros : 108 - text.length = (107 - text.length) + 1 := by omega
    rw [List.take_zero, List.nil_append, Nat.zero_add, hlength, Vector.toList_replicate,
      List.drop_replicate] at hlist₁
    have hlast : (List.replicate (unixMaxPath - 107) none).set (107 - 107) (some 0) =
        ([0] : List (BitVec 8)).map some := rfl
    rw [hlist₂, hlist₁, List.set_append_right _ _ hlength.le, hlength, hlast, hzeros,
      List.replicate_succ', ← List.append_assoc, ← List.map_append]
  refine ⟨108 - text.length, by omega, show text.length + (108 - text.length) = 108 by omega, ?_⟩
  have hmax : unixMaxPath - 1 = 107 := rfl
  have hcopy : CString.strncpy (some 0) (Vector.replicate unixMaxPath none) src 107 = .ok v₁ := by
    rw [CString.strncpy, hcopied, hv₁]
  rw [toSockaddrUnix, if_neg (Nat.not_le.mpr h), ← hvalue, hmax]
  simp only [src] at hcopy
  simp only [hcopy, hv₂, Except.mapError, Except.ok_bind]
  rfl

/-! ### Accepted addresses -/

/-- A path is refused if it is too long, and otherwise the system gets it up to its first zero. -/
lemma toSockaddr_unix (host : Host) (address : Str) :
    toSockaddrUnix host address = .error (.thrown .badAddress) ∧ 108 ≤ address.length ∨
      ∃ addr, toSockaddrUnix host address = .ok addr ∧ address.length < 108 ∧
        addr.length = 110 ∧ family host addr = some afUnix ∧
        path addr = some (CString.text 0 (address.map byte)) := by
  rcases Nat.lt_or_ge address.length 108 with hlt | hge
  · obtain ⟨zeros, hpos, hlength, hok⟩ := toSockaddrUnix_eq host hlt
    refine .inr ⟨_, hok, hlt, ?_, family_append host afUnix _, ?_⟩
    · rw [List.length_append, length_two, List.length_map, List.length_append,
        List.length_replicate, hlength]
      rfl
    · obtain ⟨zeros, rfl⟩ := Nat.exists_eq_succ_of_ne_zero hpos.ne'
      rw [path, List.drop_left' (length_two host afUnix), known_map_some, Option.map_some,
        List.replicate_succ, CString.text_append_nul CString.nul_notMem_text]
  · exact .inl ⟨if_pos hge, hge⟩

/-- `to_sockaddr` refuses a path exactly if it has 108 characters or more, and the system finds the
other ones up to their first zero. Of an internet address it refuses what has no name, colon and
digits at the end, then a port from 65536 on, then a name which is not found; otherwise the system
finds the port that the digits denote in network order, with the address that was found. Of
an IPv6 address it finds the list of pointers in place of the address. -/
theorem toSockaddr_describes (host : Host) (gethostbyname : Str → Option Hostent)
    (address : Str) :
    (toSockaddr host gethostbyname .unix address = .error (.thrown .badAddress) ∧
        108 ≤ address.length ∨
      ∃ addr, toSockaddr host gethostbyname .unix address = .ok addr ∧ address.length < 108 ∧
        addr.length = 110 ∧ family host addr = some afUnix ∧
        path addr = some (CString.text 0 (address.map byte))) ∧
    (toSockaddr host gethostbyname .inet address = .error (.thrown .badAddress) ∧
        (¬ ∃ name digits, IsAddress address name digits) ∨
      ∃ name digits, IsAddress address name digits ∧
        (toSockaddr host gethostbyname .inet address = .error (.thrown .badLexicalCast) ∧
            2 ^ 16 ≤ decimal digits ∨
          toSockaddr host gethostbyname .inet address = .error (.thrown .unixError) ∧
            decimal digits < 2 ^ 16 ∧ gethostbyname (CString.text nul name) = none ∨
          ∃ entry addr, toSockaddr host gethostbyname .inet address = .ok addr ∧
            decimal digits < 2 ^ 16 ∧ gethostbyname (CString.text nul name) = some entry ∧
            Describes host addr (decimal digits) entry)) := by
  refine ⟨toSockaddr_unix host address, ?_⟩
  by_cases haddress : ∃ name digits, IsAddress address name digits
  · obtain ⟨name, digits, h⟩ := haddress
    refine .inr ⟨name, digits, h, ?_⟩
    have hmatch := fullMatch_eq_some h
    have hname : Regexp.capture [(2, digits), (1, name)] 1 = name := rfl
    have hdigits : Regexp.capture [(2, digits), (1, name)] 2 = digits := rfl
    rcases Nat.lt_or_ge (decimal digits) (2 ^ 16) with hlt | hge
    · have hport : lexicalCastPort digits = some (BitVec.ofNat 16 (decimal digits)) := if_pos hlt
      cases hentry : gethostbyname (CString.text nul name) with
      | none =>
        refine .inr (.inl ⟨?_, hlt, rfl⟩)
        simp only [toSockaddr, hmatch, hname, hdigits, hport, hentry]
      | some entry =>
        refine .inr (.inr ⟨entry, _, ?_, hlt, rfl, describes_sockaddr host (decimal digits) entry⟩)
        simp only [toSockaddr, hmatch, hname, hdigits, hport, hentry]
    · have hport : lexicalCastPort digits = none := if_neg (Nat.not_lt.mpr hge)
      refine .inl ⟨?_, hge⟩
      simp only [toSockaddr, hmatch, hdigits, hport]
  · refine .inl ⟨?_, haddress⟩
    simp only [toSockaddr, fullMatch_eq_none haddress]

/-- On hosts of both orders the port 8080 has the same bytes. -/
example : [Host.little, .big].map (fun host => (toSockaddr host
    (fun _ => some (.inet (Vector.replicate 4 127))) .inet "localhost:8080".toList).toOption.map
      fun addr => (addr.drop 2).take 2) = List.replicate 2 (some [some 0x1F, some 0x90]) := by
  decide

end Utilmm.System.SocketAddress
