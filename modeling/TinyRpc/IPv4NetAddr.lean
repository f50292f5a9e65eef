/-
TinyRpc/IPv4NetAddr.lean

Addresses, from the text of one and back.

The constructor cuts the text at its first colon.  What stands behind it goes through
`atoi`, which reads as many digits as there are and takes a sign, white space and
anything behind the digits along, and then into sixteen bits.  `check_valid` looks at
the ip alone; its check of the port is commented out, and would find nothing in those
sixteen bits.  So texts whose port is no port at all pass, as some other port.

`meant_iff`: an address that passes is the one that its text says in exactly the cases
in which the port is a decimal number that fits, and the ip has no NUL.

`inetAddr` is `inet_addr`, of which only this is asked: it accepts no text but those of
IPv4 addresses.
-/
import TinyRpc.Base.Bytes
import TinyRpc.Base.Decimal

namespace TinyRpc

open Bytes Decimal

/-! ### The C library -/

/-- `isspace`. -/
def isSpace (c : UInt8) : Bool := c = 32 ∨ 9 ≤ c ∧ c ≤ 13

/-- The nearest value of a `long`. -/
def clampLong (x : Int) : Int := max (-9223372036854775808) (min x 9223372036854775807)

/-- The digits at the start. -/
def leadingNumber (s : List UInt8) : Int := value (s.takeWhile IsDigit)

/-- `strtol`, base ten. -/
def strtol (s : List UInt8) : Int :=
  let s := (cString s).dropWhile isSpace
  if s.head? = some 45 then clampLong (-leadingNumber s.tail)
  else if s.head? = some 43 then clampLong (leadingNumber s.tail)
  else clampLong (leadingNumber s)

def atoi (s : List UInt8) : Int32 := Int32.ofInt (strtol s)

/-- The two bytes of a `uint16_t`, the other way round. -/
def swapBytes (p : UInt16) : UInt16 := UInt16.ofNat (p.toNat % 256 * 256 + p.toNat / 256)

def htons (p : UInt16) : UInt16 := swapBytes p

def ntohs (p : UInt16) : UInt16 := swapBytes p

/-- `INADDR_NONE`. -/
def inaddrNone : UInt32 := 4294967295

/-- `AF_INET`. -/
def afInet : UInt16 := 2

/-! ### The class -/

structure SockaddrIn where
  sinFamily : UInt16 := 0
  sinPort : UInt16 := 0
  sinAddr : UInt32 := 0
  deriving DecidableEq

structure IPv4NetAddr where
  /-- `m_ip` -/
  ip : List UInt8 := []
  /-- `m_port` -/
  port : UInt16 := 0
  /-- `m_addr` -/
  addr : SockaddrIn := {}
  deriving DecidableEq

/-- `':'`. -/
def colon : UInt8 := 58

namespace IPv4NetAddr

variable (inetAddr : List UInt8 → UInt32)

/-- `IPv4NetAddr(std::string_view addr)`. -/
def ofText (addr : List UInt8) : IPv4NetAddr :=
  match addr.findIdx? (· = colon) with
  | none => {}
  | some pos =>
      let ip := addr.take pos
      let tempPort := addr.drop (pos + 1)
      let port := UInt16.ofInt (atoi tempPort).toInt
      { ip := ip
        port := port
        addr := { sinFamily := afInet, sinPort := htons port, sinAddr := inetAddr (cString ip) } }

def checkValid (a : IPv4NetAddr) : Bool :=
  if a.ip = [] then false
  else if inetAddr (cString a.ip) = inaddrNone then false
  else true

def toString (a : IPv4NetAddr) : List UInt8 := a.ip ++ colon :: numeral a.port.toNat

end IPv4NetAddr

/-! ### What a text says -/

def IsHexDigit (c : UInt8) : Prop := IsDigit c ∨ 65 ≤ c ∧ c ≤ 70 ∨ 97 ≤ c ∧ c ≤ 102

/-- A number of an IPv4 address: decimal or octal digits, or `0x` and hexadecimal ones. -/
inductive IPv4Number : List UInt8 → Prop
  | digits {s} (hs : s ≠ []) (h : ∀ c ∈ s, IsDigit c) : IPv4Number s
  | hex {x s} (hx : x = 88 ∨ x = 120) (hs : s ≠ []) (h : ∀ c ∈ s, IsHexDigit c) :
      IPv4Number (48 :: x :: s)

/-- `n` numbers with dots between them. -/
inductive IPv4Numbers : Nat → List UInt8 → Prop
  | one {s} (h : IPv4Number s) : IPv4Numbers 1 s
  | cons {n s t} (h : IPv4Number s) (ht : IPv4Numbers n t) : IPv4Numbers (n + 1) (s ++ 46 :: t)

/-- The text of an IPv4 address, in numbers and dots. -/
def IPv4Text (s : List UInt8) : Prop := ∃ n ≤ 4, IPv4Numbers n s

/-- A decimal number between 0 and 65535. -/
structure IsPort (s : List UInt8) : Prop where
  ne_nil : s ≠ []
  digits : ∀ c ∈ s, IsDigit c
  value_le : value s ≤ 65535

/-- The address is the one that the text says: the ip is there, the port is a decimal number, and
both ports are that number; and printed and read again, it has the same ip and port. -/
structure Meant (inetAddr : List UInt8 → UInt32) (s : List UInt8) : Prop where
  form : ∃ ip port, s = ip ++ colon :: port ∧ colon ∉ ip ∧ IPv4Text ip ∧ IsPort port ∧
    (IPv4NetAddr.ofText inetAddr s).ip = ip ∧
    (IPv4NetAddr.ofText inetAddr s).port.toNat = value port ∧
    (ntohs (IPv4NetAddr.ofText inetAddr s).addr.sinPort).toNat = value port
  again : (IPv4NetAddr.ofText inetAddr (IPv4NetAddr.ofText inetAddr s).toString).ip =
      (IPv4NetAddr.ofText inetAddr s).ip ∧
    (IPv4NetAddr.ofText inetAddr (IPv4NetAddr.ofText inetAddr s).toString).port =
      (IPv4NetAddr.ofText inetAddr s).port

/-! ### Ports -/

theorem toNat_swapBytes (p : UInt16) :
    (swapBytes p).toNat = p.toNat % 256 * 256 + p.toNat / 256 := by
  have hlt : p.toNat < 65536 := p.toNat_lt
  rw [swapBytes, UInt16.toNat_ofNat']
  omega

theorem swapBytes_swapBytes (p : UInt16) : swapBytes (swapBytes p) = p := by
  apply UInt16.toNat_inj.mp
  have hlt : p.toNat < 65536 := p.toNat_lt
  have hlow : (swapBytes p).toNat % 256 = p.toNat / 256 := by
    rw [toNat_swapBytes]
    omega
  have hhigh : (swapBytes p).toNat / 256 = p.toNat % 256 := by
    rw [toNat_swapBytes]
    omega
  rw [toNat_swapBytes, hlow, hhigh]
  omega

theorem IsPort.value_lt {s : List UInt8} (h : IsPort s) : value s < 65536 :=
  Nat.lt_succ_of_le h.value_le

theorem not_isDigit_zero : ¬ IsDigit 0 := by decide

/-- A digit is no white space and no sign. -/
theorem not_isSpace_of_isDigit {c : UInt8} (h : IsDigit c) : ¬ isSpace c = true := by
  intro hspace
  rcases of_decide_eq_true hspace with rfl | ⟨-, hle⟩
  · exact absurd h (by decide)
  · exact absurd (UInt8.le_trans h.1 hle) (by decide)

theorem strtol_of_digits {s : List UInt8} (h : ∀ c ∈ s, IsDigit c) :
    strtol s = clampLong (value s) := by
  have hstring : cString s = s := cString_of_not_mem fun hmem => not_isDigit_zero (h 0 hmem)
  have hspace : s.dropWhile isSpace = s := by
    rw [List.dropWhile_eq_self_iff]
    exact fun hl => not_isSpace_of_isDigit (h _ (List.getElem_mem hl))
  have hdigits : s.takeWhile IsDigit = s := by
    rw [List.takeWhile_eq_self_iff]
    exact fun c hc => decide_eq_true (h c hc)
  have hsign : ∀ sign : UInt8, ¬ IsDigit sign → s.head? ≠ some sign := fun sign hnot hhead =>
    hnot (h sign (List.mem_of_head? hhead))
  unfold strtol
  rw [hstring, hspace]
  dsimp only
  rw [if_neg (hsign 45 (by decide)), if_neg (hsign 43 (by decide)), leadingNumber, hdigits]

/-- `atoi` reads a string of digits as the number that it is, if it fits. -/
theorem atoi_of_digits {s : List UInt8} (h : ∀ c ∈ s, IsDigit c) (hlt : value s < 2147483648) :
    (atoi s).toInt = value s := by
  have hclamp : clampLong (value s) = value s := by
    unfold clampLong
    omega
  rw [atoi, strtol_of_digits h, hclamp]
  exact Int32.toInt_ofInt_of_le (by omega) (by omega)

/-- The sixteen bits of a port that fits. -/
theorem IsPort.ofInt_atoi {s : List UInt8} (h : IsPort s) :
    (UInt16.ofInt (atoi s).toInt).toNat = value s := by
  have hlt := h.value_lt
  rw [atoi_of_digits h.digits (by omega)]
  show (UInt16.ofNat ((value s : Int) % 65536).toNat).toNat = value s
  rw [UInt16.toNat_ofNat']
  omega

theorem isPort_numeral (p : UInt16) : IsPort (numeral p.toNat) := by
  have hlt : p.toNat < 65536 := p.toNat_lt
  refine ⟨numeral_ne_nil _, fun c hc => isDigit_numeral hc, ?_⟩
  rw [value_numeral]
  omega

/-! ### Texts -/

section Texts

variable {inetAddr : List UInt8 → UInt32} {s ip port : List UInt8}

theorem iPv4Number_of_all (hs : s ≠ []) (h : s.all IsDigit = true) : IPv4Number s :=
  .digits hs fun c hc => of_decide_eq_true (List.all_eq_true.mp h c hc)

theorem IPv4Number.zero_not_mem (h : IPv4Number s) : 0 ∉ s := by
  intro hmem
  cases h with
  | digits hs hdigits => exact absurd (hdigits 0 hmem) (by decide)
  | hex hx hs hdigits =>
      rcases List.mem_cons.mp hmem with hzero | hmem
      · exact absurd hzero (by decide)
      · rcases List.mem_cons.mp hmem with rfl | hmem
        · exact absurd hx (by decide)
        · have hdigit := hdigits 0 hmem
          unfold IsHexDigit at hdigit
          exact absurd hdigit (by decide)

theorem IPv4Numbers.zero_not_mem {n : Nat} (h : IPv4Numbers n s) : 0 ∉ s := by
  induction h with
  | one h => exact h.zero_not_mem
  | cons h _ ih =>
      intro hmem
      rcases List.mem_append.mp hmem with hs | ht
      · exact h.zero_not_mem hs
      · rcases List.mem_cons.mp ht with hdot | ht
        · exact absurd hdot (by decide)
        · exact ih ht

/-- The text is cut at its first colon. -/
theorem ofText_first (hip : colon ∉ ip) :
    IPv4NetAddr.ofText inetAddr (ip ++ colon :: port) =
      { ip := ip
        port := UInt16.ofInt (atoi port).toInt
        addr :=
          { sinFamily := afInet
            sinPort := htons (UInt16.ofInt (atoi port).toInt)
            sinAddr := inetAddr (cString ip) } } := by
  unfold IPv4NetAddr.ofText
  rw [findIdx?_first hip]
  simp

/-- A text without a colon makes an address without an ip. -/
theorem colon_mem_of_checkValid
    (h : (IPv4NetAddr.ofText inetAddr s).checkValid inetAddr = true) : colon ∈ s := by
  by_contra hnot
  unfold IPv4NetAddr.ofText at h
  rw [findIdx?_none hnot] at h
  exact nomatch h

/-- **An address printed and read again** has the same ip and port. -/
theorem ofText_toString {a : IPv4NetAddr} (hip : colon ∉ a.ip) :
    (IPv4NetAddr.ofText inetAddr a.toString).ip = a.ip ∧
      (IPv4NetAddr.ofText inetAddr a.toString).port = a.port := by
  rw [IPv4NetAddr.toString, ofText_first hip]
  refine ⟨rfl, UInt16.toNat_inj.mp ?_⟩
  show (UInt16.ofInt (atoi (numeral a.port.toNat)).toInt).toNat = a.port.toNat
  rw [(isPort_numeral a.port).ofInt_atoi, value_numeral]

/-- What an address means is a port behind the colon, and no NUL before it. -/
theorem Meant.before_behind (h : Meant inetAddr s) :
    0 ∉ before colon s ∧ IsPort (behind colon s) := by
  obtain ⟨⟨ip, port, rfl, hip, ⟨n, -, htext⟩, hport, -⟩, -⟩ := h
  obtain ⟨hbefore, hbehind⟩ := before_behind_first (b := port) hip
  rw [hbefore, hbehind]
  exact ⟨htext.zero_not_mem, hport⟩

/-- An ip that passes is the text of an address, if it has no NUL. -/
theorem iPv4Text_of_checkValid (haccepts : ∀ t, inetAddr t ≠ inaddrNone → IPv4Text t)
    {a : IPv4NetAddr} (hvalid : a.checkValid inetAddr = true) (hzero : 0 ∉ a.ip) :
    IPv4Text a.ip := by
  unfold IPv4NetAddr.checkValid at hvalid
  split at hvalid
  · exact nomatch hvalid
  · split at hvalid
    · exact nomatch hvalid
    · rename_i hne
      rw [cString_of_not_mem hzero] at hne
      exact haccepts a.ip hne

/-- **An address that passes is the one that its text says** if and only if what stands behind the
first colon is a port and what stands before it has no NUL. -/
theorem meant_iff (haccepts : ∀ t, inetAddr t ≠ inaddrNone → IPv4Text t)
    (hvalid : (IPv4NetAddr.ofText inetAddr s).checkValid inetAddr = true) :
    Meant inetAddr s ↔ 0 ∉ before colon s ∧ IsPort (behind colon s) := by
  refine ⟨Meant.before_behind, ?_⟩
  obtain ⟨ip, port, rfl, hip⟩ := List.eq_append_cons_of_mem (colon_mem_of_checkValid hvalid)
  obtain ⟨hbefore, hbehind⟩ := before_behind_first (b := port) hip
  rw [hbefore, hbehind]
  rintro ⟨hzero, hport⟩
  have hof := @ofText_first inetAddr ip port hip
  have htext : IPv4Text ip := by
    rw [hof] at hvalid
    exact iPv4Text_of_checkValid haccepts hvalid hzero
  refine ⟨⟨ip, port, rfl, hip, htext, hport, ?_⟩, ofText_toString ?_⟩
  · rw [hof]
    refine ⟨rfl, hport.ofInt_atoi, ?_⟩
    show (swapBytes (swapBytes _)).toNat = value port
    rw [swapBytes_swapBytes, hport.ofInt_atoi]
  · rwa [hof]

end Texts

/-- `127.0.0.1`. -/
def loopbackText : List UInt8 := [49, 50, 55, 46, 48, 46, 48, 46, 49]

/-- `inet_addr`, as far as it knows this address only. -/
def loopback (t : List UInt8) : UInt32 := if t = loopbackText then 16777343 else inaddrNone

theorem loopback_accepts (t : List UInt8) (h : loopback t ≠ inaddrNone) : IPv4Text t := by
  have ht : t = loopbackText := by
    by_contra hne
    exact h (if_neg hne)
  have hfirst : IPv4Number [49, 50, 55] := iPv4Number_of_all (by decide) rfl
  have hzero : IPv4Number [48] := iPv4Number_of_all (by decide) rfl
  have hlast : IPv4Number [49] := iPv4Number_of_all (by decide) rfl
  rw [ht]
  exact ⟨4, le_rfl, .cons hfirst (.cons hzero (.cons hzero (.one hlast)))⟩

/-- `127.0.0.1:80`. -/
theorem meant_iff_loopback :
    Meant loopback (loopbackText ++ [58, 56, 48]) ↔
      0 ∉ before colon (loopbackText ++ [58, 56, 48]) ∧
        IsPort (behind colon (loopbackText ++ [58, 56, 48])) :=
  meant_iff loopback_accepts (by decide)

/-- `127.0.0.1:65616` passes, and its port is 80. -/
theorem not_meant_65616 :
    (IPv4NetAddr.ofText loopback (loopbackText ++ [58, 54, 53, 54, 49, 54])).port = 80 ∧
      ¬ ∀ inetAddr : List UInt8 → UInt32, (∀ t, inetAddr t ≠ inaddrNone → IPv4Text t) →
        ∀ s, (IPv4NetAddr.ofText inetAddr s).checkValid inetAddr = true → Meant inetAddr s := by
  refine ⟨by decide, fun h => ?_⟩
  have hmeant := h loopback loopback_accepts (loopbackText ++ [58, 54, 53, 54, 49, 54]) (by decide)
  exact absurd hmeant.before_behind.2.value_le (by decide)

end TinyRpc
