import Courierust.Http.Str

/-!
# Addresses and networks

`IpAddr` with the parser and the printer of the standard library, and the `IpNet` of the
WebSocket handshake: an address with a prefix length.
-/

namespace Courierust.Net

open List
open Str

inductive IpAddr where
  | v4 (addr : BitVec 32)
  | v6 (addr : BitVec 128)
  deriving DecidableEq

/-! ### Parser -/

def toDigit (radix : ℕ) (c : Char) : Option ℕ :=
  let n := c.toNat
  let digit :=
    if isDigit c then some (n - 48)
    else if 97 ≤ n ∧ n ≤ 122 then some (n - 87)
    else if 65 ≤ n ∧ n ≤ 90 then some (n - 55)
    else none
  digit.filter (· < radix)

/-- `read_number`: at most `maxDigits` digits, with a value that fits the type. -/
def readNumber (radix maxDigits bound : ℕ) (allowZeroPrefix : Bool) (s : Text) :
    Option (ℕ × Text) :=
  let digits := s.takeWhile fun c => (toDigit radix c).isSome
  let n := digits.foldl (fun n c => radix * n + (toDigit radix c).getD 0) 0
  if maxDigits < digits.length ∨ digits.isEmpty then none
  else if allowZeroPrefix = false ∧ s.head? = some '0' ∧ 1 < digits.length then none
  else if n ≤ bound then some (n, s.drop digits.length)
  else none

def readGivenChar (target : Char) : Text → Option Text
  | [] => none
  | c :: s => if c = target then some s else none

def readIpv4Addr (s : Text) : Option (BitVec 32 × Text) := do
  let (a, s) ← readNumber 10 3 255 false s
  let (b, s) ← readGivenChar '.' s >>= readNumber 10 3 255 false
  let (c, s) ← readGivenChar '.' s >>= readNumber 10 3 255 false
  let (d, s) ← readGivenChar '.' s >>= readNumber 10 3 255 false
  pure (BitVec.ofNat 32 (((a * 256 + b) * 256 + c) * 256 + d), s)

/-- `read_groups`, with the number of groups that are left: the groups, whether they end with an
embedded IPv4 address, and the rest. -/
def readGroups : ℕ → Bool → Text → List ℕ × Bool × Text
  | 0, _, s => ([], false, s)
  | left + 1, first, s =>
    let next := if first then some s else readGivenChar ':' s
    match if 0 < left then next >>= readIpv4Addr else none with
    | some (addr, s) => ([addr.toNat / 2 ^ 16, addr.toNat % 2 ^ 16], true, s)
    | none =>
      match next >>= readNumber 16 4 65535 true with
      | none => ([], false, s)
      | some (group, s) =>
        let (groups, v4, s) := readGroups left false s
        (group :: groups, v4, s)

def ofGroups (groups : List ℕ) : BitVec 128 :=
  BitVec.ofNat 128 (groups.foldl (fun n group => 2 ^ 16 * n + group) 0)

def readIpv6Addr (s : Text) : Option (BitVec 128 × Text) :=
  let (head, headV4, s) := readGroups 8 true s
  if head.length = 8 then some (ofGroups head, s)
  else if headV4 then none
  else do
    let s ← readGivenChar ':' s
    let s ← readGivenChar ':' s
    let (tail, _, s) := readGroups (7 - head.length) true s
    pure (ofGroups (head ++ List.replicate (8 - head.length - tail.length) 0 ++ tail), s)

/-- `str::parse::<IpAddr>`. -/
def IpAddr.parse (s : Text) : Option IpAddr :=
  match readIpv4Addr s with
  | some (addr, rest) => if rest.isEmpty then some (.v4 addr) else none
  | none =>
    match readIpv6Addr s with
    | some (addr, rest) => if rest.isEmpty then some (.v6 addr) else none
    | none => none

example : IpAddr.parse "192.0.2.1".toList = some (.v4 0xc0000201) := by decide

example : IpAddr.parse "2001:db8::1".toList = some (.v6 0x20010db8000000000000000000000001) := by
  decide

/-! ### Printer -/

def groups (addr : BitVec 128) : List ℕ :=
  (List.range 8).map fun i => addr.toNat / 2 ^ (16 * (7 - i)) % 2 ^ 16

/-- `Display for Ipv4Addr`. -/
def displayV4 (addr : BitVec 32) : Text :=
  ['.'].intercalate ((List.range 4).map fun i => Nat.toDigits 10 (addr.toNat / 2 ^ (8 * (3 - i)) % 2 ^ 8))

/-- `fmt_subslice`. -/
def displayGroups (groups : List ℕ) : Text := [':'].intercalate (groups.map (Nat.toDigits 16))

def zeroSpan : ℕ → List ℕ → ℕ × ℕ → ℕ × ℕ → ℕ × ℕ
  | _, [], longest, _ => longest
  | i, group :: groups, longest, current =>
    if group = 0 then
      let current := (if current.2 = 0 then i else current.1, current.2 + 1)
      zeroSpan (i + 1) groups (if longest.2 < current.2 then current else longest) current
    else zeroSpan (i + 1) groups longest (0, 0)

/-- `Display for Ipv6Addr`. -/
def displayV6 (addr : BitVec 128) : Text :=
  let segments := groups addr
  -- `to_ipv4_mapped`
  if segments.take 6 = [0, 0, 0, 0, 0, 0xffff] then "::ffff:".toList ++ displayV4 (addr.setWidth 32)
  else
    let (start, len) := zeroSpan 0 segments (0, 0) (0, 0)
    if 1 < len then
      displayGroups (segments.take start) ++ "::".toList ++ displayGroups (segments.drop (start + len))
    else displayGroups segments

/-- `Display for IpAddr`. -/
def IpAddr.display : IpAddr → Text
  | .v4 addr => displayV4 addr
  | .v6 addr => displayV6 addr

example : (IpAddr.v6 0x20010db8000000000000000000000001).display = "2001:db8::1".toList := by decide

def addressChars : Text := "0123456789abcdef.:".toList

theorem mem_toDigitsCore {base : ℕ} (hbase : base ≤ 16) (hpos : 0 < base) (fuel n : ℕ)
    (acc : List Char) (hacc : ∀ c ∈ acc, c ∈ addressChars) :
    ∀ c ∈ Nat.toDigitsCore base fuel n acc, c ∈ addressChars := by
  have hdigit : ∀ d < 16, Nat.digitChar d ∈ addressChars := by decide
  induction fuel generalizing n acc with
  | zero => exact hacc
  | succ fuel ih =>
    have hcons := forall_mem_cons.2 ⟨hdigit _ ((Nat.mod_lt n hpos).trans_le hbase),hacc⟩
    rw [Nat.toDigitsCore]
    split_ifs
    · exact hcons
    · exact ih _ _ hcons

theorem mem_toDigits {base : ℕ} (hbase : base ≤ 16) (hpos : 0 < base) (n : ℕ) :
    ∀ c ∈ Nat.toDigits base n, c ∈ addressChars :=
  mem_toDigitsCore hbase hpos _ n [] (by simp)

theorem mem_intercalate {sep : Char} (hsep : sep ∈ addressChars) {parts : List Text}
    (h : ∀ part ∈ parts, ∀ c ∈ part, c ∈ addressChars) :
    ∀ c ∈ [sep].intercalate parts, c ∈ addressChars := by
  induction parts with
  | nil => simp
  | cons part parts ih =>
    obtain ⟨hpart,hparts⟩ := forall_mem_cons.1 h
    cases parts with
    | nil => simpa using hpart
    | cons next parts =>
      intro c hc
      rw [intercalate_cons_cons,append_assoc,mem_append,mem_append,
        mem_singleton] at hc
      rcases hc with hc | rfl | hc
      · exact hpart c hc
      · exact hsep
      · exact ih hparts c hc

theorem mem_displayV4 (addr : BitVec 32) : ∀ c ∈ displayV4 addr, c ∈ addressChars := by
  refine mem_intercalate (by decide) ?_
  simp only [mem_map]
  rintro _ ⟨i,-,rfl⟩
  exact mem_toDigits (by decide) (by decide) _

theorem mem_displayGroups (groups : List ℕ) : ∀ c ∈ displayGroups groups, c ∈ addressChars := by
  refine mem_intercalate (by decide) ?_
  simp only [mem_map]
  rintro _ ⟨group,-,rfl⟩
  exact mem_toDigits (by decide) (by decide) _

theorem mem_display (addr : IpAddr) : ∀ c ∈ addr.display, c ∈ addressChars := by
  have hcolons : ∀ c ∈ "::".toList, c ∈ addressChars := Str.forall_mem_of_all (by decide)
  have hmapped : ∀ c ∈ "::ffff:".toList, c ∈ addressChars := Str.forall_mem_of_all (by decide)
  cases addr with
  | v4 addr => exact mem_displayV4 addr
  | v6 addr =>
    simp only [IpAddr.display,displayV6]
    split_ifs
    · exact forall_mem_append.2 ⟨hmapped,mem_displayV4 _⟩
    · exact forall_mem_append.2
        ⟨forall_mem_append.2 ⟨mem_displayGroups _,hcolons⟩,mem_displayGroups _⟩
    · exact mem_displayGroups _

theorem intercalate_ne_nil (sep : Char) (part next : Text) (parts : List Text) :
    [sep].intercalate (part :: next :: parts) ≠ [] := by
  intro h
  rw [intercalate_cons_cons,append_eq_nil_iff,append_eq_nil_iff] at h
  exact cons_ne_nil _ _ h.1.2

theorem display_ne_nil (addr : IpAddr) : addr.display ≠ [] := by
  cases addr with
  | v4 addr => exact intercalate_ne_nil '.' _ _ _
  | v6 addr =>
    simp only [IpAddr.display,displayV6]
    split_ifs
    · simp
    · simp
    · exact intercalate_ne_nil ':' _ _ _

theorem display_spec (addr : IpAddr) :
    addr.display ≠ [] ∧ ',' ∉ addr.display ∧ trim addr.display = addr.display := by
  have hplain : ∀ c ∈ addressChars, c ≠ ',' ∧ isWhitespace c = false :=
    Str.forall_mem_of_all (by decide)
  refine ⟨display_ne_nil addr,fun h => (hplain _ (mem_display addr _ h)).1 rfl,trim_eq ?_ ?_⟩
  · intro c hc
    exact (hplain c (mem_display addr c (mem_of_mem_head? hc))).2
  · intro c hc
    exact (hplain c (mem_display addr c (mem_of_mem_getLast? hc))).2

/-! ### Networks -/

structure IpNet where
  addr : IpAddr
  prefixLen : ℕ

/-- The comparison of `contains` in one address family. -/
def sameNetwork {w : ℕ} (prefixLen : ℕ) (net ip : BitVec w) : Bool :=
  let bits := min prefixLen w
  if bits = 0 then true
  else
    let mask := BitVec.allOnes w <<< (w - bits)
    net &&& mask = ip &&& mask

/-- `contains`: a different family never matches. -/
def IpNet.contains (net : IpNet) (ip : IpAddr) : Bool :=
  match net.addr, ip with
  | .v4 addr, .v4 ip => sameNetwork net.prefixLen addr ip
  | .v6 addr, .v6 ip => sameNetwork net.prefixLen addr ip
  | _, _ => false

def isTrustedProxy (ip : IpAddr) (nets : List IpNet) : Bool := nets.any (·.contains ip)

end Courierust.Net
