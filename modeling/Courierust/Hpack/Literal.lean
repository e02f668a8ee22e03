import Courierust.Hpack.HuffmanExact
import Courierust.Lib.Reader
import Courierust.Num

/-!
# HPACK integers and string literals

`read_int`, `write_int`, `read_string` and `write_string` of `courierust_hpack`
(RFC 7541 §5). The readers take the octets after the first one and hand back what
they leave.
-/

namespace Courierust

open List

namespace Hpack

/-! ### Integers -/

/-- The loop of `read_int` over the continuation octets. The shift stays below the word
    width, so `checked_shl` never fails; it drops what it shifts out. -/
def readIntFrom : List UInt8 → ℕ → ℕ → Except Error (ℕ × List UInt8)
  | [], _, _ => .error (Error.protocol "HPACK: truncated integer")
  | b :: input, shift, val =>
    let part := ((b &&& 0x7f).toNat <<< shift) % 2 ^ 64
    match checkedAdd val part with
    | none => .error (Error.overflow "HPACK: integer overflow")
    | some val =>
      if b &&& 0x80 = 0 then .ok (val, input)
      else if 64 ≤ shift + 7 then .error (Error.overflow "HPACK: integer too large")
      else readIntFrom input (shift + 7) val

/-- `read_int`: `bits` is the value in the `n`-bit prefix of the first octet. -/
def readInt (n : ℕ) (bits : UInt8) (input : List UInt8) : Except Error (ℕ × List UInt8) :=
  if bits.toNat < 2 ^ n - 1 then .ok (bits.toNat, input) else readIntFrom input 0 bits.toNat

/-- The continuation octets of `write_int`, seven bits each, lowest first. -/
def intTailFrom : ℕ → ℕ → List UInt8
  | 0, v => [UInt8.ofNat v]
  | fuel + 1, v =>
    if 128 ≤ v then (UInt8.ofNat (v % 128) ||| 0x80) :: intTailFrom fuel (v / 128)
    else [UInt8.ofNat v]

/-- `write_int`: `flags` holds the bits above the `n`-bit prefix. -/
def writeInt (flags : UInt8) (n value : ℕ) : List UInt8 :=
  let maxPrefix := 2 ^ n - 1
  if value < maxPrefix then [flags ||| UInt8.ofNat value]
  else (flags ||| UInt8.ofNat maxPrefix) :: intTailFrom (value - maxPrefix) (value - maxPrefix)

/-- What `write_int` writes after the first octet: nothing when the value fits the prefix. -/
def intTail (n value : ℕ) : List UInt8 :=
  if value < 2 ^ n - 1 then [] else intTailFrom (value - (2 ^ n - 1)) (value - (2 ^ n - 1))

theorem writeInt_eq (flags : UInt8) (n value : ℕ) :
    writeInt flags n value = (flags ||| UInt8.ofNat (min value (2^n-1))) :: intTail n value := by
  unfold writeInt intTail
  by_cases h : value < 2^n-1
  · simp [h,min_eq_left h.le]
  · simp [h,min_eq_right (not_lt.1 h)]

theorem continuation_octet : ∀ v < 128,
    ((UInt8.ofNat v ||| 0x80) &&& 0x7f).toNat = v ∧ (UInt8.ofNat v ||| 0x80) &&& 0x80 ≠ 0 ∧
      (UInt8.ofNat v &&& 0x7f).toNat = v ∧ UInt8.ofNat v &&& 0x80 = 0 := by decide

end Hpack

/-- The loops of HPACK and QPACK over the octets after the first, with the shift and the value
    so far. -/
structure PrefixLoop (eof : Error) (loop : List UInt8 → ℕ → ℕ → Except Error (ℕ × List UInt8)) :
    Prop where
  nil : ∀ shift val, loop [] shift val = .error eof
  overflow : ∀ b rest shift val, shift < 64 →
    u64Max < val + (b.toNat % 128 * 2 ^ shift) % 2 ^ 64 → ∃ e, loop (b :: rest) shift val = .error e
  last : ∀ b rest shift val, shift < 64 → (b &&& 0x80 != 0) = false →
    val + (b.toNat % 128 * 2 ^ shift) % 2 ^ 64 ≤ u64Max →
    loop (b :: rest) shift val = .ok (val + (b.toNat % 128 * 2 ^ shift) % 2 ^ 64, rest)
  more : ∀ b rest shift val, shift + 7 < 64 → (b &&& 0x80 != 0) = true →
    val + (b.toNat % 128 * 2 ^ shift) % 2 ^ 64 ≤ u64Max →
    loop (b :: rest) shift val = loop rest (shift + 7) (val + (b.toNat % 128 * 2 ^ shift) % 2 ^ 64)
  tooLong : ∀ b rest shift val, shift < 64 → 64 ≤ shift + 7 → (b &&& 0x80 != 0) = true →
    ∃ e, loop (b :: rest) shift val = .error e

theorem and_low (b : UInt8) : (b &&& 0x7f).toNat = b.toNat%128 :=
  Nat.and_two_pow_sub_one_eq_mod b.toNat 7

theorem PrefixLoop.reads {eof : Error} {loop : List UInt8 → ℕ → ℕ → Except Error (ℕ × List UInt8)}
    (h : PrefixLoop eof loop) (fuel v shift val : ℕ) (hfuel : v ≤ fuel)
    (hbound : val+v*2^shift ≤ u64Max) (hshift : shift < 64) :
    Reader.Reads eof (fun buf => loop buf shift val) (Hpack.intTailFrom fuel v)
      (val+v*2^shift) := by
  have hu64 : u64Max < 2^64 := by unfold u64Max; omega
  have hlast : ∀ {v shift val}, v < 128 → val+v*2^shift ≤ u64Max → shift < 64 →
      Reader.Reads eof (fun buf => loop buf shift val) [UInt8.ofNat v] (val+v*2^shift) := by
    intro v shift val hv hbound hshift
    obtain ⟨-,-,hlow,hclear⟩ := Hpack.continuation_octet v hv
    have hpart : ((UInt8.ofNat v).toNat%128*2^shift)%2^64 = v*2^shift := by
      rw [← and_low,hlow]
      exact Nat.mod_eq_of_lt (by omega)
    refine ⟨fun rest => ?_,fun u hu hne => ?_⟩
    · have hread := h.last (UInt8.ofNat v) rest shift val hshift (by simp [hclear])
      rw [hpart] at hread
      exact hread hbound
    · rcases prefix_cons_iff.1 hu with rfl | ⟨t,rfl,ht⟩
      · exact h.nil _ _
      · simp_all
  induction fuel generalizing v shift val with
  | zero => exact hlast (by omega) hbound hshift
  | succ fuel ih =>
    unfold Hpack.intTailFrom
    split_ifs with hv
    · obtain ⟨hlow,hmore,-,-⟩ := Hpack.continuation_octet (v%128) (Nat.mod_lt _ (by omega))
      have hsplit : v*2^shift = v%128*2^shift+v/128*2^(shift+7) := by
        conv_lhs => rw [← Nat.mod_add_div v 128]
        ring
      have hnext : shift+7 < 64 := by
        by_contra h
        have : 2^64 ≤ 2^(shift+7) := Nat.pow_le_pow_right (by omega) (by omega)
        have : 1*2^(shift+7) ≤ v/128*2^(shift+7) :=
          Nat.mul_le_mul_right _ (by omega)
        omega
      have hpart : ((UInt8.ofNat (v%128) ||| 0x80).toNat%128*2^shift)%2^64 =
          v%128*2^shift := by
        rw [← and_low,hlow]
        exact Nat.mod_eq_of_lt (by omega)
      have hstep := fun rest => h.more (UInt8.ofNat (v%128) ||| 0x80) rest shift val hnext
        (by simpa using hmore)
      rw [hpart] at hstep
      have hrest := ih (v/128) (shift+7) (val+v%128*2^shift) (by omega) (by omega) hnext
      rw [hsplit,← Nat.add_assoc]
      refine ⟨fun rest => ?_,fun u hu hne => ?_⟩
      · rw [cons_append,hstep _ (by omega)]
        exact hrest.whole rest
      · rcases prefix_cons_iff.1 hu with rfl | ⟨t,rfl,ht⟩
        · exact h.nil _ _
        · rw [hstep _ (by omega)]
          exact hrest.short t ht fun h => hne (by rw [h])
    · exact hlast (by omega) hbound hshift

namespace Hpack

theorem prefixLoop_readIntFrom :
    PrefixLoop (Error.protocol "HPACK: truncated integer") readIntFrom := by
  refine ⟨fun _ _ => rfl,?_,?_,?_,?_⟩
  · intro b rest shift val hshift hover
    rw [readIntFrom,and_low,Nat.shiftLeft_eq,checkedAdd,if_neg (not_le.2 hover)]
    exact ⟨_,rfl⟩
  · intro b rest shift val hshift hlast hle
    rw [readIntFrom,and_low,Nat.shiftLeft_eq,checkedAdd,if_pos hle]
    exact if_pos (by simpa using hlast)
  · intro b rest shift val hshift hmore hle
    rw [readIntFrom,and_low,Nat.shiftLeft_eq,checkedAdd,if_pos hle]
    dsimp only
    rw [if_neg (by simpa using hmore),if_neg (by omega)]
  · intro b rest shift val hshift hlong hmore
    rw [readIntFrom,and_low,Nat.shiftLeft_eq,checkedAdd]
    by_cases hle : val+(b.toNat%128*2^shift)%2^64 ≤ u64Max
    · rw [if_pos hle]
      dsimp only
      rw [if_neg (by simpa using hmore),if_pos hlong]
      exact ⟨_,rfl⟩
    · rw [if_neg hle]
      exact ⟨_,rfl⟩

theorem readInt_intTail {n value : ℕ} {bits : UInt8} (hvalue : value ≤ u64Max)
    (hbits : bits.toNat = min value (2^n-1)) (rest : List UInt8) :
    readInt n bits (intTail n value ++ rest) = .ok (value,rest) := by
  unfold readInt intTail
  by_cases h : value < 2^n-1
  · rw [if_pos h,if_pos (by omega),hbits,min_eq_left (by omega)]
    rfl
  have hread := (prefixLoop_readIntFrom.reads _ (value-(2^n-1)) 0 bits.toNat le_rfl
    (by omega) (by decide)).whole rest
  rw [if_neg h,if_neg (by omega),hread]
  congr 2
  omega

/-! ### Strings -/

def readString (maxLen : ℕ) : List UInt8 → Except Error (List UInt8 × List UInt8)
  | [] => .error (Error.protocol "HPACK: truncated string")
  | b :: input => do
    let (len, input) ← readInt 7 (b &&& 0x7f) input
    if maxLen < len then
      throw (Error.overflow "HPACK: string exceeds limit")
    if input.length < len then
      throw (Error.protocol "HPACK: truncated string data")
    let raw := input.take len
    if b &&& 0x80 ≠ 0 then
      match Huffman.decode raw (satMul len 2) with
      | .ok out => return (out, input.drop len)
      | .error e => throw (Error.protocol ("HPACK: Huffman decode error: " ++ e.debug))
    else return (raw, input.drop len)

/-- `write_string`: Huffman-coded when that is shorter. -/
def writeString (s : List UInt8) : List UInt8 :=
  let huff := Huffman.encode s
  if huff.length < s.length then writeInt 0x80 7 huff.length ++ huff
  else writeInt 0x00 7 s.length ++ s

theorem string_octet : ∀ v < 128,
    (((0x80 : UInt8) ||| UInt8.ofNat v) &&& 0x7f).toNat = v ∧
      ((0x80 : UInt8) ||| UInt8.ofNat v) &&& 0x80 ≠ 0 ∧
      (((0x00 : UInt8) ||| UInt8.ofNat v) &&& 0x7f).toNat = v ∧
      ((0x00 : UInt8) ||| UInt8.ofNat v) &&& 0x80 = 0 := by decide

theorem readString_writeString {s : List UInt8} {maxLen : ℕ} (hlen : s.length ≤ maxLen)
    (hbound : s.length ≤ u64Max) (rest : List UInt8) :
    readString maxLen (writeString s ++ rest) = .ok (s,rest) := by
  simp only [writeString]
  split_ifs with hshort
  · obtain ⟨hbits,hflag,-,-⟩ :=
      string_octet (min (Huffman.encode s).length (2^7-1)) (by omega)
    have hread := readInt_intTail (by omega) hbits (Huffman.encode s ++ rest)
    have hcap : s.length ≤ satMul (Huffman.encode s).length 2 :=
      le_min (Huffman.length_le_of_encode s) hbound
    simp only [writeInt_eq,cons_append,append_assoc,readString,hread,bind,
      Except.bind,pure,Except.pure]
    rw [if_neg (by omega),if_neg (by simp)]
    simp only [if_pos hflag,take_left',Huffman.decode_encode hcap,drop_left']
  · obtain ⟨-,-,hbits,hflag⟩ := string_octet (min s.length (2^7-1)) (by omega)
    have hread := readInt_intTail hbound hbits (s ++ rest)
    simp only [writeInt_eq,cons_append,append_assoc,readString,hread,bind,
      Except.bind,pure,Except.pure]
    rw [if_neg (by omega),if_neg (by simp),if_neg (not_not.2 hflag)]
    simp

end Hpack

end Courierust
