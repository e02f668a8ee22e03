import Courierust.Http.Header
import Courierust.Http.Str
import Courierust.Num

/-!
# Text in field values

The conversions of `str` and of the unsigned integers that the source applies to field
values: UTF-8 validation and decimal numbers.
-/

namespace Courierust.Http

/-- Where a UTF-8 validator stands: between characters, or owing continuation octets, the
    next of which may be restricted. -/
inductive Utf8 where
  | start | one | two | three | e0 | ed | f0 | f4
  deriving DecidableEq

def Utf8.next : Utf8 → UInt8 → Option Utf8
  | .start, b =>
    if b < 0x80 then some .start
    else if 0xc2 ≤ b ∧ b ≤ 0xdf then some .one
    else if b = 0xe0 then some .e0
    else if b = 0xed then some .ed
    else if 0xe1 ≤ b ∧ b ≤ 0xef then some .two
    else if b = 0xf0 then some .f0
    else if b = 0xf4 then some .f4
    else if 0xf1 ≤ b ∧ b ≤ 0xf3 then some .three
    else none
  | .one, b => if 0x80 ≤ b ∧ b ≤ 0xbf then some .start else none
  | .two, b => if 0x80 ≤ b ∧ b ≤ 0xbf then some .one else none
  | .three, b => if 0x80 ≤ b ∧ b ≤ 0xbf then some .two else none
  | .e0, b => if 0xa0 ≤ b ∧ b ≤ 0xbf then some .one else none
  | .ed, b => if 0x80 ≤ b ∧ b ≤ 0x9f then some .one else none
  | .f0, b => if 0x90 ≤ b ∧ b ≤ 0xbf then some .two else none
  | .f4, b => if 0x80 ≤ b ∧ b ≤ 0x8f then some .two else none

/-- `str::from_utf8` succeeds. -/
def isUtf8 (b : List UInt8) : Bool := b.foldlM Utf8.next .start == some .start

theorem isUtf8_of_ascii {b : List UInt8} (h : ∀ x ∈ b, x < 0x80) : isUtf8 b = true := by
  have hfold : b.foldlM Utf8.next .start = some .start := by
    induction b with
    | nil => rfl
    | cons x b ih =>
      have hx : Utf8.next .start x = some .start := by simp [Utf8.next,h x (by simp)]
      rw [List.foldlM_cons,hx]
      exact ih fun y hy => h y (by simp [hy])
  simp [isUtf8,hfold]

def toStr (value : List UInt8) : Option (List UInt8) := if isUtf8 value then some value else none

/-- Octets as characters; one outside ASCII is a character outside ASCII. -/
def chars (text : List UInt8) : Str.Text := text.map fun b => Char.ofNat b.toNat

def eqIgnoreAsciiCase (a b : List UInt8) : Bool := Str.eqIgnoreAsciiCase (chars a) (chars b)

def parseUnsigned (bound : ℕ) (text : List UInt8) : Option ℕ :=
  Str.parseUnsigned bound (chars text)

theorem chars_injective : Function.Injective chars := by
  refine List.map_injective_iff.2 fun a b h => UInt8.toNat_inj.1 ?_
  have hvalid : ∀ n < 256, (Char.ofNat n).toNat = n := by decide +kernel
  rw [← hvalid a.toNat a.toNat_lt,← hvalid b.toNat b.toNat_lt,h]

theorem toAsciiLowercase_chars (text : List UInt8) :
    Str.toAsciiLowercase (chars text) = chars (text.map toAsciiLowercase) := by
  have hoctet : ∀ n < 256, Str.toAsciiLowercase [Char.ofNat n] =
      chars [toAsciiLowercase (UInt8.ofNat n)] := by decide +kernel
  simp only [Str.toAsciiLowercase,chars,List.map_map]
  refine List.map_congr_left fun b _ => ?_
  have h := hoctet b.toNat b.toNat_lt
  rw [UInt8.ofNat_toNat] at h
  exact List.singleton_injective h

theorem eqIgnoreAsciiCase_eq (a b : List UInt8) :
    eqIgnoreAsciiCase a b = (a.map toAsciiLowercase == b.map toAsciiLowercase) := by
  rw [eqIgnoreAsciiCase,Str.eqIgnoreAsciiCase,toAsciiLowercase_chars,toAsciiLowercase_chars,
    Bool.eq_iff_iff,decide_eq_true_iff,chars_injective.eq_iff,beq_iff_eq]

end Courierust.Http
