import Courierust.Hpack.Literal

/-!
# Protocol Buffers tags

`write_varint`, `read_varint`, `write_tag` and `read_tag` of `courierust_grpc::proto`. A `u64` is
its value; the readers hand back what they leave.
-/

namespace Courierust.Grpc.Proto

inductive WireType where
  | varint
  | fixed64
  | lengthDelimited
  | fixed32

def WireType.code : WireType → ℕ
  | varint => 0
  | fixed64 => 1
  | lengthDelimited => 2
  | fixed32 => 5

def WireType.fromCode : ℕ → Option WireType
  | 0 => some varint
  | 1 => some fixed64
  | 2 => some lengthDelimited
  | 5 => some fixed32
  | _ => none

def writeVarint (value : ℕ) : List UInt8 :=
  let byte := UInt8.ofNat (value % 128)
  if h : value / 128 ≠ 0 then (byte ||| 0x80) :: writeVarint (value / 128) else [byte]

/-- The last rounds of the loop of `read_varint`: round `9 - left` comes next. -/
def readVarintFrom (value : ℕ) : ℕ → List UInt8 → Except Error (ℕ × List UInt8)
  | 0, _ => .error (Error.protocol "protobuf varint too long")
  | _ + 1, [] => .error (Error.protocol "truncated protobuf varint")
  | left + 1, byte :: buf =>
    let chunk := (byte &&& 0x7f).toNat
    if left = 0 ∧ 1 < chunk then .error (Error.protocol "protobuf varint overflow")
    else
      let value := value ||| chunk <<< ((9 - left) * 7)
      if byte &&& 0x80 = 0 then .ok (value, buf) else readVarintFrom value left buf

def readVarint : List UInt8 → Except Error (ℕ × List UInt8) := readVarintFrom 0 10

def writeTag (number : ℕ) (wire : WireType) : List UInt8 :=
  writeVarint (number <<< 3 ||| wire.code)

def readTag (buf : List UInt8) : Except Error ((ℕ × WireType) × List UInt8) := do
  let (tag, buf) ← readVarint buf
  let number := tag / 8 % 2 ^ 32
  match WireType.fromCode (tag % 8) with
  | none => .error (Error.protocol "invalid protobuf wire type")
  | some wire =>
    if number = 0 then .error (Error.protocol "protobuf field number 0 is reserved")
    else .ok ((number, wire), buf)

/-- An octet of a varint, with its flag and without. -/
theorem readVarintFrom_cons {left low chunk : ℕ} (hlow : low < 2^((9-left)*7))
    (hchunk : chunk < 128) (hfits : left = 0 → chunk ≤ 1) (buf : List UInt8) :
    readVarintFrom low (left+1) (UInt8.ofNat chunk :: buf) =
      .ok (low+chunk*2^((9-left)*7),buf) ∧
    readVarintFrom low (left+1) ((UInt8.ofNat chunk ||| 0x80) :: buf) =
      readVarintFrom (low+chunk*2^((9-left)*7)) left buf := by
  obtain ⟨hmore,hset,hlast,hclear⟩ := Hpack.continuation_octet chunk hchunk
  have hsum : low ||| chunk <<< ((9-left)*7) = low+chunk*2^((9-left)*7) := by
    rw [Nat.or_comm,← Nat.shiftLeft_add_eq_or_of_lt hlow,Nat.shiftLeft_eq,Nat.add_comm]
  have hfits : ¬(left = 0 ∧ 1 < chunk) := fun h => absurd (hfits h.1) (by omega)
  rw [readVarintFrom,readVarintFrom]
  simp only [hlast,hclear,hmore,hset,hsum,if_neg hfits,if_true,if_false,and_self]

theorem readVarintFrom_writeVarint {left value low : ℕ} (hleft : left ≤ 9)
    (hlow : low < 2^((9-left)*7)) (hvalue : value*2^((9-left)*7) < 2^64)
    (rest : List UInt8) : readVarintFrom low (left+1) (writeVarint value ++ rest) =
      .ok (low+value*2^((9-left)*7),rest) := by
  induction value using Nat.strong_induction_on generalizing left low with
  | _ value ih =>
    have hmod := Nat.mod_lt value (by omega : 0 < 128)
    rw [writeVarint]
    split_ifs with hmore
    · obtain ⟨left,rfl⟩ : ∃ k, left = k+1 := Nat.exists_eq_succ_of_ne_zero (by rintro rfl; omega)
      have hshift : (9-left)*7 = (9-(left+1))*7+7 := by omega
      refine ((readVarintFrom_cons hlow hmod (by omega) _).2.trans
        (ih (value/128) (by omega) (by omega) ?_ ?_)).trans ?_
      all_goals rw [hshift,pow_add]
      · nlinarith
      · rw [Nat.mul_comm (2^_),← Nat.mul_assoc]
        exact (Nat.mul_le_mul_right _ (Nat.div_mul_le_self value 128)).trans_lt hvalue
      · nth_rewrite 3 [← Nat.mod_add_div value 128]
        ring_nf
    · have hread := (readVarintFrom_cons hlow hmod (by rintro rfl; omega) rest).1
      rw [Nat.mod_eq_of_lt (by omega)] at hread ⊢
      exact hread

theorem readVarint_writeVarint {value : ℕ} (h : value < 2^64) (rest : List UInt8) :
    readVarint (writeVarint value ++ rest) = .ok (value,rest) := by
  have hread := @readVarintFrom_writeVarint 9 value 0 le_rfl (by simp) (by simpa using h) rest
  simpa [readVarint] using hread

theorem fromCode_iff {code : ℕ} {wire : WireType} :
    WireType.fromCode code = some wire ↔ code = wire.code := by
  constructor
  · intro h
    unfold WireType.fromCode at h
    split at h <;> cases h <;> rfl
  · rintro rfl
    cases wire <;> rfl

theorem readTag_eq_ok_iff {buf rest rest' : List UInt8} {tag number : ℕ} {wire : WireType}
    (hread : readVarint buf = .ok (tag, rest)) :
    readTag buf = .ok ((number, wire), rest') ↔
      tag%8 = wire.code ∧ number = tag/8%2^32 ∧ number ≠ 0 ∧ rest = rest' := by
  rw [readTag,hread,← fromCode_iff]
  simp only [Except.bind,bind]
  cases WireType.fromCode (tag%8) with
  | none => simp
  | some read =>
    simp only [Option.some.injEq]
    split_ifs <;> grind

/-- A varint is read back, and so is the tag of a valid number; a tag of this value is accepted
only when its number is valid, and read as it. -/
structure TagFaithful (tag : ℕ) : Prop where
  varint : ∀ rest, readVarint (writeVarint tag ++ rest) = .ok (tag, rest)
  written : ∀ number wire rest, 1 ≤ number → number < 2 ^ 29 →
    readTag (writeTag number wire ++ rest) = .ok ((number, wire), rest)
  accepted : ∀ buf number wire rest left, readVarint buf = .ok (tag, left) →
    readTag buf = .ok ((number, wire), rest) →
    tag = number * 8 + wire.code ∧ 1 ≤ number ∧ number < 2 ^ 29

/-- A tag is faithful unless it has more than 32 bits and is accepted all the same. -/
theorem tag_faithful_iff (tag : UInt64) :
    TagFaithful tag.toNat ↔ tag.toNat / 8 % 2 ^ 32 = 0 ∨
      WireType.fromCode (tag.toNat % 8) = none ∨ tag.toNat < 2 ^ 32 := by
  have hvarint := readVarint_writeVarint tag.toNat_lt
  constructor
  · intro h
    by_contra! hnot
    obtain ⟨hnumber,hcode,hlarge⟩ := hnot
    obtain ⟨wire,hwire⟩ := Option.ne_none_iff_exists'.1 hcode
    have hread : readVarint (writeVarint tag.toNat) = .ok (tag.toNat,[]) := by
      simpa using hvarint []
    obtain ⟨heq,-,hlt⟩ := h.accepted _ _ wire _ _ hread
      ((readTag_eq_ok_iff hread).2 ⟨fromCode_iff.1 hwire,rfl,hnumber,rfl⟩)
    have hsmall : wire.code < 8 := by cases wire <;> decide
    omega
  · intro h
    refine ⟨hvarint,fun number wire rest hone hlt => ?_,fun buf number wire rest left hread htag => ?_⟩
    · have hsmall : wire.code < 2^3 := by cases wire <;> decide
      rw [writeTag,← Nat.shiftLeft_add_eq_or_of_lt hsmall,Nat.shiftLeft_eq]
      exact (readTag_eq_ok_iff (readVarint_writeVarint (by omega) rest)).2
        ⟨by omega,by omega,by omega,rfl⟩
    · obtain ⟨hwire,hnumber,hne,-⟩ := (readTag_eq_ok_iff hread).1 htag
      rw [← fromCode_iff] at hwire
      rcases h with hzero | hnone | hlt
      · exact absurd (hnumber.trans hzero) hne
      · cases hwire.symm.trans hnone
      · have hcode := fromCode_iff.1 hwire
        omega

/-- The value 2³⁵ + 8 is read as the tag of field 1. -/
theorem tag_aliased : ¬ TagFaithful (2 ^ 35 + 8) := by
  intro h
  have hread : readVarint (writeVarint (2^35+8)) = .ok (2^35+8,[]) := by
    simpa using readVarint_writeVarint (by omega : 2^35+8 < 2^64) []
  have hlt := h.accepted _ 1 .varint _ _ hread ((readTag_eq_ok_iff hread).2 ⟨rfl,rfl,one_ne_zero,rfl⟩)
  exact absurd hlt.1 (by decide)

end Courierust.Grpc.Proto
