import Courierust.Qpack.Integer
import Courierust.Qpack.Wire

/-!
# The prefix of a field section

What `decode_field_section_prefix` makes of the prefixes that `encode_field_section_prefix` writes,
and of any octets. The count travels modulo `2 * maxEntries`; a receiver adds the multiple that
its own insert count suggests.
-/

namespace Courierust.Qpack

def maxEntries (capacity : ℕ) : ℕ := max (capacity / 32) 1

/-! ### Prefixes that were written -/

/-- `required` is a count that a receiver of `inserts` entries can tell from its remainder. -/
def InWindow (capacity inserts required : ℕ) : Prop :=
  required = 0 ∨
    inserts < required + maxEntries capacity ∧ required ≤ inserts + maxEntries capacity

def HasRoom (capacity inserts required : ℕ) : Prop :=
  inserts + maxEntries capacity ≤ u64Max ∧
    (inserts + maxEntries capacity) / (2 * maxEntries capacity) * (2 * maxEntries capacity) +
      (required % (2 * maxEntries capacity) + 1) ≤ u64Max

/-- A prefix comes back as it was written unless the receiver's counter is at its end. -/
theorem fieldSectionPrefix_roundtrip_iff {capacity inserts required base : ℕ}
    (hcapacity : capacity ≤ u64Max) (hrequired : required ≤ u64Max) (hbase : base ≤ u64Max)
    (hwindow : InWindow capacity inserts required) :
    decodeFieldSectionPrefix inserts capacity (encodeFieldSectionPrefix required base capacity) =
        .ok ((required, base), []) ↔ required = 0 ∨ HasRoom capacity inserts required := by
  rw [← List.append_nil (encodeFieldSectionPrefix required base capacity)]
  by_cases hzero : required = 0
  · have hcounted : requiredInsertCount (if required = 0 then 0
        else required%(2*max (capacity/32) 1)+1) inserts capacity = .ok 0 := by
      rw [if_pos hzero]
      rfl
    rw [decodeFieldSectionPrefix_encode hrequired hbase hcapacity hcounted
      (by rintro _ ⟨⟩; exact hzero.symm)]
    exact iff_of_true rfl (.inl hzero)
  · obtain ⟨hbelow,habove⟩ := hwindow.resolve_left hzero
    have hcounted := requiredInsertCount_encode (by omega : 0 < required) habove hbelow
    have hcode : (if required = 0 then 0 else required%(2*max (capacity/32) 1)+1) =
      required%(2*max (capacity/32) 1)+1 := if_neg hzero
    rw [← hcode] at hcounted
    rw [decodeFieldSectionPrefix_encode hrequired hbase hcapacity hcounted
      (by intro count; split_ifs <;> simp_all) [],hcode]
    simp only [hzero,false_or,HasRoom,maxEntries]
    split_ifs with hcount hwrapped
    · exact iff_of_false (by rintro ⟨⟩) fun h => absurd h.1 (not_le.2 hcount)
    · exact iff_of_false (by rintro ⟨⟩) fun h => absurd h.2 (not_le.2 hwrapped)
    · exact iff_of_true rfl ⟨not_lt.1 hcount,not_lt.1 hwrapped⟩

theorem fieldSectionPrefix_roundtrip_default :
    decodeFieldSectionPrefix 1000 4096 (encodeFieldSectionPrefix 1100 1003 4096) =
        .ok ((1100, 1003), []) ↔ (1100 = 0 ∨ HasRoom 4096 1000 1100) :=
  fieldSectionPrefix_roundtrip_iff (by decide) (by decide) (by decide)
    (.inr ⟨by decide,by decide⟩)

/-- A receiver whose insert count is `u64::MAX` refuses the count that is its own. -/
theorem fieldSectionPrefix_overflow :
    InWindow 4096 u64Max u64Max ∧
      decodeFieldSectionPrefix u64Max 4096 (encodeFieldSectionPrefix u64Max u64Max 4096) =
        .error (Error.overflow "QPACK insert count overflow") :=
  ⟨.inr ⟨by decide,by decide⟩,by decide⟩

/-! ### Any octets -/

/-- What the octets of a prefix say: the encoded count, whether the Base is below it, the
    difference, and what follows. -/
def wirePrefix (buf : List UInt8) : Option (ℕ × Bool × ℕ × List UInt8) := do
  let (count, buf) ← wireInt 8 buf
  let first ← buf.head?
  let (delta, rest) ← wireInt 7 buf
  return (count, first &&& 0x80 ≠ 0, delta, rest)

/-- `required` and `base` are what RFC 9204 §4.5.1 makes of a prefix. -/
structure PrefixMeans (inserts capacity count : ℕ) (sign : Bool) (delta required base : ℕ) :
    Prop where
  count : count = 0 ∧ required = 0 ∨
    (1 ≤ count ∧ count ≤ 2 * maxEntries capacity) ∧
      required ≡ count - 1 [MOD 2 * maxEntries capacity] ∧
      inserts < required + maxEntries capacity ∧ required ≤ inserts + maxEntries capacity
  base : (base : ℤ) = if sign then (required : ℤ) - delta - 1 else required + delta

/-- The count is in its range, and the difference is a 64-bit number that can be raised by one
    where it has to be. -/
def PrefixFits (capacity : ℕ) (buf : List UInt8) : Prop :=
  ∃ count sign delta rest, wirePrefix buf = some (count, sign, delta, rest) ∧
    count ≤ 2 * maxEntries capacity ∧ delta + sign.toNat ≤ u64Max

/-- A count in its range is recovered as one that the receiver can tell. -/
theorem requiredInsertCount_ok {count inserts capacity required : ℕ} (hpos : 0 < count)
    (hle : count ≤ 2*maxEntries capacity)
    (h : requiredInsertCount count inserts capacity = .ok required) :
    required ≡ count-1 [MOD 2*maxEntries capacity] ∧
      inserts < required+maxEntries capacity ∧ required ≤ inserts+maxEntries capacity := by
  unfold maxEntries at *
  simp only [requiredInsertCount,checkedAdd,checkedSub,if_neg hpos.ne'] at h
  generalize max (capacity/32) 1 = m at *
  by_cases hcount : inserts+m ≤ u64Max
  · have hwrapped : (inserts+m)/(2*m)*(2*m) ≤ inserts+m := Nat.div_mul_le_self _ _
    have hlt : inserts+m < (inserts+m)/(2*m)*(2*m)+2*m :=
      Nat.lt_div_mul_add (by omega)
    rw [if_pos hcount] at h
    dsimp only at h
    generalize (inserts+m)/(2*m) = q at *
    split_ifs at h with hsum
    · rw [Option.bind_some,if_pos (by omega)] at h
      dsimp only at h
      by_cases hover : inserts+m < q*(2*m)+count-1
      · -- the sum is one range too far
        split_ifs at h with hfar hzero
        cases h
        obtain ⟨k,rfl⟩ : ∃ k, q = k+1 := ⟨q-1,by cases q <;> omega⟩
        rw [Nat.add_one_mul k] at *
        rw [show k*(2*m)+2*m+count-1-2*m = k*(2*m)+(count-1) by omega]
        exact ⟨Nat.mul_add_mod' k (2*m) (count-1),by omega,by omega⟩
      · split_ifs at h with hzero
        cases h
        rw [show q*(2*m)+count-1 = q*(2*m)+(count-1) by omega]
        exact ⟨Nat.mul_add_mod' q (2*m) (count-1),by omega,by omega⟩
    · cases h
  · rw [if_neg hcount] at h
    cases h

theorem decodeFieldSectionPrefix_ok {inserts capacity required base : ℕ} {buf rest : List UInt8}
    (h : decodeFieldSectionPrefix inserts capacity buf = .ok ((required,base),rest)) :
    ∃ count first tail delta, decodeInteger 8 buf = .ok (count,first :: tail) ∧
      decodeInteger 7 (first :: tail) = .ok (delta,rest) ∧
      requiredInsertCount count inserts capacity = .ok required ∧
      if first &&& 0x80 ≠ 0 then base+(delta+1)%2^64 = required
      else base = required+delta := by
  obtain ⟨⟨count,input⟩,hcount,h⟩ := Except.bind_eq_ok.1 h
  cases input with
  | nil => cases h
  | cons first tail =>
    obtain ⟨⟨delta,more⟩,hdelta,h⟩ := Except.bind_eq_ok.1 h
    obtain ⟨found,hfound,h⟩ := Except.bind_eq_ok.1 h
    refine ⟨count,first,tail,delta,hcount,?_⟩
    simp only [checkedAdd,checkedSub] at h
    split_ifs at h ⊢ with hsign hle hle
    all_goals cases h
    · exact ⟨hdelta,hfound,Nat.sub_add_cancel hle⟩
    · exact ⟨hdelta,hfound,rfl⟩

/-- An accepted prefix has the meaning of its octets if and only if they fit. -/
theorem fieldSectionPrefix_sound_iff {inserts capacity required base : ℕ} {buf rest : List UInt8}
    (hcapacity : capacity ≤ u64Max)
    (h : decodeFieldSectionPrefix inserts capacity buf = .ok ((required, base), rest)) :
    (∃ count sign delta, wirePrefix buf = some (count, sign, delta, rest) ∧
      PrefixMeans inserts capacity count sign delta required base) ↔ PrefixFits capacity buf := by
  obtain ⟨count,first,tail,delta,hcount,hdelta,hrequired,hbase⟩ :=
    decodeFieldSectionPrefix_ok h
  obtain ⟨hcountle,k,hcountwire⟩ := wireInt_of_decodeInteger (by decide) hcount
  obtain ⟨hdeltale,j,hdeltawire⟩ := wireInt_of_decodeInteger (by decide) hdelta
  obtain ⟨sign,hsign⟩ : ∃ sign : Bool, decide (first &&& 0x80 ≠ 0) = sign := ⟨_,rfl⟩
  have hwire : wirePrefix buf = some (count+2^64*k,sign,delta+2^64*j,rest) := by
    simp [wirePrefix,hcountwire,hdeltawire,← hsign]
  have hentries : 2*maxEntries capacity ≤ u64Max := by
    unfold maxEntries u64Max at *
    omega
  have hu64 : u64Max+1 = 2^64 := rfl
  constructor
  · rintro ⟨count',sign',delta',hwire',hmeans⟩
    rw [hwire] at hwire'
    cases hwire'
    refine ⟨_,_,_,_,hwire,?_,?_⟩
    · rcases hmeans.count with ⟨hzero,-⟩ | ⟨⟨-,hle⟩,-⟩
      · omega
      · exact hle
    · have hvalue := hmeans.base
      cases sign with
      | true =>
        rw [if_pos (of_decide_eq_true hsign)] at hbase
        simp only [if_true,Bool.toNat_true] at hvalue ⊢
        omega
      | false =>
        rw [if_neg (of_decide_eq_false hsign)] at hbase
        simp only [Bool.false_eq_true,if_false,Bool.toNat_false] at hvalue ⊢
        omega
  · rintro ⟨count',sign',delta',rest',hwire',hle,hfits⟩
    rw [hwire] at hwire'
    cases hwire'
    obtain rfl : k = 0 := by omega
    refine ⟨_,_,_,hwire,?_,?_⟩
    · by_cases hzero : count = 0
      · rw [hzero] at hrequired
        exact .inl ⟨by omega,(Except.ok.inj hrequired).symm⟩
      · exact .inr ⟨⟨by omega,hle⟩,requiredInsertCount_ok (by omega) (by omega) hrequired⟩
    · cases sign with
      | true =>
        rw [if_pos (of_decide_eq_true hsign)] at hbase
        rw [Bool.toNat_true] at hfits
        simp only [if_true]
        omega
      | false =>
        rw [if_neg (of_decide_eq_false hsign)] at hbase
        simp only [Bool.false_eq_true,if_false]
        omega

/-- A base below the required insert count. -/
theorem fieldSectionPrefix_sound_below :
    (∃ count sign delta, wirePrefix [5, 0x81] = some (count, sign, delta, []) ∧
      PrefixMeans 5 4096 count sign delta 4 2) ↔ PrefixFits 4096 [5, 0x81] :=
  fieldSectionPrefix_sound_iff (by decide) (by decide)

/-- A count above twice the entries of the table is taken for one that is far ahead of the table,
    and a difference of `u64::MAX` below the count for none. -/
theorem fieldSectionPrefix_takes_any_count :
    decodeFieldSectionPrefix 0 32 [0x0a, 0x00] = .ok ((7, 7), []) ∧
      (¬ ∃ count sign delta, wirePrefix [0x0a, 0x00] = some (count, sign, delta, []) ∧
        PrefixMeans 0 32 count sign delta 7 7) ∧
      decodeFieldSectionPrefix 1 32 (encodeInteger 2 8 0 ++ encodeInteger u64Max 7 0x80) =
        .ok ((1, 1), []) := by
  refine ⟨by decide,?_,by decide⟩
  rintro ⟨count,sign,delta,hwire,hmeans⟩
  cases hwire
  rcases hmeans.count with ⟨hzero,-⟩ | ⟨⟨-,hle⟩,-⟩
  · cases hzero
  · exact absurd hle (by decide)

end Courierust.Qpack
