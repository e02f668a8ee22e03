import Courierust.Qpack.Wire

/-!
# One field line

`encode_field_line` chooses among the two tables with a view of the value as text, in which a value
that is not UTF-8 is the empty text. `decode_field_line` tells the representations apart by the
first octet, which also carries the N bit of a literal.
-/

namespace Courierust.Qpack

open Http (isUtf8)

/-- `encode_field_line`. -/
def encodeFieldLine (t : DynamicTable) (base : ℕ) (name value : List UInt8) : List UInt8 :=
  let text := if isUtf8 value then value else []
  match staticIndex name text with
  | some index => encodeInteger index 6 0xc0
  | none =>
    match t.find name text with
    | some absolute =>
      if absolute < base then encodeInteger (base - 1 - absolute) 6 0x80
      else encodeInteger (absolute - base) 4 0x10
    | none =>
      match staticNameIndex name with
      | some index => encodeInteger index 4 0x50 ++ encodeString value 8 0x00
      | none =>
        match t.findName name with
        | some absolute =>
          (if absolute < base then encodeInteger (base - 1 - absolute) 4 0x40
            else encodeInteger (absolute - base) 3 0x00) ++ encodeString value 8 0x00
        | none => encodeString name 4 0x20 ++ encodeString value 8 0x00

/-- The N bit of RFC 9204 §4.5.4 to §4.5.6; the indexed lines have none. -/
def nBit (first : UInt8) : Bool :=
  if first &&& 0x80 ≠ 0 then false
  else if first &&& 0xc0 = 0x40 then first &&& 0x20 ≠ 0
  else if first &&& 0xe0 = 0x20 then first &&& 0x10 ≠ 0
  else if first &&& 0xf0 = 0x10 then false
  else first &&& 0x08 ≠ 0

/-! ### Lines that were written -/

variable {absolute : ℕ} {e : DynEntry}

section Written

variable {t : DynamicTable} {size base : ℕ} {name value : List UInt8}

theorem decodeFieldLine_postBaseName (hbase : base ≤ absolute)
    (hmax : absolute ≤ u64Max) (h : t.get absolute = some e) (hsize : size ≤ u64Max)
    (hvalue : value.length ≤ u64Max) (rest : List UInt8) :
    decodeFieldLine size t base (encodeInteger (absolute-base) 3 0x00 ++
      encodeString value 8 0x00 ++ rest) = .ok (⟨e.name,value,false⟩,rest) := by
  obtain ⟨b,w,hw,hread,hb⟩ := read_encodeInteger (absolute-base) 3 0x00
    (encodeString value 8 0x00 ++ rest) (by omega) (by decide) (by omega)
  rw [List.append_assoc,hw]
  simp only [decodeFieldLine,hread,decodeString_value hsize hvalue rest,hb 0x80 (by decide),hb 0xc0 (by decide),
    hb 0xe0 (by decide),hb 0xf0 (by decide),hb 0x10 (by decide),postBaseEntry,checkedAdd,bind,
    Except.bind,pure,Except.pure]
  rw [if_neg (by decide),if_neg (by decide),if_neg (by decide),if_neg (by decide),
    if_pos (by omega),Nat.add_sub_cancel' hbase]
  simp only [h]
  rfl

/-- What a search finds is read at the index it gives. -/
theorem get_of_search (hcount : t.entries.length ≤ t.insertCount) {p : DynEntry → Bool}
    (h : (DynamicTable.rposition p t.entries).map (t.first + ·) = some absolute) :
    absolute < t.insertCount ∧ ∃ e, t.get absolute = some e ∧ p e = true := by
  obtain ⟨i,hi,rfl⟩ := Option.map_eq_some_iff.1 h
  obtain ⟨e,he,hp⟩ := (rposition_spec p t.entries).1 i hi
  obtain ⟨hlt,-⟩ := List.getElem?_eq_some_iff.1 he
  have hinside : t.first+i < t.insertCount := by
    unfold DynamicTable.first
    omega
  refine ⟨hinside,e,?_,hp⟩
  rw [DynamicTable.get,if_neg (by omega),Nat.add_sub_cancel_left,he]

theorem mem_of_get (h : t.get absolute = some e) : e ∈ t.entries := by
  unfold DynamicTable.get at h
  split_ifs at h
  exact List.mem_of_getElem? h

theorem staticIndex_nil (name : List UInt8) : staticIndex name [] = none := by
  refine List.findIdx?_eq_none_iff.2 fun e _ => ?_
  cases e.2 <;> simp

/-- A line is read back if the value is text, or no entry has its name and the empty value. -/
theorem decodeFieldLine_encodeFieldLine (hcount : t.entries.length ≤ t.insertCount)
    (hinserts : t.insertCount ≤ u64Max) (hbase : base ≤ t.insertCount) (hsize : size ≤ u64Max)
    (hutf8 : isUtf8 name = true) (hname : name.length ≤ u64Max) (hvalue : value.length ≤ u64Max)
    (htext : isUtf8 value = true ∨ ⟨name,[]⟩ ∉ t.entries) (rest : List UInt8) :
    decodeFieldLine size t base (encodeFieldLine t base name value ++ rest) =
      .ok (⟨name,value,false⟩,rest) := by
  have hliteral := @decodeFieldLine_literal t size base name value hsize hutf8 hname hvalue rest
  -- an exact match is one with the value itself
  have hexact : ∀ text, (if isUtf8 value then value else []) = text →
      text ≠ [] ∨ ⟨name,text⟩ ∈ t.entries → text = value := by
    rintro _ rfl hfound
    cases hvalid : isUtf8 value with
    | true => rw [if_pos rfl]
    | false =>
      simp only [hvalid,Bool.false_eq_true,if_false,ne_eq,not_true_eq_false,false_or] at hfound htext
      exact absurd hfound htext
  unfold encodeFieldLine
  generalize htextof : (if isUtf8 value then value else []) = text at *
  dsimp only
  split
  · next index hindex =>
    obtain ⟨hentry,hlt⟩ := static_of_staticIndex hindex
    have hne : text ≠ [] := by
      rintro rfl
      rw [staticIndex_nil] at hindex
      cases hindex
    rw [← hexact text rfl (.inl hne)]
    exact decodeFieldLine_static hentry (by unfold u64Max; omega) rest
  split
  · next absolute hfound =>
    obtain ⟨hlt,e,hget,hp⟩ := get_of_search hcount hfound
    simp only [Bool.and_eq_true,beq_iff_eq] at hp
    obtain ⟨rfl,rfl⟩ := hp
    rw [← hexact e.value rfl (.inr (mem_of_get hget))]
    split_ifs with hbelow
    · exact decodeFieldLine_relative hbelow (by omega) hget rest
    · exact decodeFieldLine_postBase (not_lt.1 hbelow) (by omega) hget rest
  · unfold QpackConnection.literalLine at hliteral
    split
    · next index hindex =>
      rwa [hindex] at hliteral
    · next hnone =>
      rw [hnone] at hliteral
      split
      · next absolute hfound =>
        obtain ⟨hlt,e,hget,hp⟩ := get_of_search hcount hfound
        obtain rfl := beq_iff_eq.1 hp
        split_ifs with hbelow
        · exact decodeFieldLine_relativeName hbelow (by omega) hget hsize hvalue rest
        · exact decodeFieldLine_postBaseName (not_lt.1 hbelow) (by omega) hget hsize hvalue rest
      · exact hliteral

/-- A value that is not text is taken for the empty value of an entry. -/
theorem encodeFieldLine_of_not_text (hvalue : isUtf8 value = false)
    (hempty : ⟨name,[]⟩ ∈ t.entries) :
    encodeFieldLine t base name value = encodeFieldLine t base name [] := by
  obtain ⟨i,hi⟩ := List.getElem?_of_mem hempty
  obtain ⟨j,hj,-⟩ := (rposition_spec (fun e => e.name == name && e.value == []) t.entries).2 i _ hi
    (by simp)
  have hfound : t.find name [] = some (t.first+j) := by
    rw [DynamicTable.find,hj]
    rfl
  simp [encodeFieldLine,hvalue,staticIndex_nil,hfound]

end Written

/-! ### The N bit -/

theorem nibble_of_octet (b : UInt8) (h80 : b &&& 0x80 = 0) (hc0 : b &&& 0xc0 ≠ 0x40)
    (he0 : b &&& 0xe0 ≠ 0x20) (hf0 : b &&& 0xf0 ≠ 0x10) : b &&& 0xf0 = 0 := by
  have hall : ∀ v : BitVec 8, UInt8.ofBitVec v &&& 0x80 = 0 → UInt8.ofBitVec v &&& 0xc0 ≠ 0x40 →
      UInt8.ofBitVec v &&& 0xe0 ≠ 0x20 → UInt8.ofBitVec v &&& 0xf0 ≠ 0x10 →
      UInt8.ofBitVec v &&& 0xf0 = 0 := by decide
  exact hall b.toBitVec h80 hc0 he0 hf0

theorem and_of_nibble {b mask : UInt8} (h : b &&& 0xf0 = 0) (hmask : 0xf0 &&& mask = mask) :
    b &&& mask = 0 := by
  rw [← hmask,← UInt8.and_assoc,h,UInt8.zero_and]

/-- The flag of a literal with a post-base name is read from a bit that is clear in its octet. -/
theorem decodeFieldLine_neverIndexed {size base : ℕ} {t : DynamicTable} {first : UInt8}
    {buf rest : List UInt8} {line : FieldLine}
    (h : decodeFieldLine size t base (first :: buf) = .ok (line,rest)) :
    line.neverIndexed = (nBit first && decide (first &&& 0xf0 ≠ 0)) := by
  simp only [decodeFieldLine] at h
  unfold nBit
  by_cases h80 : first &&& 0x80 ≠ 0
  · rw [if_pos h80] at h ⊢
    obtain ⟨index,-,h⟩ := Except.bind_eq_ok.1 h
    split_ifs at h
    · obtain ⟨e,-,h⟩ := Except.bind_eq_ok.1 h
      cases h
      rfl
    · obtain ⟨e,-,h⟩ := Except.bind_eq_ok.1 h
      cases h
      rfl
  rw [if_neg h80] at h ⊢
  by_cases hc0 : first &&& 0xc0 = 0x40
  · rw [if_pos hc0] at h ⊢
    have hset : first &&& 0xf0 ≠ 0 := fun hf0 => by
      rw [and_of_nibble hf0 (by decide)] at hc0
      exact absurd hc0 (by decide)
    obtain ⟨index,-,h⟩ := Except.bind_eq_ok.1 h
    split_ifs at h
    · cases hentry : STATIC_TABLE[index.1]? with
      | none =>
        simp only [hentry] at h
        cases h
      | some e =>
        simp only [hentry,pure_bind] at h
        obtain ⟨value,-,h⟩ := Except.bind_eq_ok.1 h
        cases h
        simp [hset]
    · obtain ⟨name,-,h⟩ := Except.bind_eq_ok.1 h
      obtain ⟨value,-,h⟩ := Except.bind_eq_ok.1 h
      cases h
      simp [hset]
  rw [if_neg hc0] at h ⊢
  by_cases he0 : first &&& 0xe0 = 0x20
  · rw [if_pos he0] at h ⊢
    obtain ⟨name,-,h⟩ := Except.bind_eq_ok.1 h
    split_ifs at h
    · obtain ⟨u,hu,-⟩ := Except.bind_eq_ok.1 h
      cases hu
    obtain ⟨value,-,h⟩ := Except.bind_eq_ok.1 h
    cases h
    have hset : first &&& 0xf0 ≠ 0 := fun hf0 => by
      rw [and_of_nibble hf0 (by decide)] at he0
      exact absurd he0 (by decide)
    simp [hset]
  rw [if_neg he0] at h ⊢
  split_ifs at h ⊢ with hf0
  · obtain ⟨index,-,h⟩ := Except.bind_eq_ok.1 h
    obtain ⟨e,-,h⟩ := Except.bind_eq_ok.1 h
    cases h
    rfl
  · obtain ⟨index,-,h⟩ := Except.bind_eq_ok.1 h
    obtain ⟨e,-,h⟩ := Except.bind_eq_ok.1 h
    obtain ⟨value,-,h⟩ := Except.bind_eq_ok.1 h
    cases h
    have hclear := nibble_of_octet first (not_not.1 h80) hc0 he0 hf0
    simp [hclear,and_of_nibble hclear (by decide : 0xf0 &&& 0x10 = (0x10 : UInt8))]

/-- A line comes back as it was written unless a value that is not text meets an entry with the
    empty value, and the flag is the N bit unless that is set in a literal with a post-base name. -/
theorem fieldLine_codec_iff {t : DynamicTable} {base : ℕ} {name value : List UInt8}
    (hcount : t.entries.length ≤ t.insertCount) (hinserts : t.insertCount ≤ u64Max)
    (hbase : base ≤ t.insertCount) (hutf8 : isUtf8 name = true) (hname : name.length ≤ u64Max)
    (hvalue : value.length ≤ u64Max) :
    ((∀ size ≤ u64Max, ∀ rest,
      decodeFieldLine size t base (encodeFieldLine t base name value ++ rest) =
        .ok (⟨name, value, false⟩, rest)) ↔ isUtf8 value = true ∨ ⟨name, []⟩ ∉ t.entries) ∧
      ∀ size first buf line rest, decodeFieldLine size t base (first :: buf) = .ok (line, rest) →
        (line.neverIndexed = nBit first ↔ first &&& 0xf8 ≠ 0x08) := by
  refine ⟨⟨fun hall => ?_,fun htext size hsize rest => ?_⟩,?_⟩
  · by_contra hnot
    rw [not_or,not_not,Bool.not_eq_true] at hnot
    have hread := hall 0 (Nat.zero_le _) []
    rw [encodeFieldLine_of_not_text hnot.1 hnot.2,decodeFieldLine_encodeFieldLine hcount hinserts
      hbase (Nat.zero_le _) hutf8 hname (Nat.zero_le _) (.inl rfl)] at hread
    simp only [Except.ok.injEq,Prod.mk.injEq,FieldLine.mk.injEq,true_and,and_true] at hread
    rw [← hread] at hnot
    exact absurd hnot.1 (by decide)
  · exact decodeFieldLine_encodeFieldLine hcount hinserts hbase hsize hutf8 hname hvalue htext rest
  · intro size first buf line rest hread
    rw [decodeFieldLine_neverIndexed hread]
    have hall : ∀ v : BitVec 8, (nBit ⟨v⟩ && decide (UInt8.ofBitVec v &&& 0xf0 ≠ 0)) = nBit ⟨v⟩ ↔
        UInt8.ofBitVec v &&& 0xf8 ≠ 0x08 := by decide
    exact hall first.toBitVec

/-- A table whose one entry is named `x` and has the empty value. -/
def emptyEntry : DynamicTable := ⟨[⟨[0x78], []⟩], 33, 4096, 1⟩

theorem fieldLine_codec_text :
    ((∀ size ≤ u64Max, ∀ rest,
      decodeFieldLine size emptyEntry 1 (encodeFieldLine emptyEntry 1 [0x78] [0x31] ++ rest) =
        .ok (⟨[0x78], [0x31], false⟩, rest)) ↔
        isUtf8 [0x31] = true ∨ ⟨[0x78], []⟩ ∉ emptyEntry.entries) ∧
      ∀ size first buf line rest,
        decodeFieldLine size emptyEntry 1 (first :: buf) = .ok (line, rest) →
        (line.neverIndexed = nBit first ↔ first &&& 0xf8 ≠ 0x08) :=
  fieldLine_codec_iff (by decide) (by decide) (by decide) (by decide) (by decide) (by decide)

/-- The value `ff` comes back empty, and the N bit of a literal with a post-base name is lost. -/
theorem fieldLine_codec_loses :
    decodeFieldLine 1 emptyEntry 1 (encodeFieldLine emptyEntry 1 [0x78] [0xff]) =
        .ok (⟨[0x78], [], false⟩, []) ∧
      decodeFieldLine 2 emptyEntry 0 [0x08, 0x00] = .ok (⟨[0x78], [], false⟩, []) ∧
      nBit 0x08 = true := by
  decide

end Courierust.Qpack
