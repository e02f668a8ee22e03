import Courierust.Qpack.Connection
import Courierust.Qpack.Table

/-!
# QPACK octets read back

Every line, instruction and section prefix an endpoint writes is read by its peer as
what was written. The readers branch on the fixed bits of the first octet; `Opens`
says that an encoding keeps them.
-/

namespace Courierust.Qpack

open List
open Http (isUtf8)
open Reader (Reads)

/-! ### First octets -/

/-- The first octet of `w` has the bits of `firstByte` above its `n` low ones. -/
def Opens (w : List UInt8) (firstByte : UInt8) (n : ℕ) : Prop :=
  ∃ b rest, w = b :: rest ∧ ∀ mask : UInt8, mask.toNat % 2 ^ n = 0 → b &&& mask = firstByte &&& mask

variable {n : ℕ} {firstByte : UInt8} {w : List UInt8}

variable {index required : ℕ} {e : DynEntry}

variable {value name : List UInt8} {t : DynamicTable} {size : ℕ}

theorem and_of_low {v : ℕ} (hn : n ≤ 8) (hv : v < 2^n) {mask : UInt8}
    (hmask : mask.toNat%2^n = 0) :
    (firstByte ||| UInt8.ofNat v) &&& mask = firstByte &&& mask := by
  have hpow : 2^n ≤ 2^8 := Nat.pow_le_pow_right (by omega) hn
  have hlow : v &&& mask.toNat = 0 := by
    apply Nat.eq_of_testBit_eq
    intro i
    rw [Nat.testBit_and,Nat.zero_testBit]
    by_cases hi : i < n
    · have h := Nat.testBit_mod_two_pow mask.toNat n i
      rw [hmask,Nat.zero_testBit] at h
      simp [hi] at h
      simp [h]
    · rw [Nat.testBit_lt_two_pow (hv.trans_le (Nat.pow_le_pow_right (by omega) (not_lt.1 hi))),
        Bool.false_and]
  rw [← UInt8.toNat_inj,UInt8.toNat_and,UInt8.toNat_or,UInt8.toNat_and,UInt8.toNat_ofNat',
    Nat.mod_eq_of_lt (by omega),Nat.and_or_distrib_right,hlow,Nat.or_zero]

theorem opens_encodeInteger (value : ℕ) (hn : n ≤ 8) (firstByte : UInt8) :
    Opens (encodeInteger value n firstByte) firstByte n := by
  rw [encodeInteger_eq]
  exact ⟨_,_,rfl,fun mask hmask => and_of_low hn (by omega) hmask⟩

/-- An integer is read back whatever follows, and its first octet keeps the bits above. -/
theorem read_encodeInteger (value n : ℕ) (firstByte : UInt8) (rest : List UInt8)
    (hn : 1 ≤ n ∧ n ≤ 8) (hclear : firstByte.toNat%2^n = 0) (hvalue : value ≤ u64Max) :
    ∃ b w, encodeInteger value n firstByte ++ rest = b :: w ∧
      decodeInteger n (b :: w) = .ok (value,rest) ∧
      ∀ mask : UInt8, mask.toNat%2^n = 0 → b &&& mask = firstByte &&& mask := by
  have hread := (reads_encodeInteger value n firstByte hn hclear hvalue).whole rest
  obtain ⟨b,w,hw,hb⟩ := opens_encodeInteger value hn.2 firstByte
  rw [hw,cons_append] at hread
  exact ⟨b,w ++ rest,by rw [hw,cons_append],hread,hb⟩

theorem Opens.append (h : Opens w firstByte n) (u : List UInt8) : Opens (w ++ u) firstByte n := by
  obtain ⟨b,rest,rfl,hb⟩ := h
  exact ⟨b,rest ++ u,rfl,hb⟩

theorem Opens.ne_nil (h : Opens w firstByte n) : w ≠ [] := by
  obtain ⟨b,rest,rfl,-⟩ := h
  exact cons_ne_nil b rest

theorem Opens.reads {α : Type} {p q : List UInt8 → Except Error (α × List UInt8)} {a : α}
    (hopens : Opens w firstByte n) (hp : Reads Error.eof p w a) (hnil : q [] = .error Error.eof)
    (h : ∀ b x, (∀ mask : UInt8, mask.toNat%2^n = 0 → b &&& mask = firstByte &&& mask) →
      q (b :: x) = p (b :: x)) : Reads Error.eof q w a := by
  refine hp.congr hopens.ne_nil hnil fun x hx => ?_
  obtain ⟨b,w,rfl,hb⟩ := hopens
  cases x with
  | nil => cases hx
  | cons c x =>
    obtain rfl := Option.some.inj hx
    exact h c x hb

theorem opens_encodeString (value : List UInt8) (hn : n+1 ≤ 8) (firstByte : UInt8) :
    Opens (encodeString value (n+1) firstByte) firstByte (n+1) := by
  have hmul : 2^(n+1) = 2*2^n := by rw [pow_succ,Nat.mul_comm]
  have hlow : ∀ mask : UInt8, mask.toNat%2^(n+1) = 0 → mask.toNat%2^n = 0 :=
    fun mask h => Nat.mod_eq_zero_of_dvd
      ((Dvd.intro_left 2 hmul.symm).trans (Nat.dvd_of_mod_eq_zero h))
  unfold encodeString
  simp only [Nat.add_sub_cancel]
  split_ifs
  · refine Opens.append ?_ _
    obtain ⟨b,rest,h,hb⟩ := opens_encodeInteger (Hpack.Huffman.encode value).length
      (by omega : n ≤ 8) (firstByte ||| UInt8.ofNat (1 <<< n))
    refine ⟨b,rest,h,fun mask hmask => ?_⟩
    rw [hb mask (hlow mask hmask),Nat.one_shiftLeft]
    exact and_of_low hn (by omega) hmask
  · refine Opens.append ?_ _
    obtain ⟨b,rest,h,hb⟩ := opens_encodeInteger value.length (by omega : n ≤ 8) firstByte
    exact ⟨b,rest,h,fun mask hmask => hb mask (hlow mask hmask)⟩

/-! ### Searches of the static table -/

theorem static_of_staticIndex (h : staticIndex name value = some index) :
    STATIC_TABLE[index]? = some (name,value) ∧ index < 99 := by
  obtain ⟨hlt,hp,-⟩ := findIdx?_eq_some_iff_getElem.1 h
  simp only [Bool.and_eq_true,beq_iff_eq] at hp
  refine ⟨?_,hlt⟩
  rw [getElem?_eq_getElem hlt,Option.some_inj]
  exact Prod.ext hp.1.1 hp.2

theorem static_of_staticNameIndex (h : staticNameIndex name = some index) :
    (∃ value, STATIC_TABLE[index]? = some (name,value)) ∧ index < 99 := by
  obtain ⟨hlt,hp,-⟩ := findIdx?_eq_some_iff_getElem.1 h
  simp only [beq_iff_eq] at hp
  refine ⟨⟨STATIC_TABLE[index].2,?_⟩,hlt⟩
  rw [getElem?_eq_getElem hlt,Option.some_inj]
  exact Prod.ext hp rfl

/-! ### Field lines -/

section Lines

variable {t : DynamicTable} {size base : ℕ} {name value : List UInt8}

theorem decodeString_value (hsize : size ≤ u64Max) (hvalue : value.length ≤ u64Max)
    (rest : List UInt8) :
    decodeString size 8 (encodeString value 8 0x00 ++ rest) = .ok (value,rest) :=
  (decodeString_encodeString hsize value 7 0x00 (by omega) (by decide) hvalue).1 rest

theorem decodeFieldLine_static (h : STATIC_TABLE[index]? = some (name,value))
    (hindex : index ≤ u64Max) (rest : List UInt8) :
    decodeFieldLine size t base (encodeInteger index 6 0xc0 ++ rest) = .ok (⟨name,value,false⟩,rest) := by
  obtain ⟨b,w,hw,hread,hb⟩ := read_encodeInteger index 6 0xc0 rest (by omega) (by decide) hindex
  rw [hw]
  simp only [decodeFieldLine,hread,hb 0x80 (by decide),hb 0x40 (by decide),bind,Except.bind,
    staticEntry,h,pure,Except.pure]
  rw [if_pos (by decide),if_pos (by decide)]

variable {absolute : ℕ}

theorem relativeEntry_of_get (range : String) (hbase : absolute < base)
    (h : t.get absolute = some e) : relativeEntry t base (base-1-absolute) range = .ok e := by
  unfold relativeEntry
  rw [if_neg (by omega),show base-1-(base-1-absolute) = absolute by omega,h]

theorem decodeFieldLine_relative (hbase : absolute < base) (hmax : base ≤ u64Max)
    (h : t.get absolute = some ⟨name,value⟩) (rest : List UInt8) :
    decodeFieldLine size t base (encodeInteger (base-1-absolute) 6 0x80 ++ rest) =
      .ok (⟨name,value,false⟩,rest) := by
  obtain ⟨b,w,hw,hread,hb⟩ :=
    read_encodeInteger (base-1-absolute) 6 0x80 rest (by omega) (by decide) (by omega)
  rw [hw]
  simp only [decodeFieldLine,hread,hb 0x80 (by decide),hb 0x40 (by decide),bind,Except.bind,
    relativeEntry_of_get _ hbase h,pure,Except.pure]
  rw [if_pos (by decide),if_neg (by decide)]

theorem decodeFieldLine_relativeName (hbase : absolute < base)
    (hmax : base ≤ u64Max) (h : t.get absolute = some e) (hsize : size ≤ u64Max)
    (hvalue : value.length ≤ u64Max) (rest : List UInt8) :
    decodeFieldLine size t base (encodeInteger (base-1-absolute) 4 0x40 ++
      encodeString value 8 0x00 ++ rest) = .ok (⟨e.name,value,false⟩,rest) := by
  obtain ⟨b,w,hw,hread,hb⟩ := read_encodeInteger (base-1-absolute) 4 0x40
    (encodeString value 8 0x00 ++ rest) (by omega) (by decide) (by omega)
  rw [append_assoc,hw]
  simp only [decodeFieldLine,hread,decodeString_value hsize hvalue rest,hb 0x80 (by decide),hb 0xc0 (by decide),
    hb 0x10 (by decide),hb 0x20 (by decide),relativeEntry_of_get _ hbase h,Functor.map,Except.map,
    bind,Except.bind,pure,Except.pure]
  rfl

theorem decodeFieldLine_postBase (hbase : base ≤ absolute) (hmax : absolute ≤ u64Max)
    (h : t.get absolute = some ⟨name,value⟩) (rest : List UInt8) :
    decodeFieldLine size t base (encodeInteger (absolute-base) 4 0x10 ++ rest) =
      .ok (⟨name,value,false⟩,rest) := by
  obtain ⟨b,w,hw,hread,hb⟩ :=
    read_encodeInteger (absolute-base) 4 0x10 rest (by omega) (by decide) (by omega)
  rw [hw]
  simp only [decodeFieldLine,hread,hb 0x80 (by decide),hb 0xc0 (by decide),hb 0xe0 (by decide),
    hb 0xf0 (by decide),postBaseEntry,checkedAdd,bind,Except.bind,pure,Except.pure]
  rw [if_neg (by decide),if_neg (by decide),if_neg (by decide),if_pos (by decide),
    if_pos (by omega),Nat.add_sub_cancel' hbase]
  simp only [h]

theorem decodeFieldLine_literal (hsize : size ≤ u64Max) (hutf8 : isUtf8 name = true)
    (hname : name.length ≤ u64Max) (hvalue : value.length ≤ u64Max) (rest : List UInt8) :
    decodeFieldLine size t base (QpackConnection.literalLine name value ++ rest) =
      .ok (⟨name,value,false⟩,rest) := by
  have hstring := decodeString_value hsize hvalue rest
  unfold QpackConnection.literalLine
  split
  · next index hindex =>
    obtain ⟨⟨v,hentry⟩,hlt⟩ := static_of_staticNameIndex hindex
    obtain ⟨b,w,hw,hread,hb⟩ := read_encodeInteger index 4 0x50
      (encodeString value 8 0x00 ++ rest) (by omega) (by decide) (by unfold u64Max; omega)
    rw [append_assoc,hw]
    simp only [decodeFieldLine,hread,hstring,hb 0x80 (by decide),hb 0xc0 (by decide),
      hb 0x10 (by decide),hb 0x20 (by decide),hentry,bind,Except.bind,pure,Except.pure]
    rfl
  · have hread : decodeString size 4
        (encodeString name 4 0x20 ++ (encodeString value 8 0x00 ++ rest)) =
        .ok (name,encodeString value 8 0x00 ++ rest) :=
      (decodeString_encodeString hsize name 3 0x20 (by omega) (by decide) hname).1 _
    obtain ⟨b,w,hw,hb⟩ := opens_encodeString name (by omega : 3+1 ≤ 8) 0x20
    rw [hw] at hread
    rw [append_assoc,hw]
    simp only [cons_append] at hread ⊢
    simp only [decodeFieldLine,hread,hstring,hb 0x80 (by decide),hb 0xc0 (by decide),
      hb 0xe0 (by decide),hb 0x10 (by decide),hutf8,bind,Except.bind,pure,Except.pure]
    rfl

end Lines

/-! ### Instructions -/

variable {capacity inserts advertised : ℕ} {t' : DynamicTable}

theorem insertChecked_of_insert
    (h : t.insert name value = some t') : insertChecked t name value = .ok t' := by
  simp only [insertChecked,h]

theorem reads_insertWithNameRef
    (staticRef : Bool) (hindex : index ≤ u64Max) (hvalue : size+value.length ≤ u64Max)
    (happly : applyNameRef t staticRef index value = .ok t') :
    Reads Error.eof (decodeEncoderInstruction size advertised t)
      (encodeEncoderInstruction (.insertWithNameRef staticRef index value)) t' := by
  have hclear : (if staticRef then (0xc0 : UInt8) else 0x80).toNat%2^6 = 0 := by
    cases staticRef <;> decide
  have hpair := (reads_encodeInteger index 6 _ (by omega) hclear hindex).bind
    (f := fun index buf => decodeString size 8 buf >>= fun r =>
      applyNameRef t staticRef index r.1 >>= fun t => pure (t,r.2))
    ((reads_encodeString value 7 0x00 (by omega) (by decide) hvalue).map happly)
  refine ((opens_encodeInteger index (by omega : 6 ≤ 8) _).append _).reads hpair rfl
    fun b x hb => ?_
  have hstatic : decide (b &&& 0x40 ≠ 0) = staticRef := by
    rw [hb 0x40 (by decide)]
    cases staticRef <;> decide
  have hfirst : b &&& 0x80 ≠ 0 := by
    rw [hb 0x80 (by decide)]
    cases staticRef <;> decide
  simp only [decodeEncoderInstruction,if_pos hfirst,hstatic]

/-- The insert of a literal name and its value, as the reader performs it. -/
private def insertLiteral (t : DynamicTable) (name value : List UInt8) :
    Except Error DynamicTable :=
  if isUtf8 value then insertChecked t name value
  else .error (Error.protocol "QPACK value is not UTF-8")

theorem reads_insertWithLiteralName (hname : isUtf8 name = true) (hvalue : isUtf8 value = true)
    (hnamelen : size+name.length ≤ u64Max) (hvaluelen : size+value.length ≤ u64Max)
    (hinsert : t.insert name value = some t') :
    Reads Error.eof (decodeEncoderInstruction size advertised t)
      (encodeEncoderInstruction (.insertWithLiteralName name value)) t' := by
  have hsecond : Reads Error.eof
      (fun buf => if isUtf8 name then
        decodeString size 8 buf >>= fun r => insertLiteral t name r.1 >>= fun t => pure (t,r.2)
        else .error (Error.protocol "QPACK field name is not UTF-8"))
      (encodeString value 8 0x00) t' := by
    simp only [hname,if_true]
    refine (reads_encodeString value 7 0x00 (by omega) (by decide) hvaluelen).map ?_
    simp [insertLiteral,hvalue,insertChecked_of_insert hinsert]
  have hpair := (reads_encodeString name 5 0x40 (by omega) (by decide) hnamelen).bind
    (f := fun name buf => if isUtf8 name then
      decodeString size 8 buf >>= fun r => insertLiteral t name r.1 >>= fun t => pure (t,r.2)
      else .error (Error.protocol "QPACK field name is not UTF-8")) hsecond
  refine ((opens_encodeString name (by omega : 5+1 ≤ 8) 0x40).append _).reads hpair rfl
    fun b x hb => ?_
  simp only [decodeEncoderInstruction,hb 0x80 (by decide),hb 0xc0 (by decide)]
  rw [if_neg (by decide),if_pos (by decide)]
  cases decodeString size 6 (b :: x) with
  | error e => rfl
  | ok r =>
    cases hr : isUtf8 r.1 with
    | false => simp [bind,Except.bind,hr]; rfl
    | true =>
      simp only [bind,Except.bind,hr,Bool.not_true,Bool.false_eq_true,if_false,if_true]
      cases decodeString size 8 r.2 with
      | error e => rfl
      | ok u =>
        cases hu : isUtf8 u.1 with
        | false => simp [insertLiteral,hu]; rfl
        | true => simp [insertLiteral,hu]

theorem reads_setCapacity (size : ℕ) (t : DynamicTable) (hcapacity : capacity ≤ u64Max)
    (hle : capacity ≤ advertised) :
    Reads Error.eof (decodeEncoderInstruction size advertised t)
      (encodeEncoderInstruction (.setCapacity capacity)) (t.setCapacity capacity) := by
  have hmap := (reads_encodeInteger capacity 5 0x20 (by omega) (by decide) hcapacity).map
    (f := fun capacity => if advertised < capacity then
      .error (Error.protocol "QPACK Set Capacity exceeds the advertised maximum")
      else .ok (t.setCapacity capacity)) (if_neg (not_lt.2 hle))
  refine (opens_encodeInteger capacity (by omega : 5 ≤ 8) 0x20).reads hmap rfl fun b x hb => ?_
  simp only [decodeEncoderInstruction,hb 0x80 (by decide),hb 0xc0 (by decide),hb 0xe0 (by decide)]
  rw [if_neg (by decide),if_neg (by decide),if_pos (by decide)]
  cases decodeInteger 5 (b :: x) with
  | error e => rfl
  | ok r =>
    by_cases hr : advertised < r.1
    · simp [bind,Except.bind,hr]; rfl
    · simp [bind,Except.bind,hr]

/-- An insert has the same effect on the peer's table, which is the one it was made for. -/
theorem reads_insertInstruction (advertised : ℕ) {log : List DynEntry} (h : Tracks t log)
    (hlog : log.length ≤ u64Max)
    (hname : isUtf8 name = true) (hvalue : isUtf8 value = true) (hnamelen : size+name.length ≤ u64Max)
    (hvaluelen : size+value.length ≤ u64Max) (hinsert : t.insert name value = some t') :
    Reads Error.eof (decodeEncoderInstruction size advertised t)
      (encodeEncoderInstruction (QpackConnection.insertInstruction t name value)) t' := by
  unfold QpackConnection.insertInstruction
  split
  · next index hindex =>
    obtain ⟨⟨v,hentry⟩,hlt⟩ := static_of_staticNameIndex hindex
    refine reads_insertWithNameRef true (by unfold u64Max; omega) hvaluelen ?_
    simp only [applyNameRef,hvalue,Bool.not_true,Bool.false_eq_true,if_false,if_true,
      staticEntry,hentry]
    exact insertChecked_of_insert hinsert
  split
  · next absolute hfound =>
    obtain ⟨hfirst,e,he,hp⟩ := (h.search fun e => e.name == name).1 absolute hfound
    obtain ⟨hlt,-⟩ := List.getElem?_eq_some_iff.1 he
    obtain rfl : e.name = name := by simpa using hp
    have hget : t.get absolute = some e := (h.get hfirst hlt).trans he
    have hcount := h.count
    refine reads_insertWithNameRef false (by omega) hvaluelen ?_
    simp only [applyNameRef,hvalue,Bool.not_true,Bool.false_eq_true,if_false,
      relativeEntry_of_get _ (by omega : absolute < t.insertCount) hget]
    exact insertChecked_of_insert hinsert
  · exact reads_insertWithLiteralName hname hvalue hnamelen hvaluelen hinsert

theorem reads_sectionAck (streamId : ℕ) (h : streamId ≤ u64Max) :
    Reads Error.eof decodeDecoderInstruction
      (encodeDecoderInstruction (.sectionAck streamId)) (.sectionAck streamId) := by
  have hmap := (reads_encodeInteger streamId 7 0x80 (by omega) (by decide) h).map
    (f := fun id => .ok (DecoderInstruction.sectionAck id)) rfl
  refine (opens_encodeInteger streamId (by omega : 7 ≤ 8) 0x80).reads hmap rfl fun b x hb => ?_
  rw [decodeDecoderInstruction,hb 0x80 (by decide),if_pos (by decide)]
  cases decodeInteger 7 (b :: x) <;> rfl

theorem reads_insertCountIncrement (increment : ℕ) (h : increment ≤ u64Max) :
    Reads Error.eof decodeDecoderInstruction
      (encodeDecoderInstruction (.insertCountIncrement increment))
      (.insertCountIncrement increment) := by
  have hmap := (reads_encodeInteger increment 6 0x00 (by omega) (by decide) h).map
    (f := fun n => .ok (DecoderInstruction.insertCountIncrement n)) rfl
  refine (opens_encodeInteger increment (by omega : 6 ≤ 8) 0x00).reads hmap rfl fun b x hb => ?_
  rw [decodeDecoderInstruction,hb 0x80 (by decide),hb 0xc0 (by decide),if_neg (by decide),
    if_neg (by decide)]
  cases decodeInteger 6 (b :: x) <;> rfl

/-! ### The section prefix -/

/-- The Required Insert Count travels modulo twice the entries a table can hold. A receiver whose
    insert count is within that many of it recovers it, as long as its own counter has room. -/
theorem requiredInsertCount_encode (hpos : 0 < required)
    (habove : required ≤ inserts+max (capacity/32) 1)
    (hbelow : inserts < required+max (capacity/32) 1) :
    requiredInsertCount (required%(2*max (capacity/32) 1)+1) inserts capacity =
      if u64Max < inserts+max (capacity/32) 1 then
        .error (Error.overflow "QPACK insert count overflow")
      else if u64Max < (inserts+max (capacity/32) 1)/(2*max (capacity/32) 1) *
          (2*max (capacity/32) 1)+(required%(2*max (capacity/32) 1)+1) then
        .error (Error.overflow "QPACK required insert count overflow")
      else .ok required := by
  simp only [requiredInsertCount,checkedAdd,checkedSub]
  generalize max (capacity/32) 1 = m at *
  rw [if_neg (Nat.succ_ne_zero _)]
  by_cases hcount : inserts+m ≤ u64Max
  · rw [if_pos hcount,if_neg (not_lt.2 hcount)]
    dsimp only
    have hle : (inserts+m)/(2*m)*(2*m) ≤ inserts+m := Nat.div_mul_le_self _ _
    have hlt : inserts+m < (inserts+m)/(2*m)*(2*m)+2*m :=
      Nat.lt_div_mul_add (by omega)
    generalize (inserts+m)/(2*m) = q at *
    by_cases hwrapped : q*(2*m)+(required%(2*m)+1) ≤ u64Max
    · rw [if_pos hwrapped,if_neg (not_lt.2 hwrapped),Option.bind_some,if_pos (by omega)]
      dsimp only
      by_cases hfront : q*(2*m) ≤ required
      · -- the count is in the range that the receiver's own falls into
        obtain ⟨s,rfl⟩ := Nat.exists_eq_add_of_le hfront
        rw [Nat.mul_add_mod' q (2*m) s,Nat.mod_eq_of_lt (by omega),if_neg (by omega)]
        simp only [if_neg (by omega : ¬ inserts+m < q*(2*m)+(s+1)-1)]
        rw [if_neg (by omega)]
        rfl
      · -- it is in the range before
        obtain ⟨k,rfl⟩ : ∃ k, q = k+1 := ⟨q-1,by cases q <;> omega⟩
        rw [Nat.succ_mul] at *
        obtain ⟨s,rfl⟩ := Nat.exists_eq_add_of_le (by omega : k*(2*m) ≤ required)
        rw [Nat.mul_add_mod' k (2*m) s,Nat.mod_eq_of_lt (by omega),if_neg (by omega)]
        simp only [if_pos (by omega : inserts+m < k*(2*m)+2*m+(s+1)-1)]
        rw [if_neg (by omega)]
        exact congrArg Except.ok (by omega)
    · rw [if_neg hwrapped,if_pos (not_le.1 hwrapped)]
      rfl
  · rw [if_neg hcount,if_pos (not_le.1 hcount)]

theorem decodeFieldSectionPrefix_delta {count delta : ℕ} {sign : UInt8}
    (hcountle : count ≤ u64Max) (hsign : sign.toNat%2^7 = 0) (hle : delta ≤ u64Max)
    (body : List UInt8) :
    decodeFieldSectionPrefix inserts capacity
      (encodeInteger count 8 0 ++ (encodeInteger delta 7 sign ++ body)) =
      (requiredInsertCount count inserts capacity).bind fun required =>
        if sign &&& 0x80 ≠ 0 then
          match checkedSub required ((delta+1)%2^64) with
          | none => .error (Error.protocol "QPACK negative base")
          | some base => .ok ((required,base),body)
        else
          match checkedAdd required delta with
          | none => .error (Error.overflow "QPACK base overflow")
          | some base => .ok ((required,base),body) := by
  have hread := (reads_encodeInteger count 8 0 (by omega) (by decide) hcountle).whole
    (encodeInteger delta 7 sign ++ body)
  obtain ⟨b,w,hw,hread',hb⟩ := read_encodeInteger delta 7 sign body (by omega) hsign hle
  unfold decodeFieldSectionPrefix
  rw [hread,hw]
  simp only [bind,Except.bind,hread',hb 0x80 (by decide)]
  rfl

/-- The prefix of a section is read back if the count is. -/
theorem decodeFieldSectionPrefix_encode {base : ℕ} (hrequired : required ≤ u64Max)
    (hbase : base ≤ u64Max) (hcapacity : capacity ≤ u64Max) {counted : Except Error ℕ}
    (hcounted : requiredInsertCount
      (if required = 0 then 0 else required%(2*max (capacity/32) 1)+1) inserts capacity =
      counted) (hexact : ∀ count, counted = .ok count → count = required) (body : List UInt8) :
    decodeFieldSectionPrefix inserts capacity
      (encodeFieldSectionPrefix required base capacity ++ body) =
        counted.map fun _ => ((required,base),body) := by
  have hcountle : (if required = 0 then 0 else required%(2*max (capacity/32) 1)+1) ≤
      u64Max := by
    have hmod := Nat.mod_lt required (by omega : 0 < 2*max (capacity/32) 1)
    unfold u64Max at *
    split_ifs <;> omega
  unfold encodeFieldSectionPrefix
  rw [append_assoc]
  by_cases hle : required ≤ base
  · rw [if_pos hle,decodeFieldSectionPrefix_delta hcountle (by decide) (by omega),hcounted]
    cases counted with
    | error e => rfl
    | ok count =>
      obtain rfl := hexact count rfl
      simp only [Except.bind,checkedAdd,Nat.add_sub_cancel' hle,if_pos hbase]
      rfl
  · have hwrap : (required-base-1+1)%2^64 = required-base := by
      unfold u64Max at hrequired
      omega
    rw [if_neg hle,decodeFieldSectionPrefix_delta hcountle (by decide) (by omega),hwrap,hcounted]
    cases counted with
    | error e => rfl
    | ok count =>
      obtain rfl := hexact count rfl
      have hsub : count-(count-base) = base := Nat.sub_sub_self (by omega)
      simp only [Except.bind,checkedSub,if_pos (Nat.sub_le count base),hsub]
      rfl

end Courierust.Qpack
