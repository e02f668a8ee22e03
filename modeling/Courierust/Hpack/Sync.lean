import Courierust.Hpack.Codec

/-!
# The two HPACK tables stay in step

Encoder and decoder each keep a dynamic table, and every index on the wire means
something only while the two are equal. Equality of the tables is carried through
every representation of a block, through the size updates at its start, and from
block to block over a whole connection.
-/

namespace Courierust.Hpack

open List
open Http (HeaderName)

def HeaderField.received (f : HeaderField) : HeaderField :=
  { f with neverIndexed := f.neverIndexed || isSensitiveName f.name.bytes }

def HeaderField.listSize (f : HeaderField) : ℕ :=
  FIELD_OVERHEAD + f.name.bytes.length + f.value.length

def headerListSize (fields : List HeaderField) : ℕ := (fields.map HeaderField.listSize).sum

/-! ### First octets -/

private theorem indexed_octet : ∀ v < 128, let b := (0x80 : UInt8) ||| UInt8.ofNat v
    b &&& 0x80 ≠ 0 ∧ (b &&& 0x7f).toNat = v := by decide

private theorem incremental_octet : ∀ v < 64, let b := (0x40 : UInt8) ||| UInt8.ofNat v
    b &&& 0x80 = 0 ∧ b &&& 0x40 ≠ 0 ∧ (b &&& 0x3f).toNat = v := by decide

private theorem update_octet : ∀ v < 32, let b := (0x20 : UInt8) ||| UInt8.ofNat v
    b &&& 0x80 = 0 ∧ b &&& 0x40 = 0 ∧ b &&& 0x20 ≠ 0 ∧ (b &&& 0x1f).toNat = v := by decide

private theorem literal_octet : ∀ never : Bool, ∀ v < 16,
    let b := (if never then (0x10 : UInt8) else 0x00) ||| UInt8.ofNat v
    b &&& 0x80 = 0 ∧ b &&& 0x40 = 0 ∧ b &&& 0x20 = 0 ∧
      decide (b &&& 0x10 ≠ 0) = never ∧ (b &&& 0x0f).toNat = v := by decide

/-! ### One field -/

/-- What a decoder and its table must satisfy for the encoder's choices to be readable:
    every index fits a machine integer, and a string within the list limit is accepted. -/
structure Readable (d : Decoder) (table : Table) : Prop where
  valid : table.dynTable.Valid
  capacity : table.dynTable.maxSize ≤ u64Max
  strings : d.maxHeaderListSize ≤ d.maxStringSize

variable {d : Decoder} {p : Progress} {e : Encoder} {table : Table}

theorem Readable.index_le (h : Readable d table) :
    STATIC_LEN+table.dynTable.entries.length ≤ u64Max := by
  have := h.valid.length_le
  have := h.capacity
  unfold STATIC_LEN u64Max at *
  omega

theorem readLiteral_writeLiteral (flags : UInt8) (n : ℕ) (never : Bool) (name : HeaderName)
    (value : List UInt8) (h : Readable d p.table)
    (hname : name.bytes.length ≤ d.maxHeaderListSize)
    (hvalue : value.length ≤ d.maxHeaderListSize) :
    ∃ v tail, writeLiteral flags n (p.table.findName name.bytes) name.bytes value =
        (flags ||| UInt8.ofNat (min v (2^n-1))) :: tail ∧
      ∀ (bits : UInt8) (rest : List UInt8), bits.toNat = min v (2^n-1) →
        d.readLiteral p n bits never (tail ++ rest) =
          .ok (⟨name,value,never⟩,name.bytes.length,rest) := by
  have hmax := d.maxHeaderListSize.le_max
  have hstrings := h.strings
  have hval : ∀ rest, readString d.maxStringSize (writeString value ++ rest) = .ok (value,rest) :=
    fun rest => readString_writeString (by omega) (by omega) rest
  cases hidx : p.table.findName name.bytes with
  | some idx =>
    obtain ⟨⟨other,hget⟩,hpos,hle⟩ := Table.get_of_findName hidx
    refine ⟨idx,intTail n idx ++ writeString value,by simp [writeLiteral,writeInt_eq],?_⟩
    intro bits rest hbits
    have hint := readInt_intTail (le_trans hle h.index_le) hbits
      (writeString value ++ rest)
    simp only [Decoder.readLiteral,append_assoc,hint,bind,Except.bind,Decoder.readName,
      if_neg hpos.ne',hget,HeaderName.fromHpackBytes_bytes,hval,pure,Except.pure]
  | none =>
    have hstr : ∀ rest, readString d.maxStringSize (writeString name.bytes ++ rest) =
        .ok (name.bytes,rest) := fun rest => readString_writeString (by omega) (by omega) rest
    refine ⟨0,intTail n 0 ++ writeString name.bytes ++ writeString value,
      by simp [writeLiteral,writeInt_eq],?_⟩
    intro bits rest hbits
    have hint := readInt_intTail (Nat.zero_le _) hbits
      (writeString name.bytes ++ (writeString value ++ rest))
    simp only [Decoder.readLiteral,append_assoc,hint,bind,Except.bind,Decoder.readName,
      if_true,hstr,HeaderName.fromHpackBytes_bytes,hval,pure,Except.pure]

/-- Whatever representation the encoder picks for a field, the decoder reads the field
    back and changes its table in the same way. -/
theorem readRepresentation_writeField (m : ℕ) {f : HeaderField} (h : Readable d p.table)
    (hsize : p.total+f.listSize ≤ d.maxHeaderListSize) :
    ∃ b tail, (Encoder.writeField m p.table f).1 = b :: tail ∧ ∀ rest,
      d.readRepresentation p b (tail ++ rest) =
        .ok (⟨(Encoder.writeField m p.table f).2,p.total+f.listSize,true,
          p.out ++ [f.received]⟩,rest) := by
  obtain ⟨name,value,flag⟩ := f
  unfold HeaderField.listSize at hsize
  simp only at hsize
  have hpush : ∀ never, d.push p ⟨name,value,never⟩ name.bytes.length = .ok { p with
      total := p.total+(FIELD_OVERHEAD+name.bytes.length+value.length)
      sawRep := true
      out := p.out ++ [⟨name,value,never⟩] } := by
    intro never
    have := d.maxHeaderListSize.le_max
    simp only [Decoder.push,checkedAdd]
    rw [if_pos (by omega)]
    simp only
    rw [if_neg (by omega)]
  have hliteral := fun flags n never => readLiteral_writeLiteral flags n never name
    value h (by omega) (by omega)
  unfold Encoder.writeField HeaderField.received HeaderField.listSize
  by_cases hsens : flag || isSensitiveName name.bytes
  · -- Never indexed
    obtain ⟨v,tail,hwrite,hread⟩ := hliteral 0x10 4 true
    obtain ⟨h80,h40,h20,h10,hbits⟩ := literal_octet true (min v (2^4-1)) (by omega)
    simp only [if_true] at h80 h40 h20 h10 hbits
    simp only [hsens,if_true]
    refine ⟨_,tail,hwrite,fun rest => ?_⟩
    simp only [Decoder.readRepresentation,h80,h40,h20,h10,ne_eq,not_true_eq_false,if_false,
      hread _ rest hbits,bind,Except.bind,hpush,pure,Except.pure]
  simp only [hsens,if_false,Bool.false_eq_true]
  cases hfull : p.table.findFull name.bytes value with
  | some idx =>
    obtain ⟨hget,hpos,hle⟩ := Table.get_of_findFull hfull
    obtain ⟨h80,hbits⟩ := indexed_octet (min idx (2^7-1)) (by omega)
    refine ⟨_,intTail 7 idx,writeInt_eq ..,fun rest => ?_⟩
    have hint := readInt_intTail (le_trans hle h.index_le) hbits rest
    simp only [Decoder.readRepresentation,h80,ne_eq,not_false_eq_true,if_true,hint,bind,
      Except.bind,if_neg hpos.ne',hget,HeaderName.fromHpackBytes_bytes,hpush,pure,
      Except.pure]
  | none =>
    split_ifs with hindex
    · -- Incremental indexing
      obtain ⟨v,tail,hwrite,hread⟩ := hliteral 0x40 6 false
      obtain ⟨h80,h40,hbits⟩ := incremental_octet (min v (2^6-1)) (by omega)
      refine ⟨_,tail,hwrite,fun rest => ?_⟩
      simp only [Decoder.readRepresentation,h80,h40,ne_eq,not_true_eq_false,
        not_false_eq_true,if_false,if_true,hread _ rest hbits,bind,Except.bind,hpush,pure,
        Except.pure]
    · -- Without indexing
      obtain ⟨v,tail,hwrite,hread⟩ := hliteral 0x00 4 false
      obtain ⟨h80,h40,h20,h10,hbits⟩ := literal_octet false (min v (2^4-1)) (by omega)
      simp only [Bool.false_eq_true,if_false] at h80 h40 h20 h10 hbits
      refine ⟨_,tail,hwrite,fun rest => ?_⟩
      simp only [Decoder.readRepresentation,h80,h40,h20,h10,ne_eq,not_true_eq_false,
        if_false,hread _ rest hbits,bind,Except.bind,hpush,pure,Except.pure]

theorem Readable.writeField (h : Readable d table) (m : ℕ) (f : HeaderField) :
    Readable d (Encoder.writeField m table f).2 := by
  have hinsert := h.valid.insert f.name.bytes f.value
  have hnew : Readable d ⟨table.dynTable.insert f.name.bytes f.value⟩ :=
    ⟨hinsert.1,by simpa only [hinsert.2] using h.capacity,h.strings⟩
  simp only [Encoder.writeField]
  split
  · exact h
  · split_ifs
    · exact h
    · exact hnew
    · exact h

theorem Readable.writeFields (h : Readable d table) (m : ℕ) (fields : List HeaderField) :
    Readable d (Encoder.writeFields m table fields).2 := by
  induction fields generalizing table with
  | nil => exact h
  | cons f fields ih => exact ih (h.writeField m f)

/-! ### One block -/

theorem decodeFrom_writeFields (m : ℕ) (fields : List HeaderField) (h : Readable d p.table)
    (hsize : p.total+headerListSize fields ≤ d.maxHeaderListSize) (fuel : ℕ)
    (hfuel : (Encoder.writeFields m p.table fields).1.length ≤ fuel) :
    (d.decodeFrom fuel p (Encoder.writeFields m p.table fields).1).map
        (fun q => (q.out,q.table)) =
      .ok (p.out ++ fields.map HeaderField.received,
        (Encoder.writeFields m p.table fields).2) := by
  induction fields generalizing p fuel with
  | nil => simp [Encoder.writeFields,Decoder.decodeFrom,Except.map]
  | cons f fields ih =>
    simp only [headerListSize,map_cons,sum_cons] at hsize ih
    obtain ⟨b,tail,hwrite,hread⟩ := readRepresentation_writeField m (f := f) h (by omega)
    simp only [Encoder.writeFields,hwrite,cons_append,length_cons] at hfuel ⊢
    obtain ⟨fuel,rfl⟩ : ∃ k, fuel = k+1 := ⟨fuel-1,by omega⟩
    simp only [Decoder.decodeFrom,hread,bind,Except.bind]
    have hrest := ih (p := ⟨(Encoder.writeField m p.table f).2,p.total+f.listSize,true,
      p.out ++ [f.received]⟩) (h.writeField m f) (by simp only; omega) fuel (by
        simp only [length_append] at hfuel
        simp only
        omega)
    simpa using hrest

theorem readRepresentation_update {size : ℕ} (hsize : size ≤ d.maxTableSize)
    (hrep : p.sawRep = false) :
    ∃ b tail, writeTableSizeUpdate size = b :: tail ∧ ∀ rest,
      d.readRepresentation p b (tail ++ rest) =
        .ok ({ p with table := ⟨p.table.dynTable.setMaxSize size⟩ },rest) := by
  obtain ⟨h80,h40,h20,hbits⟩ := update_octet (min size (2^5-1)) (by omega)
  refine ⟨_,intTail 5 size,writeInt_eq ..,fun rest => ?_⟩
  have hint := readInt_intTail (le_trans hsize d.maxTableSize.le_max) hbits rest
  simp only [Decoder.readRepresentation,h80,h40,h20,ne_eq,not_true_eq_false,
    not_false_eq_true,if_false,if_true,hrep,Bool.false_eq_true,hint,bind,Except.bind,pure,
    Except.pure]
  rw [if_neg (by omega)]

theorem decodeFrom_writeSizeUpdates (htable : p.table = e.table) (hrep : p.sawRep = false)
    (hpending : ∀ min newest, e.pendingSizeUpdate = some (min,newest) →
      min ≤ d.maxTableSize ∧ newest ≤ d.maxTableSize) (rest : List UInt8) (fuel : ℕ)
    (hfuel : (e.writeSizeUpdates.1 ++ rest).length ≤ fuel) :
    ∃ fuel', rest.length ≤ fuel' ∧ d.decodeFrom fuel p (e.writeSizeUpdates.1 ++ rest) =
      d.decodeFrom fuel' { p with table := e.writeSizeUpdates.2 } rest := by
  -- One update costs one unit of fuel and at least one octet.
  have hone : ∀ {q : Progress} {size : ℕ} (fuel : ℕ) (rest : List UInt8),
      size ≤ d.maxTableSize → q.sawRep = false →
      (writeTableSizeUpdate size ++ rest).length ≤ fuel →
      ∃ fuel', rest.length ≤ fuel' ∧ d.decodeFrom fuel q (writeTableSizeUpdate size ++ rest) =
        d.decodeFrom fuel' { q with table := ⟨q.table.dynTable.setMaxSize size⟩ } rest := by
    intro q size fuel rest hsize hq hfuel
    obtain ⟨b,tail,hwrite,hread⟩ := readRepresentation_update hsize hq
    rw [hwrite] at hfuel ⊢
    simp only [cons_append,length_cons,length_append] at hfuel
    obtain ⟨fuel,rfl⟩ : ∃ k, fuel = k+1 := ⟨fuel-1,by omega⟩
    refine ⟨fuel,by omega,?_⟩
    simp only [cons_append,Decoder.decodeFrom,hread,bind,Except.bind]
  unfold Encoder.writeSizeUpdates at hfuel ⊢
  cases hp : e.pendingSizeUpdate with
  | none =>
    simp only [hp,nil_append,← htable] at hfuel ⊢
    exact ⟨fuel,hfuel,rfl⟩
  | some update =>
    obtain ⟨min,newest⟩ := update
    obtain ⟨hmin,hnewest⟩ := hpending min newest hp
    simp only [hp] at hfuel ⊢
    by_cases hne : min = newest
    · simp only [hne,ne_eq,not_true_eq_false,if_false,nil_append,← htable] at hfuel ⊢
      exact hone fuel rest hnewest hrep hfuel
    simp only [ne_eq,hne,not_false_eq_true,if_true,append_assoc,← htable] at hfuel ⊢
    obtain ⟨fuel₁,hf₁,h₁⟩ := hone fuel _ hmin hrep hfuel
    obtain ⟨fuel₂,hf₂,h₂⟩ := hone (q := { p with table := ⟨p.table.dynTable.setMaxSize min⟩ })
      fuel₁ rest hnewest hrep hf₁
    exact ⟨fuel₂,hf₂,h₁.trans h₂⟩

/-! ### A whole connection -/

inductive Op where
  | setPeerTableSize (size : ℕ)
  | encode (fields : List HeaderField)

/-- A block that was encoded: its fields, its octets, and the table after it. -/
structure Block where
  fields : List HeaderField
  octets : List UInt8
  table : DynamicTable

def Encoder.run : Encoder → List Op → List Block
  | _, [] => []
  | e, .setPeerTableSize size :: ops => (e.setPeerTableSize size).run ops
  | e, .encode fields :: ops =>
    let (octets, e) := e.encode fields
    ⟨fields, octets, e.table.dynTable⟩ :: e.run ops

def Decoder.run : Decoder → List (List UInt8) → Except Error (List (List HeaderField × DynamicTable))
  | _, [] => .ok []
  | d, block :: blocks => do
    let (fields, d) ← d.decode block
    let rest ← d.run blocks
    return (fields, d.table.dynTable) :: rest

def Op.Admissible (maxTableSize maxHeaderListSize : Usize) : Op → Prop
  | .setPeerTableSize size => size ≤ maxTableSize
  | .encode fields => headerListSize fields ≤ maxHeaderListSize

instance (maxTableSize maxHeaderListSize : Usize) :
    DecidablePred (Op.Admissible maxTableSize maxHeaderListSize)
  | .setPeerTableSize size => inferInstanceAs (Decidable (size ≤ maxTableSize))
  | .encode fields => inferInstanceAs (Decidable (headerListSize fields ≤ maxHeaderListSize))

/-- The invariant between two blocks: equal tables, and only sizes pending that the
    decoder will accept. -/
structure Synced (e : Encoder) (d : Decoder) : Prop where
  table : e.table = d.table
  readable : Readable d d.table
  pending : ∀ min newest, e.pendingSizeUpdate = some (min, newest) →
    min ≤ d.maxTableSize ∧ newest ≤ d.maxTableSize

theorem synced_new (maxTableSize maxHeaderListSize : Usize) :
    Synced Encoder.new (Decoder.new maxTableSize maxHeaderListSize) where
  table := rfl
  readable := by
    refine ⟨DynamicTable.valid_default,?_,?_⟩
    · change 4096 ≤ u64Max
      decide
    have := maxHeaderListSize.le_max
    simp only [Decoder.new,satMul]
    omega
  pending := by simp [Encoder.new]

theorem Synced.setPeerTableSize (h : Synced e d) {size : ℕ} (hsize : size ≤ d.maxTableSize) :
    Synced (e.setPeerTableSize size) d where
  table := h.table
  readable := h.readable
  pending := by
    intro min newest hp
    simp only [Encoder.setPeerTableSize,Option.some.injEq] at hp
    split at hp
    · next m n hold =>
      obtain ⟨rfl,rfl⟩ : Nat.min m size = min ∧ size = newest := by simpa using hp
      exact ⟨le_trans (Nat.min_le_right _ _) hsize,hsize⟩
    · obtain ⟨rfl,rfl⟩ : size = min ∧ size = newest := by simpa using hp
      exact ⟨hsize,hsize⟩

theorem Synced.readable_writeSizeUpdates (h : Synced e d) : Readable d e.writeSizeUpdates.2 := by
  have hset : ∀ {t : DynamicTable} {size : ℕ}, t.Valid → size ≤ d.maxTableSize →
      Readable d ⟨t.setMaxSize size⟩ := by
    intro t size ht hsize
    obtain ⟨hvalid,hmax⟩ := ht.setMaxSize size
    exact ⟨hvalid,by simpa only [hmax] using le_trans hsize d.maxTableSize.le_max,
      h.readable.strings⟩
  unfold Encoder.writeSizeUpdates
  cases hp : e.pendingSizeUpdate with
  | none => simpa only [h.table] using h.readable
  | some update =>
    obtain ⟨min,newest⟩ := update
    obtain ⟨-,hnewest⟩ := h.pending min newest hp
    have hvalid : e.table.dynTable.Valid := h.table ▸ h.readable.valid
    by_cases hne : min = newest
    · simpa only [hne,ne_eq,not_true_eq_false,if_false] using hset hvalid hnewest
    · simpa only [ne_eq,hne,not_false_eq_true,if_true] using
        hset (hvalid.setMaxSize min).1 hnewest

/-- One block: it decodes to the fields it was made from, and leaves the two ends in step. -/
theorem Synced.encode (h : Synced e d) {fields : List HeaderField}
    (hsize : headerListSize fields ≤ d.maxHeaderListSize) :
    ∃ d', d.decode (e.encode fields).1 = .ok (fields.map HeaderField.received,d') ∧
      d'.maxTableSize = d.maxTableSize ∧ d'.maxHeaderListSize = d.maxHeaderListSize ∧
      Synced (e.encode fields).2 d' := by
  have hreadable := h.readable_writeSizeUpdates
  let octets := (Encoder.writeFields e.maxIndexLen e.writeSizeUpdates.2 fields).1
  obtain ⟨fuel,hfuel,hupdates⟩ := decodeFrom_writeSizeUpdates
    (p := ⟨d.table,0,false,[]⟩) h.table.symm rfl h.pending octets _ le_rfl
  obtain ⟨q,hq,hres⟩ := Except.map_eq_ok.1 (decodeFrom_writeFields e.maxIndexLen fields
    (p := ⟨e.writeSizeUpdates.2,0,false,[]⟩) hreadable (by simpa using hsize) fuel hfuel)
  obtain ⟨hout,htable⟩ := Prod.mk.inj hres
  refine ⟨{ d with table := q.table },?_,rfl,rfl,htable.symm,?_,by simp [Encoder.encode]⟩
  · have hrun := hupdates.trans hq
    simp only [Decoder.decode,Encoder.encode,octets] at hrun ⊢
    simp only [hrun,bind,Except.bind,pure,Except.pure,hout,nil_append]
  · have := hreadable.writeFields e.maxIndexLen fields
    rw [← htable] at this
    exact ⟨this.valid,this.capacity,this.strings⟩

/-- Over a whole connection every block decodes to the fields it was made from, with the
    sensitive names marked, and after every block the two dynamic tables are the same. -/
theorem hpack_stays_synchronised (maxTableSize maxHeaderListSize : Usize) (ops : List Op)
    (h : ∀ op ∈ ops, op.Admissible maxTableSize maxHeaderListSize) :
    (Decoder.new maxTableSize maxHeaderListSize).run ((Encoder.new.run ops).map Block.octets) =
      .ok ((Encoder.new.run ops).map fun b => (b.fields.map HeaderField.received, b.table)) := by
  have hrun : ∀ (e : Encoder) (d : Decoder), Synced e d → d.maxTableSize = maxTableSize →
      d.maxHeaderListSize = maxHeaderListSize →
      d.run ((e.run ops).map Block.octets) =
        .ok ((e.run ops).map fun b => (b.fields.map HeaderField.received,b.table)) := by
    induction ops with
    | nil => intros; rfl
    | cons op ops ih =>
      intro e d hsync hsize hlist
      rw [forall_mem_cons] at h
      cases op with
      | setPeerTableSize size =>
        exact ih h.2 _ d (hsync.setPeerTableSize (hsize ▸ h.1)) hsize hlist
      | encode fields =>
        obtain ⟨d',hdec,hsize',hlist',hsync'⟩ := hsync.encode (hlist ▸ h.1)
        have hrest := ih h.2 _ d' hsync' (hsize'.trans hsize) (hlist'.trans hlist)
        simp only [Encoder.run,map_cons,Decoder.run,hdec,hrest,bind,Except.bind,pure,
          Except.pure,hsync'.table]
  exact hrun _ _ (synced_new _ _) rfl rfl

/-- The table is shrunk and grown again before a block that indexes a field; a second
    block then refers to it, next to a sensitive field. -/
theorem hpack_synchronised_two_blocks :
    let field := HeaderField.mk ⟨Http.ascii "x-id", by decide⟩ (Http.ascii "7") false
    let cookie := HeaderField.mk ⟨Http.ascii "cookie", by decide⟩ (Http.ascii "a=b") false
    let blocks := Encoder.new.run
      [.setPeerTableSize 0, .setPeerTableSize 4096, .encode [field], .encode [field, cookie]]
    (Decoder.new 4096 65536).run (blocks.map Block.octets) =
      .ok (blocks.map fun b => (b.fields.map HeaderField.received, b.table)) :=
  hpack_stays_synchronised 4096 65536 _ (by decide)

end Courierust.Hpack
