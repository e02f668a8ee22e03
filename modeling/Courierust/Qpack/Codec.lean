import Courierust.Hpack.Literal
import Courierust.Http.Text
import Mathlib.Data.Nat.Bitwise

/-!
# The QPACK codec

Model of `courierust_h3::qpack` (RFC 9204): prefix integers, string literals, the
static and the dynamic table, the prefix of a field section, the field lines, and the
instructions of the two streams. Readers take the octets that are left and hand back
what they leave; a short input answers `Error.eof`.
-/

namespace Courierust.Qpack

open List
open Http (ascii isUtf8)
open Reader (Reads)

/-! ### Static table -/

/-- RFC 9204 Appendix A, indexed from 0. -/
def STATIC_TABLE : List (List UInt8 × List UInt8) := [
    (ascii ":authority", ascii ""), (ascii ":path", ascii "/"), (ascii "age", ascii "0"),
    (ascii "content-disposition", ascii ""), (ascii "content-length", ascii "0"),
    (ascii "cookie", ascii ""), (ascii "date", ascii ""), (ascii "etag", ascii ""),
    (ascii "if-modified-since", ascii ""), (ascii "if-none-match", ascii ""),
    (ascii "last-modified", ascii ""), (ascii "link", ascii ""), (ascii "location", ascii ""),
    (ascii "referer", ascii ""), (ascii "set-cookie", ascii ""),
    (ascii ":method", ascii "CONNECT"), (ascii ":method", ascii "DELETE"),
    (ascii ":method", ascii "GET"), (ascii ":method", ascii "HEAD"),
    (ascii ":method", ascii "OPTIONS"), (ascii ":method", ascii "POST"),
    (ascii ":method", ascii "PUT"), (ascii ":scheme", ascii "http"),
    (ascii ":scheme", ascii "https"), (ascii ":status", ascii "103"),
    (ascii ":status", ascii "200"), (ascii ":status", ascii "304"),
    (ascii ":status", ascii "404"), (ascii ":status", ascii "503"), (ascii "accept", ascii "*/*"),
    (ascii "accept", ascii "application/dns-message"),
    (ascii "accept-encoding", ascii "gzip, deflate, br"), (ascii "accept-ranges", ascii "bytes"),
    (ascii "access-control-allow-headers", ascii "cache-control"),
    (ascii "access-control-allow-headers", ascii "content-type"),
    (ascii "access-control-allow-origin", ascii "*"), (ascii "cache-control", ascii "max-age=0"),
    (ascii "cache-control", ascii "max-age=2592000"),
    (ascii "cache-control", ascii "max-age=604800"), (ascii "cache-control", ascii "no-cache"),
    (ascii "cache-control", ascii "no-store"),
    (ascii "cache-control", ascii "public, max-age=31536000"),
    (ascii "content-encoding", ascii "br"), (ascii "content-encoding", ascii "gzip"),
    (ascii "content-type", ascii "application/dns-message"),
    (ascii "content-type", ascii "application/javascript"),
    (ascii "content-type", ascii "application/json"),
    (ascii "content-type", ascii "application/x-www-form-urlencoded"),
    (ascii "content-type", ascii "image/gif"), (ascii "content-type", ascii "image/jpeg"),
    (ascii "content-type", ascii "image/png"), (ascii "content-type", ascii "text/css"),
    (ascii "content-type", ascii "text/html; charset=utf-8"),
    (ascii "content-type", ascii "text/plain"),
    (ascii "content-type", ascii "text/plain;charset=utf-8"), (ascii "range", ascii "bytes=0-"),
    (ascii "strict-transport-security", ascii "max-age=31536000"),
    (ascii "strict-transport-security", ascii "max-age=31536000; includesubdomains"),
    (ascii "strict-transport-security", ascii "max-age=31536000; includesubdomains; preload"),
    (ascii "vary", ascii "accept-encoding"), (ascii "vary", ascii "origin"),
    (ascii "x-content-type-options", ascii "nosniff"),
    (ascii "x-xss-protection", ascii "1; mode=block"), (ascii ":status", ascii "100"),
    (ascii ":status", ascii "204"), (ascii ":status", ascii "206"),
    (ascii ":status", ascii "302"), (ascii ":status", ascii "400"),
    (ascii ":status", ascii "403"), (ascii ":status", ascii "421"),
    (ascii ":status", ascii "425"), (ascii ":status", ascii "500"),
    (ascii "accept-language", ascii ""),
    (ascii "access-control-allow-credentials", ascii "FALSE"),
    (ascii "access-control-allow-credentials", ascii "TRUE"),
    (ascii "access-control-allow-headers", ascii "*"),
    (ascii "access-control-allow-methods", ascii "get"),
    (ascii "access-control-allow-methods", ascii "get, post, options"),
    (ascii "access-control-allow-methods", ascii "options"),
    (ascii "access-control-expose-headers", ascii "content-length"),
    (ascii "access-control-request-headers", ascii "content-type"),
    (ascii "access-control-request-method", ascii "get"),
    (ascii "access-control-request-method", ascii "post"), (ascii "alt-svc", ascii "clear"),
    (ascii "authorization", ascii ""),
    (ascii "content-security-policy", ascii "script-src 'none'; object-src 'none'; base-uri 'none'"),
    (ascii "early-data", ascii "1"), (ascii "expect-ct", ascii ""), (ascii "forwarded", ascii ""),
    (ascii "if-range", ascii ""), (ascii "origin", ascii ""), (ascii "purpose", ascii "prefetch"),
    (ascii "server", ascii ""), (ascii "timing-allow-origin", ascii "*"),
    (ascii "upgrade-insecure-requests", ascii "1"), (ascii "user-agent", ascii ""),
    (ascii "x-forwarded-for", ascii ""), (ascii "x-frame-options", ascii "deny"),
    (ascii "x-frame-options", ascii "sameorigin")]

/-- `static_index`: an exact match with a value. -/
def staticIndex (name value : List UInt8) : Option ℕ :=
  STATIC_TABLE.findIdx? fun (n, v) => n == name && !v.isEmpty && v == value

def staticNameIndex (name : List UInt8) : Option ℕ :=
  STATIC_TABLE.findIdx? fun (n, _) => n == name

/-! ### Integers and strings -/

/-- `encode_integer`. The octets after the first are those of HPACK's `write_int`. -/
def encodeInteger (value prefixBits : ℕ) (firstByte : UInt8) : List UInt8 :=
  let maxPrefix := 2 ^ prefixBits - 1
  if value < maxPrefix then [firstByte ||| UInt8.ofNat value]
  else
    (firstByte ||| UInt8.ofNat maxPrefix) ::
      Hpack.intTailFrom (value - maxPrefix) (value - maxPrefix)

/-- The loop of `decode_integer` over the octets after the first. -/
def decodeIntegerFrom : List UInt8 → ℕ → ℕ → Except Error (ℕ × List UInt8)
  | [], _, _ => .error Error.eof
  | byte :: buf, shift, value =>
    if 64 ≤ shift then .error (Error.overflow "QPACK integer too large")
    else
      match checkedAdd value (((byte &&& 0x7f).toNat <<< shift) % 2 ^ 64) with
      | none => .error (Error.overflow "QPACK integer overflow")
      | some value =>
        if byte &&& 0x80 = 0 then .ok (value, buf) else decodeIntegerFrom buf (shift + 7) value

def decodeInteger (prefixBits : ℕ) (buf : List UInt8) : Except Error (ℕ × List UInt8) :=
  if prefixBits < 1 ∨ 8 < prefixBits then
    .error (Error.protocol "QPACK prefix width out of range")
  else
    match buf with
    | [] => .error Error.eof
    | first :: buf =>
      let maxPrefix := 2 ^ prefixBits - 1
      let value := (first &&& UInt8.ofNat maxPrefix).toNat
      if value < maxPrefix then .ok (value, buf) else decodeIntegerFrom buf 0 value

/-- `encode_string`: Huffman-coded when that is shorter, with the flag above the length. -/
def encodeString (value : List UInt8) (prefixBits : ℕ) (firstByte : UInt8) : List UInt8 :=
  let huffman := Hpack.Huffman.encode value
  if huffman.length < value.length then
    encodeInteger huffman.length (prefixBits - 1) (firstByte ||| UInt8.ofNat (1 <<< (prefixBits - 1)))
      ++ huffman
  else encodeInteger value.length (prefixBits - 1) firstByte ++ value

/-- `decode_string`, at the end of a slice of `size` octets. -/
def decodeString (size prefixBits : ℕ) (buf : List UInt8) :
    Except Error (List UInt8 × List UInt8) :=
  match buf with
  | [] => .error Error.eof
  | first :: _ => do
    let (len, buf) ← decodeInteger (prefixBits - 1) buf
    if u64Max < size - buf.length + len then
      throw (Error.overflow "QPACK string length overflow")
    if buf.length < len then
      throw Error.eof
    if first &&& UInt8.ofNat (1 <<< (prefixBits - 1)) ≠ 0 then
      match Hpack.Huffman.decode (buf.take len) (max (satMul len 2) 1024) with
      | .ok out => return (out, buf.drop len)
      | .error _ => throw (Error.protocol "QPACK Huffman decode failed")
    else return (buf.take len, buf.drop len)

/-! ### Dynamic table -/

structure DynEntry where
  name : List UInt8
  value : List UInt8
  deriving DecidableEq

structure DynamicTable where
  entries : List DynEntry
  size : ℕ
  capacity : ℕ
  insertCount : ℕ
  deriving DecidableEq

namespace DynamicTable

def new (capacity : ℕ) : DynamicTable := ⟨[], 0, capacity, 0⟩

def entrySize (name value : List UInt8) : ℕ := satAdd (satAdd name.length value.length) 32

def evictOne (t : DynamicTable) : DynamicTable :=
  match t.entries with
  | [] => t
  | e :: rest => { t with entries := rest, size := t.size - entrySize e.name e.value }

/-- The eviction loops: oldest entries go while `extra` octets do not fit. -/
def evictFrom (extra : ℕ) : ℕ → DynamicTable → DynamicTable
  | 0, t => t
  | fuel + 1, t => if t.capacity < satAdd t.size extra then evictFrom extra fuel t.evictOne else t

def setCapacity (t : DynamicTable) (capacity : ℕ) : DynamicTable :=
  evictFrom 0 t.entries.length { t with capacity := capacity }

/-- `insert`: refused, with the table untouched, when the entry exceeds the capacity. -/
def insert (t : DynamicTable) (name value : List UInt8) : Option DynamicTable :=
  let size := entrySize name value
  if t.capacity < size then none
  else
    let t := evictFrom size t.entries.length t
    some { t with
      entries := t.entries ++ [⟨name, value⟩]
      size := satAdd t.size size
      insertCount := (t.insertCount + 1) % 2 ^ 64 }

def first (t : DynamicTable) : ℕ := t.insertCount - t.entries.length

/-- `get`, by absolute index. -/
def get (t : DynamicTable) (absolute : ℕ) : Option DynEntry :=
  if absolute < t.first ∨ t.insertCount ≤ absolute then none
  else t.entries[absolute - t.first]?

/-- `rposition`: the last index at which `p` holds. -/
def rposition (p : DynEntry → Bool) (entries : List DynEntry) : Option ℕ :=
  (entries.reverse.findIdx? p).map (entries.length - 1 - ·)

/-- `find`: newest exact match. -/
def find (t : DynamicTable) (name value : List UInt8) : Option ℕ :=
  (rposition (fun e => e.name == name && e.value == value) t.entries).map (t.first + ·)

/-- `find_name`: newest match of the name. -/
def findName (t : DynamicTable) (name : List UInt8) : Option ℕ :=
  (rposition (fun e => e.name == name) t.entries).map (t.first + ·)

end DynamicTable

/-! ### Field sections -/

def encodeFieldSectionPrefix (required base maxTableCapacity : ℕ) : List UInt8 :=
  let fullRange := 2 * max (maxTableCapacity / 32) 1
  encodeInteger (if required = 0 then 0 else required % fullRange + 1) 8 0 ++
    if required ≤ base then encodeInteger (base - required) 7 0
    else encodeInteger (required - base - 1) 7 0x80

/-- The Required Insert Count behind its encoded form, for a table of `totalInserts`. -/
def requiredInsertCount (enc totalInserts maxTableCapacity : ℕ) : Except Error ℕ :=
  let maxEntries := max (maxTableCapacity / 32) 1
  let fullRange := 2 * maxEntries
  if enc = 0 then .ok 0
  else
    match checkedAdd totalInserts maxEntries with
    | none => .error (Error.overflow "QPACK insert count overflow")
    | some maxValue =>
      match (checkedAdd (maxValue / fullRange * fullRange) enc).bind (checkedSub · 1) with
      | none => .error (Error.overflow "QPACK required insert count overflow")
      | some ric =>
        if maxValue < ric ∧ ric ≤ fullRange then
          .error (Error.protocol "QPACK Required Insert Count out of range")
        else
          let ric := if maxValue < ric then ric - fullRange else ric
          if ric = 0 then
            .error (Error.protocol "QPACK Required Insert Count wrapped to zero")
          else .ok ric

/-- `decode_field_section_prefix`: the Required Insert Count and the Base. `delta + 1` is not
    checked and wraps. -/
def decodeFieldSectionPrefix (totalInserts maxTableCapacity : ℕ) (buf : List UInt8) :
    Except Error ((ℕ × ℕ) × List UInt8) := do
  let (enc, buf) ← decodeInteger 8 buf
  match buf with
  | [] => throw Error.eof
  | first :: _ =>
    let (delta, buf) ← decodeInteger 7 buf
    let required ← requiredInsertCount enc totalInserts maxTableCapacity
    if first &&& 0x80 ≠ 0 then
      match checkedSub required ((delta + 1) % 2 ^ 64) with
      | none => throw (Error.protocol "QPACK negative base")
      | some base => return ((required, base), buf)
    else
      match checkedAdd required delta with
      | none => throw (Error.overflow "QPACK base overflow")
      | some base => return ((required, base), buf)

structure FieldLine where
  name : List UInt8
  value : List UInt8
  neverIndexed : Bool
  deriving DecidableEq

def staticEntry (index : ℕ) : Except Error (List UInt8 × List UInt8) :=
  match STATIC_TABLE[index]? with
  | some e => .ok e
  | none => .error (Error.protocol "QPACK static index out of range")

def relativeEntry (t : DynamicTable) (base index : ℕ) (range : String) : Except Error DynEntry :=
  if base ≤ index then .error (Error.protocol range)
  else
    match t.get (base - 1 - index) with
    | some e => .ok e
    | none => .error (Error.protocol "QPACK dynamic table entry missing")

def postBaseEntry (t : DynamicTable) (base index : ℕ) (missing : String) : Except Error DynEntry :=
  match checkedAdd base index with
  | none => .error (Error.overflow "QPACK post-base index overflow")
  | some absolute =>
    match t.get absolute with
    | some e => .ok e
    | none => .error (Error.protocol missing)

def decodeFieldLine (size : ℕ) (t : DynamicTable) (base : ℕ) (buf : List UInt8) :
    Except Error (FieldLine × List UInt8) :=
  match buf with
  | [] => .error Error.eof
  | first :: _ => do
    if first &&& 0x80 ≠ 0 then
      let (index, buf) ← decodeInteger 6 buf
      if first &&& 0x40 ≠ 0 then
        let (name, value) ← staticEntry index
        return (⟨name, value, false⟩, buf)
      else
        let e ← relativeEntry t base index "QPACK dynamic relative index out of range"
        return (⟨e.name, e.value, false⟩, buf)
    else if first &&& 0xc0 = 0x40 then
      let (index, buf) ← decodeInteger 4 buf
      let name ←
        if first &&& 0x10 ≠ 0 then
          match STATIC_TABLE[index]? with
          | some e => pure e.1
          | none => throw (Error.protocol "QPACK static name index out of range")
        else
          DynEntry.name <$>
            relativeEntry t base index "QPACK dynamic name relative index out of range"
      let (value, buf) ← decodeString size 8 buf
      return (⟨name, value, first &&& 0x20 ≠ 0⟩, buf)
    else if first &&& 0xe0 = 0x20 then
      let (name, buf) ← decodeString size 4 buf
      if !isUtf8 name then
        throw (Error.protocol "QPACK field name is not UTF-8")
      let (value, buf) ← decodeString size 8 buf
      return (⟨name, value, first &&& 0x10 ≠ 0⟩, buf)
    else if first &&& 0xf0 = 0x10 then
      let (index, buf) ← decodeInteger 4 buf
      let e ← postBaseEntry t base index "QPACK post-base index out of range"
      return (⟨e.name, e.value, false⟩, buf)
    else
      let (index, buf) ← decodeInteger 3 buf
      let e ← postBaseEntry t base index "QPACK post-base name index out of range"
      let (value, buf) ← decodeString size 8 buf
      return (⟨e.name, value, first &&& 0x10 ≠ 0⟩, buf)

/-! ### Encoder-stream instructions -/

inductive EncoderInstruction where
  | setCapacity (capacity : ℕ)
  | insertWithNameRef (staticRef : Bool) (index : ℕ) (value : List UInt8)
  | insertWithLiteralName (name value : List UInt8)
  | duplicate (index : ℕ)

def encodeEncoderInstruction : EncoderInstruction → List UInt8
  | .setCapacity capacity => encodeInteger capacity 5 0x20
  | .insertWithNameRef staticRef index value =>
    encodeInteger index 6 (if staticRef then 0xc0 else 0x80) ++ encodeString value 8 0x00
  | .insertWithLiteralName name value => encodeString name 6 0x40 ++ encodeString value 8 0x00
  | .duplicate index => encodeInteger index 5 0x00

def insertChecked (t : DynamicTable) (name value : List UInt8) : Except Error DynamicTable :=
  match t.insert name value with
  | some t => .ok t
  | none => .error (Error.protocol "QPACK insert exceeds the dynamic table capacity")

def applyNameRef (t : DynamicTable) (staticRef : Bool) (index : ℕ) (value : List UInt8) :
    Except Error DynamicTable := do
  if !isUtf8 value then
    throw (Error.protocol "QPACK value is not UTF-8")
  if staticRef then
    let (name, _) ← staticEntry index
    insertChecked t name value
  else
    let e ← relativeEntry t t.insertCount index "QPACK dynamic reference out of range"
    insertChecked t e.name value

/-- `decode_encoder_instruction`, for a decoder that advertised `advertised`: the table
    after the instruction. -/
def decodeEncoderInstruction (size advertised : ℕ) (t : DynamicTable) (buf : List UInt8) :
    Except Error (DynamicTable × List UInt8) :=
  match buf with
  | [] => .error Error.eof
  | first :: _ => do
    if first &&& 0x80 ≠ 0 then
      let (index, buf) ← decodeInteger 6 buf
      let (value, buf) ← decodeString size 8 buf
      let t ← applyNameRef t (first &&& 0x40 ≠ 0) index value
      return (t, buf)
    else if first &&& 0xc0 = 0x40 then
      let (name, buf) ← decodeString size 6 buf
      if !isUtf8 name then
        throw (Error.protocol "QPACK field name is not UTF-8")
      let (value, buf) ← decodeString size 8 buf
      if !isUtf8 value then
        throw (Error.protocol "QPACK value is not UTF-8")
      let t ← insertChecked t name value
      return (t, buf)
    else if first &&& 0xe0 = 0x20 then
      let (capacity, buf) ← decodeInteger 5 buf
      if advertised < capacity then
        throw (Error.protocol "QPACK Set Capacity exceeds the advertised maximum")
      return (t.setCapacity capacity, buf)
    else
      let (index, buf) ← decodeInteger 5 buf
      let e ← relativeEntry t t.insertCount index "QPACK duplicate index out of range"
      let t ← insertChecked t e.name e.value
      return (t, buf)

/-! ### Decoder-stream instructions -/

inductive DecoderInstruction where
  | sectionAck (streamId : ℕ)
  | streamCancellation (streamId : ℕ)
  | insertCountIncrement (increment : ℕ)
  deriving DecidableEq

def encodeDecoderInstruction : DecoderInstruction → List UInt8
  | .sectionAck streamId => encodeInteger streamId 7 0x80
  | .streamCancellation streamId => encodeInteger streamId 6 0x40
  | .insertCountIncrement increment => encodeInteger increment 6 0x00

def decodeDecoderInstruction (buf : List UInt8) :
    Except Error (DecoderInstruction × List UInt8) :=
  match buf with
  | [] => .error Error.eof
  | first :: _ =>
    if first &&& 0x80 ≠ 0 then
      (decodeInteger 7 buf).map fun (id, buf) => (.sectionAck id, buf)
    else if first &&& 0xc0 = 0x40 then
      (decodeInteger 6 buf).map fun (id, buf) => (.streamCancellation id, buf)
    else (decodeInteger 6 buf).map fun (n, buf) => (.insertCountIncrement n, buf)

/-! ### Integers and strings read back -/

variable {firstByte : UInt8} {n size v : ℕ}

theorem prefixLoop_decodeIntegerFrom : PrefixLoop Error.eof decodeIntegerFrom := by
  refine ⟨fun _ _ => rfl,?_,?_,?_,?_⟩
  · intro b rest shift val hshift hover
    rw [decodeIntegerFrom,if_neg (not_le.2 hshift),and_low,Nat.shiftLeft_eq,checkedAdd,
      if_neg (not_le.2 hover)]
    exact ⟨_,rfl⟩
  · intro b rest shift val hshift hlast hle
    rw [decodeIntegerFrom,if_neg (not_le.2 hshift),and_low,Nat.shiftLeft_eq,checkedAdd,
      if_pos hle]
    exact if_pos (by simpa using hlast)
  · intro b rest shift val hshift hmore hle
    rw [decodeIntegerFrom,if_neg (by omega),and_low,Nat.shiftLeft_eq,checkedAdd,if_pos hle]
    exact if_neg (by simpa using hmore)
  · intro b rest shift val hshift hlong hmore
    rw [decodeIntegerFrom,if_neg (not_le.2 hshift),and_low,Nat.shiftLeft_eq,checkedAdd]
    by_cases hle : val+(b.toNat%128*2^shift)%2^64 ≤ u64Max
    · rw [if_pos hle]
      dsimp only
      rw [if_neg (by simpa using hmore)]
      cases rest with
      | nil => exact ⟨_,rfl⟩
      | cons c rest =>
        rw [decodeIntegerFrom,if_pos hlong]
        exact ⟨_,rfl⟩
    · rw [if_neg hle]
      exact ⟨_,rfl⟩

theorem prefix_of_first (hn : n ≤ 8) (hclear : firstByte.toNat%2^n = 0) (hv : v ≤ 2^n-1) :
    ((firstByte ||| UInt8.ofNat v) &&& UInt8.ofNat (2^n-1)).toNat = v := by
  have hpow : 2^n ≤ 2^8 := Nat.pow_le_pow_right (by omega) hn
  rw [UInt8.toNat_and,UInt8.toNat_or,UInt8.toNat_ofNat',UInt8.toNat_ofNat',
    Nat.mod_eq_of_lt (by omega),Nat.mod_eq_of_lt (by omega),Nat.and_two_pow_sub_one_eq_mod,
    Nat.or_mod_two_pow,hclear,Nat.zero_or,Nat.mod_eq_of_lt (by omega)]

theorem encodeInteger_eq (value n : ℕ) (firstByte : UInt8) :
    encodeInteger value n firstByte =
      (firstByte ||| UInt8.ofNat (min value (2^n-1))) :: Hpack.intTail n value :=
  Hpack.writeInt_eq firstByte n value

theorem decodeInteger_cons (hn : 1 ≤ n ∧ n ≤ 8) (first : UInt8) (buf : List UInt8) :
    decodeInteger n (first :: buf) =
      if (first &&& UInt8.ofNat (2^n-1)).toNat < 2^n-1 then
        .ok ((first &&& UInt8.ofNat (2^n-1)).toNat,buf)
      else decodeIntegerFrom buf 0 (first &&& UInt8.ofNat (2^n-1)).toNat := by
  rw [decodeInteger,if_neg (by omega)]

theorem reads_encodeInteger (value n : ℕ) (firstByte : UInt8) (hn : 1 ≤ n ∧ n ≤ 8)
    (hclear : firstByte.toNat%2^n = 0) (hvalue : value ≤ u64Max) :
    Reads Error.eof (decodeInteger n) (encodeInteger value n firstByte) value := by
  have hbits := prefix_of_first hn.2 hclear (min_le_right value (2^n-1))
  have hnil : decodeInteger n [] = .error Error.eof := by rw [decodeInteger,if_neg (by omega)]
  rw [encodeInteger_eq]
  unfold Hpack.intTail
  by_cases h : value < 2^n-1
  · rw [min_eq_left h.le] at hbits ⊢
    rw [if_pos h]
    refine ⟨fun rest => ?_,fun u hu hne => ?_⟩
    · rw [cons_append,decodeInteger_cons hn,hbits,if_pos h,nil_append]
    · rcases prefix_cons_iff.1 hu with rfl | ⟨t,rfl,ht⟩
      · exact hnil
      · simp_all
  · rw [min_eq_right (not_lt.1 h)] at hbits ⊢
    rw [if_neg h]
    have htail := prefixLoop_decodeIntegerFrom.reads _ (value-(2^n-1)) 0 (2^n-1) le_rfl
      (by omega) (by decide)
    rw [show 2^n-1+(value-(2^n-1))*2^0 = value by omega] at htail
    refine ⟨fun rest => ?_,fun u hu hne => ?_⟩
    · rw [cons_append,decodeInteger_cons hn,hbits,if_neg (lt_irrefl _)]
      exact htail.whole rest
    · rcases prefix_cons_iff.1 hu with rfl | ⟨t,rfl,ht⟩
      · exact hnil
      · rw [decodeInteger_cons hn,hbits,if_neg (lt_irrefl _)]
        exact htail.short t ht fun h => hne (by rw [h])

theorem flag_of_first (hn : n < 8)
    (hclear : firstByte.toNat%2^(n+1) = 0) (hv : v ≤ 2^n-1) :
    (firstByte ||| UInt8.ofNat v) &&& UInt8.ofNat (1 <<< n) = 0 ∧
      ((firstByte ||| UInt8.ofNat (1 <<< n)) ||| UInt8.ofNat v) &&& UInt8.ofNat (1 <<< n) ≠ 0 := by
  have hpow : 2^n < 2^8 := Nat.pow_lt_pow_right (by omega) hn
  have hfirst : firstByte.toNat.testBit n = false := by
    have h := Nat.testBit_mod_two_pow firstByte.toNat (n+1) n
    rw [hclear] at h
    simpa using h.symm
  have hvbit : v.testBit n = false := Nat.testBit_lt_two_pow (by omega)
  have hflag : (UInt8.ofNat (1 <<< n)).toNat = 2^n := by
    rw [UInt8.toNat_ofNat',Nat.one_shiftLeft,Nat.mod_eq_of_lt hpow]
  have hvnat : (UInt8.ofNat v).toNat = v := by
    rw [UInt8.toNat_ofNat',Nat.mod_eq_of_lt (by omega)]
  constructor
  · rw [← UInt8.toNat_inj,UInt8.toNat_and,UInt8.toNat_or,hflag,hvnat,Nat.and_two_pow]
    simp [hfirst,hvbit]
  · intro h
    rw [← UInt8.toNat_inj,UInt8.toNat_and,UInt8.toNat_or,UInt8.toNat_or,hflag,hvnat,
      Nat.and_two_pow] at h
    simp at h

/-- A string is read whatever follows it; a piece of it asks for more when its length behind
    the slice is a position. -/
theorem decodeString_encodeString (hsize : size ≤ u64Max) (value : List UInt8) (n : ℕ)
    (firstByte : UInt8) (hn : 1 ≤ n ∧ n ≤ 7) (hclear : firstByte.toNat%2^(n+1) = 0)
    (hlen : value.length ≤ u64Max) :
    (∀ rest, decodeString size (n+1) (encodeString value (n+1) firstByte ++ rest) =
      .ok (value,rest)) ∧ (size+value.length ≤ u64Max →
      ∀ v, v <+: encodeString value (n+1) firstByte → v ≠ encodeString value (n+1) firstByte →
        decodeString size (n+1) v = .error Error.eof) := by
  -- A payload behind a length whose first octet is `f`; `f` tells how it is coded.
  have hpayload : ∀ (payload : List UInt8) (f : UInt8), f.toNat%2^n = 0 →
      payload.length ≤ value.length →
      (∀ v, v ≤ 2^n-1 → ∀ rest : List UInt8,
        (if (f ||| UInt8.ofNat v) &&& UInt8.ofNat (1 <<< n) ≠ 0 then
          match Hpack.Huffman.decode payload (max (satMul payload.length 2) 1024) with
          | .ok out => (.ok (out,rest) : Except Error _)
          | .error _ => .error (Error.protocol "QPACK Huffman decode failed")
        else .ok (payload,rest)) = .ok (value,rest)) →
      (∀ rest, decodeString size (n+1) (encodeInteger payload.length n f ++ payload ++ rest) =
        .ok (value,rest)) ∧ (size+value.length ≤ u64Max →
        ∀ v, v <+: encodeInteger payload.length n f ++ payload →
          v ≠ encodeInteger payload.length n f ++ payload →
          decodeString size (n+1) v = .error Error.eof) := by
    intro payload f hf hle hval
    have hint := reads_encodeInteger payload.length n f (by omega) hf (by omega)
    have hv := hval _ (min_le_right payload.length (2^n-1))
    rw [encodeInteger_eq] at hint ⊢
    refine ⟨fun rest => ?_,fun hroom u hu hne => ?_⟩
    · have hread := hint.whole (payload ++ rest)
      simp only [cons_append] at hread
      simp only [cons_append,append_assoc,decodeString,Nat.add_sub_cancel,hread,bind,
        Except.bind,pure,Except.pure,throw,throwThe,MonadExceptOf.throw]
      rw [if_neg (by rw [length_append]; omega),if_neg (by simp)]
      simpa using hv rest
    · rcases Reader.piece_cases hu with ⟨hu,hue⟩ | ⟨t,rfl,ht⟩
      · have hread := hint.short u hu hue
        cases u with
        | nil => rfl
        | cons b u =>
          simp only [decodeString,Nat.add_sub_cancel,hread,bind,Except.bind]
      · have hread := hint.whole t
        have hshort : t.length < payload.length :=
          lt_of_le_of_ne ht.length_le fun h => hne (by rw [ht.eq_of_length h])
        simp only [cons_append] at hread
        simp only [cons_append,decodeString,Nat.add_sub_cancel,hread,bind,Except.bind,
          throw,throwThe,MonadExceptOf.throw]
        rw [if_neg (by omega),if_pos hshort]
  have hdvd : 2^n ∣ firstByte.toNat :=
    (pow_dvd_pow 2 (by omega : n ≤ n+1)).trans (Nat.dvd_of_mod_eq_zero hclear)
  have hpow : 2^n < 2^8 := Nat.pow_lt_pow_right (by omega) (by omega)
  unfold encodeString
  simp only [Nat.add_sub_cancel]
  split_ifs with hshort
  · refine hpayload _ _ ?_ hshort.le ?_
    · rw [UInt8.toNat_or,UInt8.toNat_ofNat',Nat.one_shiftLeft,Nat.mod_eq_of_lt hpow,
        Nat.or_mod_two_pow,Nat.mod_self,Nat.mod_eq_zero_of_dvd hdvd,Nat.zero_or]
    · intro v hv rest
      have hcap : value.length ≤ max (satMul (Hpack.Huffman.encode value).length 2) 1024 :=
        le_max_of_le_left (le_min (Hpack.Huffman.length_le_of_encode value) hlen)
      rw [if_pos (flag_of_first (by omega) hclear hv).2,Hpack.Huffman.decode_encode hcap]
  · refine hpayload _ _ (Nat.mod_eq_zero_of_dvd hdvd) le_rfl ?_
    intro v hv rest
    rw [if_neg (not_not.2 (flag_of_first (by omega) hclear hv).1)]

theorem reads_encodeString (value : List UInt8) (n : ℕ) (firstByte : UInt8)
    (hn : 1 ≤ n ∧ n ≤ 7) (hclear : firstByte.toNat%2^(n+1) = 0)
    (hroom : size+value.length ≤ u64Max) :
    Reads Error.eof (decodeString size (n+1)) (encodeString value (n+1) firstByte) value := by
  obtain ⟨hwhole,hshort⟩ :=
    decodeString_encodeString (by omega : size ≤ u64Max) value n firstByte hn hclear (by omega)
  exact ⟨hwhole,hshort hroom⟩

end Courierust.Qpack
