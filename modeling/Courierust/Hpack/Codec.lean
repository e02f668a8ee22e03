import Courierust.Hpack.Literal
import Courierust.Hpack.Table

/-!
# HPACK encoder and decoder

Model of `Encoder` and `Decoder` of `courierust_hpack` (RFC 7541 §3, §6). The decoder
reads one representation at a time; what it has built so far is a `Progress`. A
failed decode ends the connection, so its intermediate table is not kept.
-/

namespace Courierust.Hpack

open Http (ascii HeaderName)

structure HeaderField where
  name : HeaderName
  value : List UInt8
  neverIndexed : Bool
  deriving DecidableEq

def FIELD_OVERHEAD : ℕ := 32

def SENSITIVE_NAMES : List (List UInt8) :=
  [ascii "authorization", ascii "cookie", ascii "proxy-authorization", ascii "set-cookie"]

def isSensitiveName (name : List UInt8) : Bool := SENSITIVE_NAMES.contains name

/-! ### Decoder -/

structure Decoder where
  table : Table
  maxTableSize : Usize
  maxHeaderListSize : Usize
  maxStringSize : ℕ
  deriving DecidableEq

/-- The locals of `decode`: the table, the running list size, whether a field has been
    read, and the fields. -/
structure Progress where
  table : Table
  total : ℕ
  sawRep : Bool
  out : List HeaderField

namespace Decoder

def new (maxTableSize maxHeaderListSize : Usize) : Decoder where
  table := Table.default
  maxTableSize := maxTableSize
  maxHeaderListSize := maxHeaderListSize
  maxStringSize := max (satMul maxHeaderListSize 4) (1 <<< 20)

def push (d : Decoder) (p : Progress) (field : HeaderField) (nameLen : ℕ) :
    Except Error Progress :=
  match checkedAdd p.total (FIELD_OVERHEAD + nameLen + field.value.length) with
  | none => .error (Error.overflow "HPACK: size arithmetic overflow")
  | some total =>
    if d.maxHeaderListSize < total then .error (Error.overflow "HPACK: header list too large")
    else .ok { p with total := total, sawRep := true, out := p.out ++ [field] }

def readName (d : Decoder) (table : Table) (nameIdx : ℕ) (input : List UInt8) :
    Except Error (List UInt8 × List UInt8) :=
  if nameIdx = 0 then readString d.maxStringSize input
  else
    match table.get nameIdx with
    | some (n, _) => .ok (n, input)
    | none => .error (Error.protocol "HPACK: name index out of range")

def readLiteral (d : Decoder) (p : Progress) (n : ℕ) (bits : UInt8) (neverIndexed : Bool)
    (input : List UInt8) : Except Error (HeaderField × ℕ × List UInt8) := do
  let (nameIdx, input) ← readInt n bits input
  let (nameBytes, input) ← d.readName p.table nameIdx input
  let name ← HeaderName.fromHpackBytes nameBytes
  let (value, input) ← readString d.maxStringSize input
  return (⟨name, value, neverIndexed⟩, nameBytes.length, input)

/-- One turn of the loop of `decode`: the representation that starts with `b`. -/
def readRepresentation (d : Decoder) (p : Progress) (b : UInt8) (input : List UInt8) :
    Except Error (Progress × List UInt8) := do
  if b &&& 0x80 ≠ 0 then
    -- Indexed header field
    let (idx, input) ← readInt 7 (b &&& 0x7f) input
    if idx = 0 then
      throw (Error.protocol "HPACK: indexed with index 0")
    match p.table.get idx with
    | none => throw (Error.protocol "HPACK: index out of range")
    | some (n, v) =>
      let name ← HeaderName.fromHpackBytes n
      let p ← d.push p ⟨name, v, false⟩ n.length
      return (p, input)
  else if b &&& 0x40 ≠ 0 then
    -- Literal with incremental indexing
    let (field, nameLen, input) ← d.readLiteral p 6 (b &&& 0x3f) false input
    let p ← d.push p field nameLen
    return ({ p with table := ⟨p.table.dynTable.insert field.name.bytes field.value⟩ }, input)
  else if b &&& 0x20 ≠ 0 then
    -- Dynamic table size update
    if p.sawRep then
      throw (Error.protocol "HPACK: size update after field representations")
    let (new, input) ← readInt 5 (b &&& 0x1f) input
    if d.maxTableSize < new then
      throw (Error.protocol "HPACK: size update exceeds advertised maximum")
    return ({ p with table := ⟨p.table.dynTable.setMaxSize new⟩ }, input)
  else
    -- Literal without indexing, or never indexed
    let (field, nameLen, input) ← d.readLiteral p 4 (b &&& 0x0f) (b &&& 0x10 ≠ 0) input
    let p ← d.push p field nameLen
    return (p, input)

/-- The loop of `decode`. Every representation takes at least one octet, so a fuel of the
    number of octets is enough. -/
def decodeFrom (d : Decoder) : ℕ → Progress → List UInt8 → Except Error Progress
  | _, p, [] => .ok p
  | 0, _, _ :: _ => .error Error.eof
  | fuel + 1, p, b :: input => do
    let (p, input) ← d.readRepresentation p b input
    d.decodeFrom fuel p input

/-- `decode`: a complete header block. -/
def decode (d : Decoder) (input : List UInt8) : Except Error (List HeaderField × Decoder) := do
  let p ← d.decodeFrom input.length ⟨d.table, 0, false, []⟩ input
  return (p.out, { d with table := p.table })

end Decoder

/-! ### Encoder -/

structure Encoder where
  table : Table
  peerMaxTableSize : ℕ
  pendingSizeUpdate : Option (ℕ × ℕ)
  maxIndexLen : ℕ
  deriving DecidableEq

def shouldIndex (value : List UInt8) (maxIndexLen : ℕ) : Bool :=
  !value.isEmpty && value.length ≤ maxIndexLen

def writeLiteral (flags : UInt8) (n : ℕ) (nameIdx : Option ℕ) (name value : List UInt8) :
    List UInt8 :=
  match nameIdx with
  | some idx => writeInt flags n idx ++ writeString value
  | none => writeInt flags n 0 ++ writeString name ++ writeString value

def writeTableSizeUpdate (size : ℕ) : List UInt8 := writeInt 0x20 5 size

namespace Encoder

def new : Encoder := ⟨Table.default, 4096, none, 256⟩

/-- `set_peer_table_size`: the smallest and the newest size since the last block. -/
def setPeerTableSize (e : Encoder) (size : ℕ) : Encoder :=
  { e with
    peerMaxTableSize := size
    pendingSizeUpdate := some (match e.pendingSizeUpdate with
      | some (min, _) => (Nat.min min size, size)
      | none => (size, size)) }

def writeSizeUpdates (e : Encoder) : List UInt8 × Table :=
  match e.pendingSizeUpdate with
  | none => ([], e.table)
  | some (min, newest) =>
    let (first, dyn) :=
      if min ≠ newest then (writeTableSizeUpdate min, e.table.dynTable.setMaxSize min)
      else ([], e.table.dynTable)
    (first ++ writeTableSizeUpdate newest, ⟨dyn.setMaxSize newest⟩)

/-- The loop body of `encode`: one field. -/
def writeField (maxIndexLen : ℕ) (table : Table) (f : HeaderField) : List UInt8 × Table :=
  let name := f.name.bytes
  let value := f.value
  let sensitive := f.neverIndexed || isSensitiveName name
  match if sensitive then none else table.findFull name value with
  | some idx => (writeInt 0x80 7 idx, table)
  | none =>
    let nameIdx := table.findName name
    if sensitive then (writeLiteral 0x10 4 nameIdx name value, table)
    else if shouldIndex value maxIndexLen then
      (writeLiteral 0x40 6 nameIdx name value, ⟨table.dynTable.insert name value⟩)
    else (writeLiteral 0x00 4 nameIdx name value, table)

/-- The loop of `encode` over the fields. -/
def writeFields (maxIndexLen : ℕ) : Table → List HeaderField → List UInt8 × Table
  | table, [] => ([], table)
  | table, f :: fields =>
    let (octets, table) := writeField maxIndexLen table f
    let (rest, table) := writeFields maxIndexLen table fields
    (octets ++ rest, table)

/-- `encode`: the octets of a block. -/
def encode (e : Encoder) (fields : List HeaderField) : List UInt8 × Encoder :=
  let (updates, table) := e.writeSizeUpdates
  let (octets, table) := writeFields e.maxIndexLen table fields
  (updates ++ octets, { e with table := table, pendingSizeUpdate := none })

end Encoder

end Courierust.Hpack
