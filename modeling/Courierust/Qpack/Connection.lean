import Courierust.Qpack.Codec

/-!
# QPACK endpoints

Model of `courierust_h3::qpack_conn`: an endpoint with its encoder table, its decoder
table, the octets it owes the two instruction streams, and the field sections that
wait for inserts.

A field section carries, next to what is on the wire, the fields it was made from and
the absolute indices its lines refer to. Both are history: `decode` hands them on and
no decision depends on them.
-/

namespace Courierust.Qpack

open Http (ascii isAsciiLowercase isAsciiDigit isUtf8 isValidFieldValue)

def QPACK_MAX_TABLE_CAPACITY : ℕ := 4096

def QPACK_BLOCKED_STREAMS : ℕ := 100

def NEVER_INDEX : List (List UInt8) :=
  [ascii "authorization", ascii "proxy-authorization", ascii "cookie", ascii "set-cookie",
    ascii "date", ascii "content-length", ascii "etag", ascii "last-modified", ascii "age",
    ascii "expires", ascii "if-modified-since", ascii "if-none-match"]

def indexable (name value : List UInt8) (capacity : ℕ) : Bool :=
  if capacity < satAdd (satAdd name.length value.length) 32 then false
  else !NEVER_INDEX.contains name

structure Field where
  name : List UInt8
  value : List UInt8
  deriving DecidableEq

/-- A field section on a request stream. `fields` and `refs` are history: what was
    encoded, and the absolute indices its lines refer to. -/
structure FieldSection where
  streamId : Usize
  block : List UInt8
  fields : List Field
  refs : List ℕ
  deriving DecidableEq

structure QpackConnection where
  encoder : DynamicTable
  decoder : DynamicTable
  capacity : ℕ
  blockedLimit : ℕ
  peerCapacity : ℕ
  knownReceived : ℕ
  signaled : ℕ
  encoderOut : List UInt8
  decoderOut : List UInt8
  blocked : List FieldSection
  deriving DecidableEq

namespace QpackConnection

def new (capacity blockedLimit : ℕ) : QpackConnection where
  encoder := DynamicTable.new 0
  decoder := DynamicTable.new 0
  capacity := capacity
  blockedLimit := blockedLimit
  peerCapacity := 0
  knownReceived := 0
  signaled := 0
  encoderOut := []
  decoderOut := []
  blocked := []

def setPeerCapacity (c : QpackConnection) (capacity : ℕ) : QpackConnection :=
  let effective := min capacity c.capacity
  { c with
    peerCapacity := capacity
    encoder := c.encoder.setCapacity effective
    encoderOut :=
      if 0 < effective then c.encoderOut ++ encodeEncoderInstruction (.setCapacity effective)
      else c.encoderOut }

/-! ### Encoding a field section -/

/-- The locals of `encode` and the parts of the endpoint it changes, with the indices
    referred to so far. -/
structure Encoding where
  encoder : DynamicTable
  encoderOut : List UInt8
  body : List UInt8
  required : ℕ
  total : ℕ
  refs : List ℕ

def literalLine (name value : List UInt8) : List UInt8 :=
  match staticNameIndex name with
  | some index => encodeInteger index 4 0x50 ++ encodeString value 8 0x00
  | none => encodeString name 4 0x20 ++ encodeString value 8 0x00

/-- The instruction that inserts a field into `t`. -/
def insertInstruction (t : DynamicTable) (name value : List UInt8) : EncoderInstruction :=
  match staticNameIndex name with
  | some index => .insertWithNameRef true index value
  | none =>
    match t.findName name with
    | some absolute => .insertWithNameRef false (t.insertCount - 1 - absolute) value
    | none => .insertWithLiteralName name value

/-- A line that refers to the entry at `absolute`. -/
def Encoding.line (e : Encoding) (octets : List UInt8) (absolute : ℕ) : Encoding :=
  { e with
    body := e.body ++ octets
    required := max e.required (absolute + 1)
    refs := e.refs ++ [absolute] }

def acknowledged (known base : ℕ) (found : Option ℕ) : Option ℕ :=
  found.filter fun absolute => absolute < known ∧ absolute < base

/-- The loop body of `encode` for a field that passed the checks. -/
def encodeField (known base : ℕ) (e : Encoding) (f : Field) : Encoding :=
  let literal := { e with body := e.body ++ literalLine f.name f.value }
  if !isUtf8 f.value then literal
  else
    match staticIndex f.name f.value with
    | some index => { e with body := e.body ++ encodeInteger index 6 0xc0 }
    | none =>
      match acknowledged known base (e.encoder.find f.name f.value) with
      | some absolute => e.line (encodeInteger (base - 1 - absolute) 6 0x80) absolute
      | none =>
        match acknowledged known base (e.encoder.findName f.name) with
        | some absolute =>
          e.line (encodeInteger (base - 1 - absolute) 4 0x40 ++ encodeString f.value 8 0x00) absolute
        | none =>
          if indexable f.name f.value e.encoder.capacity then
            let e := { e with
              encoderOut := e.encoderOut ++
                encodeEncoderInstruction (insertInstruction e.encoder f.name f.value) }
            match e.encoder.insert f.name f.value with
            | some t =>
              let absolute := t.insertCount - 1
              { e with encoder := t }.line (encodeInteger (absolute - base) 4 0x10) absolute
            | none => { e with body := e.body ++ literalLine f.name f.value }
          else literal

def validName (name : List UInt8) : Bool :=
  !name.isEmpty && name.all fun b =>
    b == 0x3a || isAsciiLowercase b || isAsciiDigit b || b == 0x2d || b == 0x2e || b == 0x5f

/-- The checks of `encode` on a field: the running size, or the error. -/
def checkField (maxHeaderList total : ℕ) (f : Field) : Except Error ℕ :=
  match (checkedAdd total f.name.length).bind (checkedAdd · f.value.length) with
  | none => .error (Error.protocol "QPACK field-section size overflow")
  | some total =>
    if maxHeaderList < total ∨ !validName f.name then
      .error (Error.protocol "invalid HTTP/3 header field")
    else if !isValidFieldValue f.value then
      .error (Error.protocol "invalid HTTP/3 header field value (RFC 9114 §10.3)")
    else .ok total

/-- The loop of `encode` over the fields. An error leaves the inserts made before it. -/
def encodeFields (known base maxHeaderList : ℕ) :
    Encoding → List Field → Except Error Unit × Encoding
  | e, [] => (.ok (), e)
  | e, f :: fields =>
    match checkField maxHeaderList e.total f with
    | .error err => (.error err, e)
    | .ok total =>
      encodeFields known base maxHeaderList (encodeField known base { e with total := total } f)
        fields

/-- `encode`: a field section for `streamId`, and the endpoint with the inserts made. -/
def encode (c : QpackConnection) (streamId : Usize) (fields : List Field) (maxHeaderList : ℕ) :
    Except Error FieldSection × QpackConnection :=
  let base := c.encoder.insertCount
  let (result, e) := encodeFields c.knownReceived base maxHeaderList
    ⟨c.encoder, c.encoderOut, [], 0, 0, []⟩ fields
  let c := { c with encoder := e.encoder, encoderOut := e.encoderOut }
  match result with
  | .error err => (.error err, c)
  | .ok _ =>
    let out := encodeFieldSectionPrefix e.required base (max c.peerCapacity 1) ++ e.body
    if maxHeaderList < out.length then
      (.error (Error.protocol "encoded QPACK field section exceeds limit"), c)
    else (.ok ⟨streamId, out, fields, e.refs⟩, c)

/-! ### Instruction streams -/

/-- `flush_icc`: signal the inserts processed since the last signal. -/
def flushIcc (c : QpackConnection) : QpackConnection :=
  let processed := c.decoder.insertCount
  if c.signaled < processed then
    { c with
      signaled := processed
      decoderOut := c.decoderOut ++
        encodeDecoderInstruction (.insertCountIncrement (processed - c.signaled)) }
  else c

/-- `on_encoder_stream`: the octets left over are those of an incomplete instruction. -/
def onEncoderStream (c : QpackConnection) (bytes : List UInt8) :
    Except Error (QpackConnection × List UInt8) := do
  let (decoder, rest) ← Reader.consume Error.eof
    (decodeEncoderInstruction (min bytes.length isizeMax) c.capacity) bytes.length c.decoder bytes
  return ({ c with decoder := decoder }.flushIcc, rest)

def applyDecoderInstruction (c : QpackConnection) : DecoderInstruction → Except Error QpackConnection
  | .insertCountIncrement increment =>
    match checkedAdd c.knownReceived increment with
    | none => .error (Error.protocol "QPACK insert count overflow")
    | some known =>
      if c.encoder.insertCount < known then
        .error (Error.protocol "QPACK Insert Count Increment exceeds encoder inserts")
      else .ok { c with knownReceived := known }
  | .sectionAck _ | .streamCancellation _ => .ok c

def readDecoderInstruction (c : QpackConnection) (buf : List UInt8) :
    Except Error (QpackConnection × List UInt8) := do
  let (instruction, buf) ← decodeDecoderInstruction buf
  let c ← c.applyDecoderInstruction instruction
  return (c, buf)

def onDecoderStream (c : QpackConnection) (bytes : List UInt8) :
    Except Error (QpackConnection × List UInt8) :=
  Reader.consume Error.eof readDecoderInstruction bytes.length c bytes

/-! ### Decoding field sections -/

/-- The loop of `try_decode` over the field lines; every line takes at least an octet. -/
def decodeLines (size : ℕ) (t : DynamicTable) (base maxHeaderList : ℕ) :
    ℕ → List UInt8 → ℕ → List FieldLine → Except Error (List FieldLine)
  | _, [], _, fields => .ok fields
  | 0, _ :: _, _, _ => .error Error.eof
  | fuel + 1, buf, total, fields => do
    let (field, buf) ← decodeFieldLine size t base buf
    match (checkedAdd total field.name.length).bind (checkedAdd · field.value.length) with
    | none => throw (Error.protocol "QPACK field-section size overflow")
    | some total =>
      if maxHeaderList < total then
        throw (Error.protocol "QPACK field-section limit exceeded")
      let fields := fields ++ [field]
      if 256 < fields.length then
        throw (Error.protocol "HTTP/3 header field count exceeds limit")
      decodeLines size t base maxHeaderList fuel buf total fields

/-- `try_decode`: `none` when the section is blocked. -/
def tryDecode (c : QpackConnection) (s : FieldSection) (maxHeaderList : ℕ) :
    Except Error (Option (List FieldLine) × QpackConnection) := do
  let ((required, base), buf) ←
    decodeFieldSectionPrefix c.decoder.insertCount c.capacity s.block
  if c.decoder.insertCount < required then
    return (none, c)
  let fields ← decodeLines (min s.block.length isizeMax) c.decoder base maxHeaderList buf.length
    buf 0 []
  if 0 < required then
    let c := c.flushIcc
    return (some fields, { c with
      decoderOut := c.decoderOut ++ encodeDecoderInstruction (.sectionAck s.streamId) })
  else return (some fields, c)

/-- `decode`: a blocked section is kept. -/
def decode (c : QpackConnection) (s : FieldSection) (maxHeaderList : ℕ) :
    Except Error (Option (List FieldLine) × QpackConnection) := do
  if maxHeaderList < s.block.length then
    throw (Error.protocol "QPACK field section exceeds configured limit")
  match ← c.tryDecode s maxHeaderList with
  | (some fields, c) => return (some fields, c)
  | (none, c) =>
    if c.blockedLimit ≤ c.blocked.length then
      throw (Error.protocol "QPACK blocked streams exceed SETTINGS_QPACK_BLOCKED_STREAMS")
    return (none, { c with blocked := c.blocked ++ [s] })

/-- The loop of `retry_blocked`: what was unblocked, and what stays. -/
def retryFrom (maxHeaderList : ℕ) :
    List FieldSection → QpackConnection →
      Except Error (List (FieldSection × List FieldLine) × List FieldSection × QpackConnection)
  | [], c => .ok ([], [], c)
  | s :: rest, c => do
    let (result, c) ← c.tryDecode s maxHeaderList
    let (unblocked, still, c) ← retryFrom maxHeaderList rest c
    match result with
    | some fields => return ((s, fields) :: unblocked, still, c)
    | none => return (unblocked, s :: still, c)

def retryBlocked (c : QpackConnection) (maxHeaderList : ℕ) :
    Except Error (List (FieldSection × List FieldLine) × QpackConnection) := do
  let (unblocked, still, c) ← retryFrom maxHeaderList c.blocked { c with blocked := [] }
  return (unblocked, { c with blocked := still })

end QpackConnection

end Courierust.Qpack
