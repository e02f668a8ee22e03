import Courierust.Io.Reader
import Courierust.Ws.Writer

/-!
# The WebSocket session

Model of `courierust_ws::session`: the receiving state machine. What it keeps between reads,
apart from the reader, is a `Receiver`; a `Session` is a receiver with its reader. One round of
the loop of `poll_message` is `Session.iterate`.
-/

namespace Courierust.Ws

open Deflate (Inflater)
open Http (Utf8 isUtf8)
open Io (BufReader)

def directReadMin : ℕ := 8 * 1024

inductive Role where
  | client | server
  deriving DecidableEq

structure SessionConfig where
  role : Role := .server
  maxFrame : ℕ := 16 * 1024 * 1024
  maxMessage : ℕ := 16 * 1024 * 1024
  maxFragments : ℕ := 0
  compression : Option CompressionParams := none
  autoPong : Bool := true

/-- `Event`; texts are given by their octets. -/
inductive Event where
  | text (text : List UInt8)
  | binary (data : List UInt8)
  | ping (payload : List UInt8)
  | pong (payload : List UInt8)
  | close (frame : Option CloseFrame)
  deriving DecidableEq

/-- `Phase`; a header that is being collected is given by its octets so far. -/
inductive Phase where
  | header (head : List UInt8)
  | payload (header : FrameHeader) (got : ℕ)
  | finished

structure Receiver (S : Type) where
  cfg : SessionConfig
  writer : FrameWriter S
  phase : Phase := .header []
  msg : List UInt8 := []
  ctl : List UInt8 := []
  msgOpcode : Option OpCode := none
  msgCompressed : Bool := false
  fragments : ℕ := 0
  utf8 : Utf8 := .start
  inflater : Option Inflater := none
  closeSent : Bool := false
  closeReceived : Bool := false

structure Session (S : Type) where
  reader : BufReader
  rx : Receiver S

def sessionClosed : Error :=
  Error.withMessage .unexpectedEof "websocket: session already closed"

def utf8Failure (bad : Utf8Error) : Error :=
  Error.protocol ("websocket: invalid UTF-8 at byte " ++ toString bad.offset ++ ": " ++
    bad.reason ++ " in a text message")

variable {S : Type}

/-! ### Frames -/

namespace Receiver

/-- `new`, with the writer the session answers through. -/
def new (cfg : SessionConfig) (writer : FrameWriter S) : Receiver S :=
  { cfg, writer, inflater := cfg.compression.map newInflater }

def fatal {α : Type} (rx : Receiver S) (e : Error) : Except Error α × Receiver S :=
  (.error e, { rx with phase := .finished })

def checkMask (role : Role) (header : FrameHeader) : Except Error Unit :=
  match role with
  | .server =>
    if header.masked then .ok ()
    else .error (Error.protocol "websocket: client frame was not masked")
  | .client =>
    if header.masked then .error (Error.protocol "websocket: server masked a frame") else .ok ()

def openMessage (rx : Receiver S) (header : FrameHeader) : Except Error (Receiver S) :=
  match rx.msgOpcode, header.opcode with
  | none, .continuation =>
    .error (Error.protocol "websocket: continuation frame without a started message")
  | some _, .continuation => .ok { rx with fragments := min (rx.fragments + 1) (2 ^ 32 - 1) }
  | none, _ =>
    .ok { rx with msg := [], utf8 := .start, msgCompressed := header.rsv1, fragments := 0 }
  | some _, _ =>
    .error (Error.protocol "websocket: data frame while a fragmented message is open")

def acceptData (rx : Receiver S) (header : FrameHeader) : Except Error Unit × Receiver S :=
  if header.rsv1 ∧ rx.msgOpcode.isSome then
    rx.fatal (Error.protocol "websocket: RSV1 set on a continuation frame")
  else if rx.cfg.maxFrame < header.payloadLen ∨
      rx.cfg.maxMessage < satAdd rx.msg.length header.payloadLen then
    rx.fatal (Error.overflow "websocket: message exceeds the size limit")
  else if rx.cfg.maxFragments ≠ 0 ∧ rx.cfg.maxFragments ≤ rx.fragments then
    rx.fatal (Error.overflow "websocket: too many fragments")
  else
    (.ok (), { rx with
      msgOpcode := some (rx.msgOpcode.getD header.opcode), phase := .payload header 0 })

def beginFrame (rx : Receiver S) (header : FrameHeader) : Except Error Unit × Receiver S :=
  match header.checkReserved rx.cfg.compression.isSome with
  | .error e => rx.fatal e
  | .ok () =>
    match checkMask rx.cfg.role header with
    | .error e => rx.fatal e
    | .ok () =>
      if header.opcode.isControl then
        if rx.cfg.maxFrame < header.payloadLen then
          rx.fatal (Error.overflow "websocket: control frame exceeds the size limit")
        else (.ok (), { rx with ctl := [], phase := .payload header 0 })
      else
        match rx.openMessage header with
        | .error e => rx.fatal e
        | .ok rx => rx.acceptData header

/-- A piece of payload, the first octet of which is the `got`-th: it is unmasked, kept and, in
a text message that is not compressed, validated. -/
def acceptPayload (rx : Receiver S) (header : FrameHeader) (got : ℕ) (piece : List UInt8) :
    Except Error Unit × Receiver S :=
  let data := if header.masked then header.maskKey.apply got piece else piece
  if header.opcode.isControl then (.ok (), { rx with ctl := rx.ctl ++ data })
  else if rx.msgOpcode = some .text ∧ rx.msgCompressed = false then
    match feed rx.utf8 data with
    | .error bad => { rx with msg := rx.msg ++ data }.fatal (utf8Failure bad)
    | .ok utf8 => (.ok (), { rx with msg := rx.msg ++ data, utf8 })
  else (.ok (), { rx with msg := rx.msg ++ data })

variable [FrameSink S]

def close (rx : Receiver S) (code : ℕ) (reason : List UInt8) : Except Error Unit × Receiver S :=
  if rx.closeSent then (.ok (), rx)
  else
    match rx.writer.sendClose code reason with
    | (.error e, writer) => (.error e, { rx with writer })
    | (.ok (), writer) =>
      let rx := { rx with writer, closeSent := true }
      (.ok (), if rx.closeReceived then { rx with phase := .finished } else rx)

def finishPing (rx : Receiver S) : Except Error (Option Event) × Receiver S :=
  let payload := rx.ctl
  let rx := { rx with ctl := [] }
  if rx.cfg.autoPong ∧ rx.closeSent = false ∧ rx.writer.closeFlag = false then
    match rx.writer.sendPong payload with
    | (.error e, writer) => (.error e, { rx with writer })
    | (.ok (), writer) => (.ok (some (.ping payload)), { rx with writer })
  else (.ok (some (.ping payload)), rx)

def finishClose (rx : Receiver S) : Except Error (Option Event) × Receiver S :=
  let payload := rx.ctl
  let rx := { rx with ctl := [] }
  match Close.parse payload with
  | .error e => { (rx.close (Close.failureCode e) []).2 with closeReceived := true }.fatal e
  | .ok frame =>
    let rx := { rx with closeReceived := true }
    let reply :=
      if rx.closeSent then (.ok (), rx)
      else rx.close ((frame.map (·.code)).getD Close.normal) ((frame.map (·.reason)).getD [])
    match reply with
    | (.error e, rx) => (.error e, rx)
    | (.ok (), rx) => (.ok (some (.close frame)), { rx with phase := .finished })

def finishMessage (rx : Receiver S) (opcode : OpCode) (compressed : Bool) (bytes : List UInt8) :
    Except Error (Option Event) × Receiver S :=
  match opcode with
  | .text =>
    if compressed ∧ validate bytes = false then
      rx.fatal (Error.protocol "websocket: invalid UTF-8 in a text message")
    else if compressed = false ∧ rx.utf8 ≠ .start then
      rx.fatal (Error.protocol "websocket: text message ends inside a UTF-8 sequence")
    else if isUtf8 bytes then (.ok (some (.text bytes)), rx)
    else (.error (Error.protocol "websocket: invalid UTF-8 in a text message"), rx)
  | _ => (.ok (some (.binary bytes)), rx)

def finishData (rx : Receiver S) (fin : Bool) : Except Error (Option Event) × Receiver S :=
  if fin = false then (.ok none, rx)
  else
    match rx.msgOpcode with
    | none => (.error (Error.protocol "websocket: message opcode lost"), rx)
    | some opcode =>
      let compressed := rx.msgCompressed
      let rx := { rx with msgOpcode := none, msgCompressed := false }
      if compressed then
        match rx.inflater with
        | none => (.error (Error.protocol "websocket: compressed frame unexpected"), rx)
        | some inflater =>
          match inflater.inflateMessage rx.msg rx.cfg.maxMessage with
          | (.error e, inflater) => { rx with inflater := some inflater }.fatal e
          | (.ok bytes, inflater) =>
            { rx with inflater := some inflater }.finishMessage opcode true bytes
      else { rx with msg := [] }.finishMessage opcode false rx.msg

def finishFrame (rx : Receiver S) (header : FrameHeader) :
    Except Error (Option Event) × Receiver S :=
  let rx := { rx with phase := .header [] }
  match header.opcode with
  | .ping => rx.finishPing
  | .pong => (.ok (some (.pong rx.ctl)), { rx with ctl := [] })
  | .close => rx.finishClose
  | _ => rx.finishData header.fin

end Receiver

/-! ### Reading -/

namespace Session

def park (s : Session S) (phase : Phase) : Session S := { s with rx := { s.rx with phase } }

def collectHeader (s : Session S) (head : List UInt8) :
    Except Error (Option FrameHeader) × Session S :=
  match s.reader.readMore (2 - head.length) with
  | (.error e, reader) => (.error e, { s with reader })
  | (.ok more, reader) =>
    let head := head ++ more
    if head.length < 2 then (.ok none, { s with reader }.park (.header head))
    else
      match headerLenHint (head.take 2) with
      | none =>
        (.error (Error.protocol "websocket: header length unavailable"), { s with reader })
      | some need =>
        match reader.readMore (need - head.length) with
        | (.error e, reader) => (.error e, { s with reader })
        | (.ok more, reader) =>
          let head := head ++ more
          if head.length < need then (.ok none, { s with reader }.park (.header head))
          else
            match FrameHeader.parse (head.take need) with
            | .error e => (.error e, { s with reader })
            | .ok none =>
              (.error (Error.protocol "websocket: truncated frame header"), { s with reader })
            | .ok (some header) => (.ok (some header), { s with reader }.park (.header []))

/-- `read_header`: from the buffer when all of it is there. -/
def readHeader (s : Session S) (head : List UInt8) : Except Error (Option FrameHeader) × Session S :=
  if head ≠ [] then s.collectHeader head
  else
    match s.reader.fillBuf with
    | (.error e, reader) =>
      if e.kind = .wouldBlock then (.ok none, { s with reader }) else (.error e, { s with reader })
    | (.ok [], reader) => (.error Error.eof, { s with reader })
    | (.ok buf, reader) =>
      match headerLenHint buf with
      | none => { s with reader }.collectHeader head
      | some need =>
        if buf.length < need then { s with reader }.collectHeader head
        else
          match FrameHeader.parse (buf.take need) with
          | .error e => (.error e, { s with reader })
          | .ok none => { s with reader }.collectHeader head
          | .ok (some header) => (.ok (some header), { s with reader := reader.consume need })

/-- Where the next piece of payload comes from: past the buffer for a large rest. The flag tells
that the piece is still in the buffer. -/
def nextPiece (s : Session S) (header : FrameHeader) (rest : ℕ) :
    Except Error (List UInt8) × Bool × BufReader :=
  if header.opcode.isControl = false ∧ directReadMin ≤ rest ∧ s.reader.buffered = [] then
    let (result, reader) := s.reader.readDirect rest
    (result, false, reader)
  else
    match s.reader.fillBuf with
    | (.ok buf, reader) => (.ok (buf.take rest), true, reader)
    | (.error e, reader) => (.error e, true, reader)

/-- `read_payload_step`: whether the payload is complete. -/
def readPayload (s : Session S) (header : FrameHeader) (got : ℕ) : Except Error Bool × Session S :=
  if hgot : header.payloadLen ≤ got then (.ok true, s.park (.payload header got))
  else
    match s.nextPiece header (header.payloadLen - got) with
    | (.error e, _, reader) =>
      let s := { s with reader }.park (.payload header got)
      if e.kind = .wouldBlock then (.ok false, s) else (.error e, s)
    | (.ok [], _, reader) => (.error Error.eof, { s with reader })
    | (.ok (b :: bs), buffered, reader) =>
      match s.rx.acceptPayload header got (b :: bs) with
      | (.error e, rx) => (.error e, ⟨reader, rx⟩)
      | (.ok (), rx) =>
        let reader := if buffered then reader.consume (bs.length + 1) else reader
        have : header.payloadLen - (got + (bs.length + 1)) < header.payloadLen - got := by omega
        readPayload ⟨reader, rx⟩ header (got + (bs.length + 1))
termination_by header.payloadLen - got

variable [FrameSink S]

/-- One round of the loop of `poll_message`: what it returns, if it does. -/
def iterate (s : Session S) : Option (Except Error (Option Event)) × Session S :=
  match s.rx.phase with
  | .finished => (some (.error sessionClosed), s)
  | .header head =>
    match s.readHeader head with
    | (.error e, s) => (some (.error e), s)
    | (.ok none, s) => (some (.ok none), s)
    | (.ok (some header), s) =>
      match s.rx.beginFrame header with
      | (.error e, rx) => (some (.error e), { s with rx })
      | (.ok (), rx) => (none, { s with rx })
  | .payload header got =>
    match s.readPayload header got with
    | (.error e, s) => (some (.error e), s)
    | (.ok false, s) => (some (.ok none), s)
    | (.ok true, s) =>
      match s.rx.finishFrame header with
      | (.error e, rx) => (some (.error e), { s with rx })
      | (.ok (some event), rx) => (some (.ok (some event)), { s with rx })
      | (.ok none, rx) => (none, { s with rx })

end Session

end Courierust.Ws
