import Courierust.Lib.Run
import Courierust.H2.Connection

/-!
# Inbound frames, and the operations of a connection

Model of the receiving half of `courierust_h2::connection`: header blocks and their
validation, DATA, SETTINGS and WINDOW_UPDATE, and the dispatch on frames. The checks
that only look (`checkHeaderBlock`, `contentLength`, `Stream.lengthMismatch`) are pure
functions; the functions that act on a failed check reset the stream or close the
connection.
-/

namespace Courierust.H2

open Http (ascii toStr eqIgnoreAsciiCase isValidFieldValue isAsciiDigit parseUnsigned)
open Hpack (HeaderField)

/-! ### Header blocks -/

/-- The locals of `validate_header_block`. -/
structure Seen where
  regular : Bool := false
  sawMethod : Bool := false
  method : Option (List UInt8) := none
  scheme : Bool := false
  sawPath : Bool := false
  path : Option (List UInt8) := none
  authority : Bool := false
  status : Bool := false

def isStatus (v : List UInt8) : Bool :=
  v.length == 3 && v.all isAsciiDigit && (v.head?.any fun d => 0x31 ≤ d && d ≤ 0x35)

def checkRegular (isTrailer : Bool) (seen : Seen) (f : HeaderField) : Except String Seen :=
  let n := f.name.bytes
  if isConnectionSpecific n then
    .error ("connection-specific header `" ++ nameText f.name ++
      "` in HTTP/2 (RFC 9113 §8.2.2); a WebSocket upgrade belongs on HTTP/1.1")
  else if isBadTe f then .error "TE header must be `trailers` in HTTP/2 (RFC 9113 §8.2.2)"
  else if isTrailer &&
      (n = ascii "content-length" || n = ascii "host" || n = ascii "trailer" || n = ascii "te") then
    .error "framing field in trailers"
  else .ok { seen with regular := true }

def requestPseudo (isRequest saw : Bool) (name : String) (seen : Seen) : Except String Seen :=
  if !isRequest then .error (name ++ " in response")
  else if saw then .error ("duplicate " ++ name ++ " (RFC 9113 §8.3)")
  else .ok seen

def checkPseudo (isRequest : Bool) (seen : Seen) (f : HeaderField) : Except String Seen :=
  let n := f.name.bytes
  if n = ascii ":method" then
    requestPseudo isRequest seen.sawMethod ":method"
      { seen with sawMethod := true, method := toStr f.value }
  else if n = ascii ":scheme" then
    requestPseudo isRequest seen.scheme ":scheme" { seen with scheme := true }
  else if n = ascii ":path" then
    requestPseudo isRequest seen.sawPath ":path"
      { seen with sawPath := true, path := toStr f.value }
  else if n = ascii ":authority" then
    requestPseudo isRequest seen.authority ":authority" { seen with authority := true }
  else if n = ascii ":status" then
    if isRequest then .error ":status in request"
    else if seen.status then .error "duplicate :status (RFC 9113 §8.3)"
    else if !isStatus f.value then .error "invalid :status value"
    else .ok { seen with status := true }
  else if n = ascii ":protocol" then
    .error ("extended CONNECT (:protocol) is not implemented; WebSocket over HTTP/2 (RFC 8441) " ++
      "is rejected and must use HTTP/1.1")
  else .error "unknown pseudo-header (RFC 9113 §8.3)"

/-- The loop body of `validate_header_block`. -/
def checkField (isRequest isTrailer : Bool) (seen : Seen) (f : HeaderField) :
    Except String Seen :=
  if !isValidFieldValue f.value then
    .error "field value contains a control character (RFC 9113 §8.2.1)"
  else if !isPseudo f.name then checkRegular isTrailer seen f
  else if seen.regular then .error "pseudo-header after regular field (RFC 9113 §8.3)"
  else if isTrailer then .error "pseudo-header in trailers (RFC 9113 §8.1)"
  else checkPseudo isRequest seen f

def checkRequest (seen : Seen) : Except String Unit :=
  if seen.method = some (ascii "CONNECT") then
    if seen.scheme || seen.path.isSome then
      .error "CONNECT must not carry :scheme or :path (RFC 9113 §8.5)"
    else if !seen.authority then .error "CONNECT requires :authority (RFC 9113 §8.5)"
    else .ok ()
  else if seen.method.isNone then .error "request missing :method (RFC 9113 §8.3.1)"
  else if !seen.scheme then .error "request missing :scheme (RFC 9113 §8.3.1)"
  else
    match seen.path with
    | none => .error "request missing :path (RFC 9113 §8.3.1)"
    | some [] => .error "empty :path (RFC 9113 §8.3.1)"
    | some _ => .ok ()

/-- The checks of `validate_header_block`: why a block is malformed. -/
def checkHeaderBlock (fields : List HeaderField) (isRequest isTrailer : Bool) :
    Except String Unit := do
  let seen ← fields.foldlM (checkField isRequest isTrailer) {}
  if isTrailer then return
  else if isRequest then checkRequest seen
  else if !seen.status then throw "response missing :status (RFC 9113 §8.3.2)"

/-- The loop of `parse_content_length`. -/
def contentLength (fields : List HeaderField) : Except String (Option ℕ) :=
  fields.foldlM (fun value f =>
    if f.name.bytes ≠ ascii "content-length" then .ok value
    else
      match (toStr f.value).bind (parseUnsigned u64Max) with
      | none => .error "invalid content-length"
      | some n =>
        match value with
        | none => .ok (some n)
        | some prev =>
          if prev ≠ n then .error "conflicting content-length" else .ok value) none

def Priority.parseHeaders (fields : List HeaderField) : Option Priority :=
  (fields.find? fun f => f.name.bytes = ascii "priority").bind fun f => Priority.parse f.value

def statusOf (fields : List HeaderField) : ℕ :=
  ((fieldText fields ":status").bind (parseUnsigned 65535)).getD 200

/-- The check of `verify_content_length`: the octets received do not match what was
    declared, or belong to a message without content. -/
def Stream.lengthMismatch (s : Stream) : Bool :=
  if s.bodyExpected then
    match s.contentLength with
    | some expected => s.recvBodyLen != expected
    | none => false
  else s.recvBodyLen != 0

def StreamState.recvEnd : StreamState → StreamState
  | .open => .halfClosedRemote
  | .halfClosedLocal => .closed
  | state => state

def Stream.endRecv (s : Stream) : Stream := { s with recvEnded := true, state := s.state.recvEnd }

def Stream.declare (s : Stream) (fields : List HeaderField) (length : Option ℕ) : Stream :=
  { s with
    contentLength := length
    bodyExpected := s.bodyExpected && (statusOf fields ≠ 204 && statusOf fields ≠ 304) }

def Stream.respond (s : Stream) (endStream : Bool) (fields : List HeaderField)
    (length : Option ℕ) (priority : Priority) : Stream :=
  { s.declare fields length with
    state := if endStream then s.state.recvEnd else s.state
    recvEnded := s.recvEnded || endStream
    priority := priority
    headersDelivered := true }

def Stream.receive (s : Stream) (octets : List UInt8) (endStream : Bool) (padding : ℕ) : Stream :=
  let s :=
    { s with
      recvWindow := s.recvWindow - (octets.length + padding : ℕ)
      recvUnreleased := s.recvUnreleased + (octets.length + padding : ℕ)
      recvBodyLen := (checkedAdd s.recvBodyLen octets.length).getD s.recvBodyLen }
  if endStream then s.endRecv else s

namespace Conn

def rejectMalformed (c : Conn) (id : ℕ) (msg : String) : Conn :=
  let c := if c.config.client then c else { c with streams := (c.streams.acceptPeerId id).2 }
  c.streamError id .protocolError msg

def verifyContentLength (c : Conn) (id : ℕ) : Conn :=
  if (c.streams.get id).any (·.lengthMismatch) then
    c.streamError id .protocolError "content-length does not match body"
  else c

/-- `stream.is_closed()` at the end of a message: the stream is done with. -/
def closeIfClosed (c : Conn) (id : ℕ) : Conn :=
  if (c.streams.get id).any (·.isClosed) then (c.pushEvent (.streamClosed id)).closeStream id else c

def requestStream (c : Conn) (p : PendingHeaders) (fields : List HeaderField)
    (length : Option ℕ) (priority : Priority) : Stream where
  id := p.streamId
  state := if p.endStream then .halfClosedRemote else .open
  priority := priority
  sendWindow := c.peer.initialWindowSize
  recvWindow := c.localSettings.initialWindowSize
  recvEnded := p.endStream
  headersDelivered := true
  contentLength := length
  bodyExpected := methodExpectsBody fields

def enroll (c : Conn) (s : Stream) : Conn :=
  { c with pendingPriority := c.pendingPriority.erase s.id, streams := c.streams.insert s }

def verifyEnd (c : Conn) (id : ℕ) (endStream : Bool) : Conn :=
  if endStream then c.verifyContentLength id else c

def announce (c : Conn) (id : ℕ) (e : Event) : Conn :=
  if c.streams.contains id then c.pushEvent e else c

def openStream (c : Conn) (p : PendingHeaders) (fields : List HeaderField) :
    Except Error Unit × Conn :=
  let id := p.streamId
  if c.localSettings.maxConcurrentStreams ≠ 0 ∧
      c.localSettings.maxConcurrentStreams ≤ c.streams.openCount then
    (.ok (), (c.pushFrame (.rstStream id .refusedStream)).pushEvent (.streamClosed id))
  else
    let priority := c.pendingPriority[id]?.getD ((Priority.parseHeaders fields).getD {})
    match contentLength fields with
    | .error msg =>
      { c with pendingPriority := c.pendingPriority.erase id }.connError .protocolError msg
    | .ok length =>
      (.ok (), ((c.enroll (c.requestStream p fields length priority)).verifyEnd id p.endStream).announce
        id (.headers id fields p.endStream priority))

def newHeaderBlock (c : Conn) (p : PendingHeaders) (fields : List HeaderField) :
    Except Error Unit × Conn :=
  let id := p.streamId
  match checkHeaderBlock fields (!c.config.client) false with
  | .error msg => (.ok (), c.rejectMalformed id msg)
  | .ok () =>
    if c.config.client then
      if id ∈ c.recentlyClosed then (.ok (), c.pushFrame (.rstStream id .streamClosed))
      else c.connError .protocolError "response on unknown stream"
    else if c.goawaySent && c.streams.lastPeerId < id then
      (.ok (), c.streamError id .refusedStream "stream opened after GOAWAY")
    else
      match c.streams.acceptPeerId id with
      | (false, streams) =>
        { c with streams := streams }.connError .protocolError "non-monotonic stream id"
      | (true, streams) => { c with streams := streams }.openStream p fields

def deliverTrailers (c : Conn) (id : ℕ) (fields : List HeaderField) : Conn :=
  ((c.pushEvent (.trailers id fields)).updateStream id Stream.endRecv).closeIfClosed id

def trailerBlock (c : Conn) (p : PendingHeaders) (fields : List HeaderField) :
    Except Error Unit × Conn :=
  match checkHeaderBlock fields false true with
  | .error msg => (.ok (), c.rejectMalformed p.streamId msg)
  | .ok () =>
    if (c.verifyContentLength p.streamId).streams.contains p.streamId then
      (.ok (), (c.verifyContentLength p.streamId).deliverTrailers p.streamId fields)
    else (.ok (), c.verifyContentLength p.streamId)

/-- A final response: a stream in another state has its length and body flag written before
    the state is looked at. -/
def finalResponse (c : Conn) (p : PendingHeaders) (s : Stream) (fields : List HeaderField)
    (length : Option ℕ) : Except Error Unit × Conn :=
  let id := p.streamId
  let priority := c.pendingPriority[id]?.getD s.priority
  let c := { c with pendingPriority := c.pendingPriority.erase id }
  if s.state ≠ .open ∧ s.state ≠ .halfClosedLocal then
    (c.updateStream id (·.declare fields length)).connError .protocolError
      "HEADERS in invalid state"
  else
    (.ok (), (((c.updateStream id (·.respond p.endStream fields length priority)).verifyEnd
      id p.endStream).announce id (.headers id fields p.endStream priority)).closeIfClosed id)

def responseBlock (c : Conn) (p : PendingHeaders) (s : Stream) (fields : List HeaderField) :
    Except Error Unit × Conn :=
  let id := p.streamId
  match checkHeaderBlock fields false false with
  | .error msg => (.ok (), c.rejectMalformed id msg)
  | .ok () =>
    match contentLength fields with
    | .error msg => c.connError .protocolError msg
    | .ok length =>
      if 100 ≤ statusOf fields ∧ statusOf fields ≤ 199 then
        if p.endStream then
          (.ok (), ((c.pushFrame (.rstStream id .cancel)).pushEvent
            (.streamError id .cancel "peer sent only an informational response")).closeStream id)
        else (.ok (), c)
      else c.finalResponse p s fields length

/-- The part of `finish_header_block` behind the decoder. -/
def headerBlock (c : Conn) (p : PendingHeaders) (fields : List HeaderField) :
    Except Error Unit × Conn :=
  match c.streams.get p.streamId with
  | none => c.newHeaderBlock p fields
  | some s =>
    if s.isClosed then (.ok (), c.pushFrame (.rstStream p.streamId .streamClosed))
    else if s.headersDelivered then c.trailerBlock p fields
    else if !c.config.client then
      c.connError .protocolError "unexpected HEADERS on existing stream"
    else c.responseBlock p s fields

def finishHeaderBlock (c : Conn) (p : PendingHeaders) : Except Error Unit × Conn :=
  match c.decoder.decode p.block with
  | .error e => c.connError .compressionError e.display
  | .ok (fields, decoder) => { c with decoder := decoder }.headerBlock p fields

/-! ### DATA -/

def charge (c : Conn) (len : ℕ) : Conn :=
  { c with
    connRecvWindow := c.connRecvWindow.consume len
    hist := { c.hist with charged := c.hist.charged + len } }

def autoRelease (c : Conn) (id len : ℕ) : Conn :=
  if c.config.autoReleaseCredit then c.releaseData id len else c

def deliverData (c : Conn) (id : ℕ) (octets : List UInt8) (endStream : Bool) (len : ℕ) : Conn :=
  let c := (c.pushEvent (.data id octets endStream)).autoRelease id len
  if endStream then c.closeIfClosed id else c

def acceptData (c : Conn) (id : ℕ) (octets : List UInt8) (endStream : Bool) (padding : ℕ) : Conn :=
  let len := octets.length + padding
  let c := (c.charge len).verifyEnd id endStream
  if c.streams.contains id then c.deliverData id octets endStream len else c

def onData (c : Conn) (id : ℕ) (octets : List UInt8) (endStream : Bool) (padding : ℕ) :
    Except Error Unit × Conn :=
  match c.streams.get id with
  | none =>
    if id ∈ c.recentlyClosed then (.ok (), c.pushFrame (.rstStream id .streamClosed))
    else c.connError .protocolError "DATA on unknown stream"
  | some s =>
    if !s.bodyExpected then (.ok (), c.streamError id .protocolError "DATA on bodyless message")
    else if !s.canRecv then
      (.ok (), c.streamError id .streamClosed "DATA after the stream was closed")
    else if s.recvWindow < (octets.length + padding : ℕ) then
      c.connError .flowControlError "stream window exceeded"
    else
      let overflow := (checkedAdd s.recvBodyLen octets.length).isNone
      let c := c.updateStream id (·.receive octets endStream padding)
      if overflow then (.ok (), c.streamError id .protocolError "content-length counter overflow")
      else if c.connRecvWindow.available < (octets.length + padding : ℕ) then
        c.connError .flowControlError "connection window exceeded"
      else (.ok (), c.acceptData id octets endStream padding)

/-! ### SETTINGS and WINDOW_UPDATE -/

def wakeBuffered (c : Conn) : Conn :=
  (c.streams.ids.filter fun id => (c.streams.get id).any (0 < ·.sendBuffered)).foldl maybeSchedule c

def shiftWindows (c : Conn) (delta : ℤ) : Conn :=
  c.streams.ids.foldl (fun c id => c.updateStream id fun s =>
    { s with sendWindow := satI64 (s.sendWindow + delta) }) c

def adoptSettings (c : Conn) (settings : Settings) (delta : ℤ) : Conn :=
  let c := if delta ≠ 0 then c.shiftWindows delta else c
  (({ c with peer := settings }.pushFrame (.settings true [])).pushEvent
    (.peerSettings settings)).wakeBuffered

def onSettings (c : Conn) (entries : List Setting) : Except Error Unit × Conn :=
  match c.peer.apply entries with
  | .error e => c.connError .protocolError e.display
  | .ok settings =>
    if c.config.client && entries.any fun s => s.id = SETTINGS_ENABLE_PUSH && s.value = 1 then
      c.connError .protocolError "server sent SETTINGS_ENABLE_PUSH=1"
    else if c.peer.noRfc7540Priorities ≠ settings.noRfc7540Priorities ∧
        c.peer.noRfc7540Priorities ≠ 0 then
      c.connError .protocolError "SETTINGS_NO_RFC7540_PRIORITIES changed"
    else
      let c := { c with encoder := c.encoder.setPeerTableSize settings.headerTableSize }
      let delta : ℤ := settings.initialWindowSize - c.peer.initialWindowSize
      if delta ≠ 0 ∧ ∃ id ∈ c.streams.ids, (c.streams.get id).any fun s =>
          MAX_FLOW_WINDOW < satI64 (s.sendWindow + delta) then
        c.connError .flowControlError "SETTINGS_INITIAL_WINDOW_SIZE overflows a stream window"
      else (.ok (), c.adoptSettings settings delta)

def creditConn (c : Conn) (window : FlowWindow) (increment : ℕ) : Conn :=
  { c with
    connSendWindow := window
    hist := { c.hist with credited := c.hist.credited + increment } }

def onWindowUpdate (c : Conn) (id increment : ℕ) : Except Error Unit × Conn :=
  if id = 0 then
    match c.connSendWindow.increase increment with
    | none => c.connError .flowControlError "connection window overflow"
    | some window => (.ok (), (c.creditConn window increment).wakeBuffered)
  else
    match c.streams.get id with
    | none =>
      let everOpened := if c.config.client then decide (id < c.streams.nextClientId)
        else decide (id ≤ c.streams.lastPeerId)
      if everOpened || id ∈ c.recentlyClosed then (.ok (), c)
      else c.connError .protocolError "WINDOW_UPDATE on an idle stream"
    | some s =>
      let next := satI64 (s.sendWindow + increment)
      if MAX_FLOW_WINDOW < next then c.connError .flowControlError "stream window overflow"
      else (.ok (), (c.updateStream id fun s => { s with sendWindow := next }).maybeSchedule id)

/-! ### Dispatch -/

def onRstStream (c : Conn) (id : ℕ) (code : ErrorCode) : Except Error Unit × Conn :=
  if c.streams.contains id then (.ok (), (c.pushEvent (.rst id code)).closeStream id)
  else if id ∈ c.recentlyClosed then (.ok (), c)
  else if c.streams.lastPeerId < id then
    c.connError .protocolError "RST_STREAM on idle stream"
  else (.ok (), c)

def refuse (c : Conn) (id : ℕ) : Conn := (c.pushEvent (.rst id .refusedStream)).closeStream id

def onGoAway (c : Conn) (last : ℕ) (code : ErrorCode) (debug : List UInt8) : Conn :=
  let c := { c with goawayReceived := true, peerLastStream := last }.pushEvent
    (.goAway code last debug)
  (c.streams.ids.filter fun id => last < id).foldl refuse c

def setPriority (c : Conn) (id : ℕ) (priority : Priority) : Conn :=
  match c.streams.get id with
  | some s =>
    { c.updateStream id fun s => { s with priority := priority } with
      scheduler := c.scheduler.update id s.priority priority }
  | none =>
    if c.pendingPriority.size < 1024 then
      { c with pendingPriority := c.pendingPriority.insert id priority }
    else { c with pendingPriority := (∅ : Std.ExtTreeMap ℕ Priority).insert id priority }

def onPriorityUpdate (c : Conn) (id : ℕ) (field : List UInt8) : Except Error Unit × Conn :=
  if c.config.client then c.connError .protocolError "server must not send PRIORITY_UPDATE"
  else
    let priority := (Priority.parse field).getD {}
    (.ok (), (c.setPriority id priority).pushEvent (.priorityUpdate id priority))

/-- `process_frame` while no header block is open. -/
def dispatch (c : Conn) : Frame → Except Error Unit × Conn
  | .headers id block endStream endHeaders _ =>
    if endHeaders then c.finishHeaderBlock ⟨id, block, endStream⟩
    else (.ok (), { c with pendingHeaders := some ⟨id, block, endStream⟩ })
  | .data id octets endStream padding => c.onData id octets endStream padding
  | .rstStream id code => c.onRstStream id code
  | .settings ack entries =>
    if ack then
      if !entries.isEmpty then c.connError .frameSizeError "SETTINGS ACK with payload"
      else (.ok (), { c with settingsAckPending := false })
    else c.onSettings entries
  | .ping ack octets =>
    if ack then (.ok (), c) else (.ok (), (c.pushFrame (.ping true octets)).pushEvent (.ping octets))
  | .goAway last code debug => (.ok (), c.onGoAway last code debug)
  | .windowUpdate id increment => c.onWindowUpdate id increment
  | .priority _ _ => (.ok (), c)
  | .priorityUpdate id field => c.onPriorityUpdate id field
  | .pushPromise _ _ _ _ => c.connError .protocolError "unexpected PUSH_PROMISE"
  | .continuation _ _ _ =>
    c.connError .protocolError "unexpected CONTINUATION without a pending header block"
  | .unknown _ _ _ _ => (.ok (), c)

def continueBlock (c : Conn) (p : PendingHeaders) (id : ℕ) (endHeaders : Bool)
    (block : List UInt8) : Except Error Unit × Conn :=
  if p.streamId ≠ id then c.connError .protocolError "CONTINUATION on different stream"
  else if c.localHeaderCap < p.block.length + block.length then
    c.connError .compressionError "header block exceeds advertised limit"
  else
    let p := { p with block := p.block ++ block }
    if endHeaders then { c with pendingHeaders := none }.finishHeaderBlock p
    else (.ok (), { c with pendingHeaders := some p })

def processFrame (c : Conn) (f : Frame) : Except Error Unit × Conn :=
  match c.pendingHeaders with
  | none => c.dispatch f
  | some p =>
    match f with
    | .continuation id endHeaders block => c.continueBlock p id endHeaders block
    | _ => c.connError .protocolError "expected CONTINUATION"

end Conn

/-- A frame as it is read: the header's length is that of the payload. -/
structure RawFrame where
  kind : UInt8
  flags : UInt8
  streamId : ℕ
  payload : List UInt8

def RawFrame.header (r : RawFrame) : FrameHeader := ⟨r.payload.length, r.kind, r.flags, r.streamId⟩

def RawFrame.streamScoped (r : RawFrame) : Option (ErrorCode × String) :=
  if r.kind = 0x2 then
    if r.streamId = 0 then some (.protocolError, "PRIORITY on stream 0")
    else if r.payload.length ≠ 5 then some (.frameSizeError, "PRIORITY length != 5")
    else none
  else if r.kind = 0x8 ∧ r.streamId ≠ 0 ∧ r.payload.length = 4 ∧ beU31 r.payload = 0 then
    some (.protocolError, "WINDOW_UPDATE increment 0 on a stream")
  else none

def RawFrame.parse (r : RawFrame) (maxFrameSize : ℕ) : Except Error Frame :=
  Frame.parse r.header r.payload maxFrameSize

namespace Conn

def logInbound (c : Conn) (f : Frame) : Conn :=
  { c with hist := { c.hist with inbound := c.hist.inbound ++ [f] } }

/-- `read_and_process_one` for a frame that is complete; a closed connection reads nothing. -/
def receive (c : Conn) (r : RawFrame) : Except Error Unit × Conn :=
  if c.closed then (.ok (), c)
  else if c.localSettings.maxFrameSize < r.payload.length then
    (.error (h2Error .frameSizeError "received frame exceeds our max frame size"),
      { c.sendGoaway .frameSizeError (ascii "frame too large") with closed := true })
  else
    match r.streamScoped with
    | some (code, msg) =>
      if r.streamId = 0 then c.connError code msg else (.ok (), c.streamError r.streamId code msg)
    | none =>
      match r.parse c.localSettings.maxFrameSize with
      | .error e =>
        c.connError ((e.h2Code.bind ErrorCode.fromU32).getD .protocolError) e.display
      | .ok f => (c.logInbound f).processFrame f

end Conn

/-- What can happen to a connection: a call of the application, a flush, or a frame. -/
inductive Op where
  | openRequest (priority : Priority)
  | sendHeaders (id : ℕ) (fields : List HeaderField) (endStream : Bool)
  | sendData (id : ℕ) (octets : List UInt8) (endStream : Bool)
  | sendTrailers (id : ℕ) (fields : List HeaderField)
  | sendRst (id : ℕ) (code : ErrorCode)
  | sendPing (octets : List UInt8)
  | sendGoaway (code : ErrorCode) (debug : List UInt8)
  | sendPriorityUpdate (id : ℕ) (priority : Priority)
  | releaseData (id n : ℕ)
  | nextEvent
  | flush
  | flushFinal
  | receive (r : RawFrame)

def Conn.step (c : Conn) : Op → Conn
  | .openRequest priority => (c.openRequest priority).2
  | .sendHeaders id fields endStream => (c.sendHeaders id fields endStream).2
  | .sendData id octets endStream => (c.sendData id octets endStream).2
  | .sendTrailers id fields => (c.sendTrailers id fields).2
  | .sendRst id code => c.sendRst id code
  | .sendPing octets => c.sendPing octets
  | .sendGoaway code debug => c.sendGoaway code debug
  | .sendPriorityUpdate id priority => (c.sendPriorityUpdate id priority).2
  | .releaseData id n => c.releaseData id n
  | .nextEvent => c.nextEvent.2
  | .flush => c.flushOutbound.2
  | .flushFinal => c.flushFinal.2
  | .receive r => (c.receive r).2

end Courierust.H2
