import Mathlib.Data.Finset.Basic
import Courierust.Hpack.Codec
import Courierust.H2.Frame
import Courierust.H2.Stream

/-!
# An HTTP/2 connection: state, application calls and outbound scheduling

Model of `courierust_h2::connection` without its transport: the frames a connection queues
are handed over by `flushOutbound`, and inbound frames come one by one. A call that fails
returns its error beside the state it leaves, because a connection error changes the state.

The record has one field the source does not have: `hist` logs the frames ever queued, the
events ever pushed, the octets the application handed over and the inbound frames. Nothing
reads it.
-/

namespace Courierust.H2

open Std (ExtTreeMap)
open Http (ascii toStr eqIgnoreAsciiCase isValidFieldValue HeaderName)
open Hpack (HeaderField)

structure Config where
  client : Bool := true
  localSettings : Settings := {}
  schedulerQuantum : ℕ := 32 * 1024
  maxSendBuffer : ℕ := 4 * 1024 * 1024
  autoReleaseCredit : Bool := true

inductive Event where
  | headers (streamId : ℕ) (headers : List HeaderField) (endStream : Bool) (priority : Priority)
  | data (streamId : ℕ) (data : List UInt8) (endStream : Bool)
  | trailers (streamId : ℕ) (headers : List HeaderField)
  | rst (streamId : ℕ) (errorCode : ErrorCode)
  | streamError (streamId : ℕ) (errorCode : ErrorCode) (message : String)
  | goAway (errorCode : ErrorCode) (lastStreamId : ℕ) (debug : List UInt8)
  | peerSettings (settings : Settings)
  | ping (data : List UInt8)
  | priorityUpdate (streamId : ℕ) (priority : Priority)
  | streamClosed (streamId : ℕ)
  deriving DecidableEq

/-- Outbound body data waiting for credit; `trailers` replace the empty END_STREAM frame. -/
structure Chunk where
  data : List UInt8
  endStream : Bool
  trailers : Option (List HeaderField) := none
  deriving DecidableEq

structure PendingHeaders where
  streamId : ℕ
  block : List UInt8
  endStream : Bool

/-- What has happened on a connection: frames queued and frames written out, header blocks
    encoded, events pushed, octets accepted by `send_data`, frames processed, octets charged to
    the connection receive window, and increments accepted on stream 0. -/
structure History where
  queued : List Frame := []
  written : List Frame := []
  encoded : List (List UInt8) := []
  delivered : List Event := []
  accepted : List (ℕ × List UInt8) := []
  inbound : List Frame := []
  charged : ℕ := 0
  credited : ℕ := 0

structure Conn where
  config : Config
  encoder : Hpack.Encoder
  decoder : Hpack.Decoder
  localSettings : Settings
  peer : Settings
  settingsSent : Bool
  pendingFrames : List Frame
  pendingHeaders : Option PendingHeaders
  streams : StreamMap
  scheduler : Scheduler
  scheduled : Finset ℕ
  sendQueue : ExtTreeMap ℕ (List Chunk)
  pendingPriority : ExtTreeMap ℕ Priority
  connSendWindow : FlowWindow
  connRecvWindow : FlowWindow
  connPendingRelease : ℤ
  events : List Event
  recentlyClosed : List ℕ
  localHeaderCap : ℕ
  goawaySent : Bool
  goawayReceived : Bool
  peerLastStream : ℕ
  closed : Bool
  settingsAckPending : Bool
  hist : History

/-- `header_list_cap`: no advertised limit still means a finite one. -/
def headerListCap (advertised : ℕ) : ℕ := if advertised = 0 then 16 * 1024 * 1024 else advertised

/-- `text.as_bytes()`. -/
def textBytes (text : String) : List UInt8 := text.toUTF8.toList

/-- `conn_threshold`: the connection credit that is worth a frame. -/
def CONN_THRESHOLD : ℤ := 32 * 1024

def CLOSED_TRACK : ℕ := 2048

/-- The credit a WINDOW_UPDATE carries: what is due, cut to a `u32`. -/
def toIncrement (n : ℤ) : ℕ := (min n (2 ^ 32 - 1)).toNat

namespace Conn

def new (config : Config) : Conn where
  config := config
  encoder := Hpack.Encoder.new
  decoder := Hpack.Decoder.new (Fin.ofNat _ config.localSettings.headerTableSize)
    (Fin.ofNat _ (headerListCap config.localSettings.maxHeaderListSize))
  localSettings := config.localSettings
  peer := {}
  settingsSent := false
  pendingFrames := []
  pendingHeaders := none
  streams := StreamMap.new config.client
  scheduler := Scheduler.new config.schedulerQuantum
  scheduled := ∅
  sendQueue := ∅
  pendingPriority := ∅
  connSendWindow := ⟨65535, MAX_FLOW_WINDOW⟩
  connRecvWindow := ⟨65535, MAX_FLOW_WINDOW⟩
  connPendingRelease := 0
  events := []
  recentlyClosed := []
  localHeaderCap := headerListCap config.localSettings.maxHeaderListSize
  goawaySent := false
  goawayReceived := false
  peerLastStream := 0
  closed := false
  settingsAckPending := true
  hist := {}

/-! ### Primitives -/

/-- `pending_frames.push_back`, of each frame. -/
def pushFrames (c : Conn) (fs : List Frame) : Conn :=
  { c with
    pendingFrames := c.pendingFrames ++ fs
    hist := { c.hist with queued := c.hist.queued ++ fs } }

/-- `pending_frames.push_back`. -/
def pushFrame (c : Conn) (f : Frame) : Conn := c.pushFrames [f]

/-- `events.push_back`. -/
def pushEvent (c : Conn) (e : Event) : Conn :=
  { c with
    events := c.events ++ [e]
    hist := { c.hist with delivered := c.hist.delivered ++ [e] } }

/-- `encoder.encode`: the encoder moves on to its next state. -/
def produce (c : Conn) (block : List UInt8) (encoder : Hpack.Encoder) : Conn :=
  { c with encoder := encoder, hist := { c.hist with encoded := c.hist.encoded ++ [block] } }

/-- A write through `streams.get_mut`. -/
def updateStream (c : Conn) (id : ℕ) (f : Stream → Stream) : Conn :=
  { c with streams := c.streams.update id f }

def queue (c : Conn) (id : ℕ) : List Chunk := c.sendQueue[id]?.getD []

def sendGoaway (c : Conn) (code : ErrorCode) (debug : List UInt8) : Conn :=
  if c.goawaySent || c.closed then c
  else { c.pushFrame (.goAway c.streams.lastPeerId code debug) with goawaySent := true }

/-- `conn_error`: GOAWAY, and the connection is closed. -/
def connError (c : Conn) (code : ErrorCode) (msg : String) : Except Error Unit × Conn :=
  (.error (h2Error code msg), { c.sendGoaway code (textBytes msg) with closed := true })

def unschedule (c : Conn) (id : ℕ) : Conn :=
  { c with scheduler := c.scheduler.remove id, scheduled := c.scheduled.erase id }

/-- The first part of `close_stream`: credit the stream still held goes back. -/
def returnCredit (c : Conn) (id : ℕ) : Conn :=
  match c.streams.get id with
  | some s =>
    if 0 < s.recvUnreleased then
      { c with
        connRecvWindow := c.connRecvWindow.release s.recvUnreleased
        connPendingRelease := c.connPendingRelease + s.recvUnreleased }
    else c
  | none => c

def grantReturned (c : Conn) : Conn :=
  if CONN_THRESHOLD ≤ c.connPendingRelease then
    { c.pushFrame (.windowUpdate 0 (toIncrement c.connPendingRelease)) with connPendingRelease := 0 }
  else c

def forget (c : Conn) (id : ℕ) : Conn :=
  { c.unschedule id with
    sendQueue := c.sendQueue.erase id
    pendingPriority := c.pendingPriority.erase id
    streams := c.streams.remove id
    recentlyClosed :=
      let ring := c.recentlyClosed ++ [id]
      if CLOSED_TRACK < ring.length then ring.drop 1 else ring }

def closeStream (c : Conn) (id : ℕ) : Conn := ((c.returnCredit id).grantReturned).forget id

def reportStreamError (c : Conn) (id : ℕ) (code : ErrorCode) (msg : String) : Conn :=
  if c.streams.contains id then c.pushEvent (.streamError id code msg) else c

/-- `stream_error`: the stream need not exist. -/
def streamError (c : Conn) (id : ℕ) (code : ErrorCode) (msg : String) : Conn :=
  if c.closed then c
  else ((c.reportStreamError id code msg).pushFrame (.rstStream id code)).closeStream id

def maybeSchedule (c : Conn) (id : ℕ) : Conn :=
  if id ∈ c.scheduled then c
  else if c.queue id = [] then c
  else
    match c.streams.get id with
    | some s =>
      if 0 < s.sendWindow then
        { c with scheduler := c.scheduler.add id s.priority, scheduled := insert id c.scheduled }
      else c
    | none => c

def streamThreshold (c : Conn) : ℤ := max (c.localSettings.initialWindowSize / 2) (16 * 1024)

/-- The stream half of `release_data`. -/
def releaseStream (c : Conn) (id : ℕ) : Conn :=
  match c.streams.get id with
  | some s =>
    if c.streamThreshold ≤ s.recvUnreleased then
      (c.updateStream id fun s =>
        { s with
          recvUnreleased := 0
          recvWindow := min (satI64 (s.recvWindow + s.recvUnreleased)) MAX_FLOW_WINDOW }).pushFrame
        (.windowUpdate id (toIncrement s.recvUnreleased))
    else c
  | none => c

/-- The connection half of `release_data`: here the window is released with the frame. -/
def releaseConn (c : Conn) (n : ℕ) : Conn :=
  let due := c.connPendingRelease + n
  if CONN_THRESHOLD ≤ due then
    { c with
      connPendingRelease := 0
      connRecvWindow := c.connRecvWindow.release (toIncrement due) }.pushFrame
      (.windowUpdate 0 (toIncrement due))
  else { c with connPendingRelease := due }

def releaseData (c : Conn) (id n : ℕ) : Conn := (c.releaseStream id).releaseConn n

def registerUpgradeStream (c : Conn) : Except Error Unit × Conn :=
  if c.goawayReceived then (.error (Error.canceled "peer sent GOAWAY"), c)
  else
    let s : Stream :=
      { id := 1
        sendWindow := c.peer.initialWindowSize
        recvWindow := c.localSettings.initialWindowSize }
    let s := if c.config.client then { s with state := .halfClosedLocal, sendDone := true }
      else { s with state := .halfClosedRemote, recvEnded := true }
    (.ok (), { c with streams := c.streams.reserveUpgradeStream.insert s })

end Conn

/-! ### Fields -/

/-- `HeaderName::as_str` as a text for messages. -/
def nameText (name : HeaderName) : String :=
  String.ofList (name.bytes.map fun b => Char.ofNat b.toNat)

def isPseudo (name : HeaderName) : Bool := name.bytes.head? == some 0x3a

/-- The connection-specific names of RFC 9113 §8.2.2. -/
def isConnectionSpecific (name : List UInt8) : Bool :=
  name = ascii "connection" || name = ascii "keep-alive" || name = ascii "proxy-connection" ||
    name = ascii "transfer-encoding" || name = ascii "upgrade"

/-- A `te` field with another value than `trailers`. -/
def isBadTe (f : HeaderField) : Bool :=
  f.name.bytes = ascii "te" &&
    !eqIgnoreAsciiCase ((toStr f.value).getD []) (ascii "trailers")

def fieldText (fields : List HeaderField) (name : String) : Option (List UInt8) :=
  (fields.find? fun f => f.name.bytes = ascii name).bind fun f => toStr f.value

def methodExpectsBody (fields : List HeaderField) : Bool :=
  let method := (fieldText fields ":method").getD []
  method ≠ ascii "HEAD" && method ≠ ascii "CONNECT"

def listSize (fields : List HeaderField) : ℕ :=
  (fields.map fun f => f.name.bytes.length + f.value.length + 32).sum

/-- What `send_headers` refuses to send. -/
def refuseField (f : HeaderField) : Option Error :=
  if isConnectionSpecific f.name.bytes then
    some (Error.protocol ("refusing to send connection-specific header `" ++ nameText f.name ++
      "` in HTTP/2 (RFC 9113 §8.2.2)"))
  else if isBadTe f then
    some (Error.protocol
      "refusing to send a TE header other than `trailers` in HTTP/2 (RFC 9113 §8.2.2)")
  else if !isValidFieldValue f.value then
    some (Error.protocol ("refusing to send field `" ++ nameText f.name ++
      "` with CR, LF or NUL in its value (RFC 9113 §8.2.1)"))
  else none

/-- What `send_trailers` refuses to send. -/
def refuseTrailer (f : HeaderField) : Option Error :=
  if isPseudo f.name then
    some (Error.protocol ("refusing to send pseudo-header `" ++ nameText f.name ++
      "` in trailers (RFC 9113 §8.1)"))
  else if !isValidFieldValue f.value then
    some (Error.protocol ("refusing to send trailer `" ++ nameText f.name ++
      "` with CR, LF or NUL in its value (RFC 9113 §8.2.1)"))
  else none

def continuations (id max : ℕ) : ℕ → List UInt8 → List Frame
  | 0, _ => []
  | fuel + 1, block =>
    if block.isEmpty then []
    else .continuation id (block.length ≤ max) (block.take max) ::
      continuations id max fuel (block.drop max)

/-- A header block as HEADERS and CONTINUATION frames of at most `max` octets. -/
def headerFrames (id : ℕ) (block : List UInt8) (endStream : Bool) (max : ℕ) : List Frame :=
  if block.length ≤ max then [.headers id block endStream true none]
  else .headers id (block.take max) endStream false none ::
    continuations id max block.length (block.drop max)

theorem forall_headerFrames {P : Frame → Prop} {id max : ℕ} {block : List UInt8} {endStream : Bool}
    (hheaders : ∀ part ends, part.length ≤ max → P (.headers id part endStream ends none))
    (hcontinuation : ∀ part ends, part.length ≤ max → P (.continuation id ends part)) :
    ∀ f ∈ headerFrames id block endStream max, P f := by
  have hrest : ∀ fuel block, ∀ f ∈ continuations id max fuel block, P f := by
    intro fuel
    induction fuel with
    | zero => simp [continuations]
    | succ fuel ih =>
      intro block
      unfold continuations
      split_ifs
      · simp
      · exact List.forall_mem_cons.2 ⟨hcontinuation _ _ (List.length_take_le _ _),ih _⟩
  unfold headerFrames
  split_ifs with hshort
  · exact List.forall_mem_singleton.2 (hheaders _ _ hshort)
  · exact List.forall_mem_cons.2 ⟨hheaders _ _ (List.length_take_le _ _),hrest _ _⟩

def StreamState.sendHead (state : StreamState) (endStream : Bool) : StreamState :=
  match state with
  | .idle => if endStream then .halfClosedLocal else .open
  | .open => if endStream then .halfClosedLocal else .open
  | .halfClosedRemote => if endStream then .closed else .halfClosedRemote
  | state => state

def Stream.pay (s : Stream) (n : ℕ) : Stream :=
  { s with sendWindow := s.sendWindow - n, sendBuffered := s.sendBuffered - n }

namespace Conn

/-! ### Application calls -/

/-- What `send_headers` does once nothing can fail any more. -/
def sendHead (c : Conn) (id : ℕ) (s : Stream) (fields : List HeaderField) (endStream : Bool) :
    Conn :=
  let max := c.peer.maxFrameSize
  let (block, encoder) := c.encoder.encode fields
  let state := s.state.sendHead endStream
  let c := (c.produce block encoder).updateStream id fun s =>
    { s with bodyExpected := methodExpectsBody fields, state := state, sendDone := endStream }
  let c := if state = .closed then (c.pushEvent (.streamClosed id)).closeStream id else c
  c.pushFrames (headerFrames id block endStream max)

def sendHeaders (c : Conn) (id : ℕ) (fields : List HeaderField) (endStream : Bool) :
    Except Error Unit × Conn :=
  match fields.findSome? refuseField with
  | some e => (.error e, c)
  | none =>
    if c.goawaySent || c.closed then (.error (Error.canceled "connection closing"), c)
    else
      match c.streams.get id with
      | none => (.error (Error.protocol "send_headers: unknown stream"), c)
      | some s =>
        if c.peer.maxHeaderListSize ≠ 0 ∧ c.peer.maxHeaderListSize < listSize fields then
          (.error (Error.overflow "header list exceeds peer SETTINGS_MAX_HEADER_LIST_SIZE"), c)
        else (.ok (), c.sendHead id s fields endStream)

def openRequest (c : Conn) (priority : Priority) : Except Error ℕ × Conn :=
  if !c.config.client then (.error (Error.protocol "open_request on server session"), c)
  else if c.goawayReceived then (.error (Error.canceled "peer sent GOAWAY"), c)
  else
    match c.streams.allocateClientId with
    | none => (.error (Error.protocol "stream id space exhausted"), c)
    | some (id, streams) =>
      let s : Stream :=
        { id := id
          priority := priority
          sendWindow := c.peer.initialWindowSize
          recvWindow := c.localSettings.initialWindowSize }
      (.ok id, { c with streams := streams.insert s })

def enqueue (c : Conn) (id : ℕ) (chunk : Chunk) : Conn :=
  { c.updateStream id fun s =>
      { s with
        sendBuffered := s.sendBuffered + chunk.data.length
        sendDone := s.sendDone || chunk.endStream } with
    sendQueue := c.sendQueue.insert id (c.queue id ++ [chunk])
    hist := { c.hist with accepted := c.hist.accepted ++ [(id, chunk.data)] } }.maybeSchedule id

def sendData (c : Conn) (id : ℕ) (octets : List UInt8) (endStream : Bool) :
    Except Error ℕ × Conn :=
  if c.goawaySent || c.closed then (.error (Error.canceled "connection closing"), c)
  else
    match c.streams.get id with
    | none => (.error (Error.protocol "send_data: unknown stream"), c)
    | some s =>
      if !s.canSend then (.error (Error.canceled "stream not writable"), c)
      else if c.config.maxSendBuffer < ((c.queue id).map (·.data.length)).sum + octets.length then
        (.error (Error.overflow "per-stream send buffer full"), c)
      else (.ok octets.length, c.enqueue id ⟨octets, endStream, none⟩)

def sendTrailers (c : Conn) (id : ℕ) (fields : List HeaderField) : Except Error Unit × Conn :=
  match fields.findSome? refuseTrailer with
  | some e => (.error e, c)
  | none =>
    if c.goawaySent || c.closed then (.error (Error.canceled "connection closing"), c)
    else
      match c.streams.get id with
      | none => (.error (Error.protocol "send_trailers: unknown stream"), c)
      | some s =>
        if !s.canSend then (.error (Error.canceled "stream not writable"), c)
        else (.ok (), c.enqueue id ⟨[], true, some fields⟩)

def sendRst (c : Conn) (id : ℕ) (code : ErrorCode) : Conn :=
  if c.closed then c else (c.pushFrame (.rstStream id code)).closeStream id

def sendPing (c : Conn) (octets : List UInt8) : Conn :=
  if c.closed then c else c.pushFrame (.ping false octets)

def sendPriorityUpdate (c : Conn) (id : ℕ) (priority : Priority) : Except Error Unit × Conn :=
  if !c.config.client then (.error (Error.protocol "servers must not send PRIORITY_UPDATE"), c)
  else if c.closed then (.error (Error.canceled "connection closing"), c)
  else
    (.ok (), (c.pushFrame (.priorityUpdate id priority.text)).updateStream id fun s =>
      { s with priority := priority })

def nextEvent (c : Conn) : Option Event × Conn :=
  (c.events.head?, { c with events := c.events.tail })

/-! ### Outbound -/

def emitTrailerBlock (c : Conn) (id : ℕ) (fields : List HeaderField) : Conn :=
  let (block, encoder) := c.encoder.encode fields
  (c.produce block encoder).pushFrames (headerFrames id block true c.peer.maxFrameSize)

/-- What is taken from the front of a queue: the payload, what stays queued, whether the
    stream ends here, and the trailers that end it. -/
structure Taken where
  payload : List UInt8
  queue : List Chunk
  endStream : Bool
  trailers : Option (List HeaderField)

/-- Take at most `amount` octets from the front chunk. -/
def take (amount : ℕ) (chunk : Chunk) (rest : List Chunk) : Taken :=
  if chunk.data.length ≤ amount then
    let last := chunk.endStream && rest.isEmpty
    ⟨chunk.data, rest, last, if last then chunk.trailers else none⟩
  else ⟨chunk.data.take amount, { chunk with data := chunk.data.drop amount } :: rest, false, none⟩

def sendable (c : Conn) (s : Stream) : ℕ :=
  (min (min s.sendWindow c.connSendWindow.available) c.peer.maxFrameSize).toNat

def emit (c : Conn) (id : ℕ) (t : Taken) : Conn :=
  let c :=
    { c.updateStream id (·.pay t.payload.length) with
      sendQueue := c.sendQueue.insert id t.queue
      connSendWindow := c.connSendWindow.consume t.payload.length }
  match t.trailers with
  | some fields => c.emitTrailerBlock id fields
  | none => c.pushFrame (.data id t.payload t.endStream 0)

def reschedule (c : Conn) (id : ℕ) : Conn :=
  match c.streams.get id with
  | none => c.unschedule id
  | some s =>
    if c.queue id ≠ [] ∧ 0 < s.sendWindow then c.maybeSchedule id
    else if c.queue id = [] then c.unschedule id
    else c

def settle (c : Conn) (id : ℕ) (s : Stream) (endStream : Bool) : Conn :=
  if endStream && s.state = .halfClosedRemote then
    (c.pushEvent (.streamClosed id)).closeStream id
  else
    let c := if endStream && s.state = .open then
        c.updateStream id fun s => { s with state := .halfClosedLocal }
      else c
    c.reschedule id

/-- One round of `emit_data_frames`, for the stream the scheduler picked. -/
def serve (c : Conn) (id : ℕ) : Conn :=
  match c.streams.get id with
  | none => c.unschedule id
  | some s =>
    if c.sendable s = 0 then c.unschedule id
    else
      match c.queue id with
      | [] => c.unschedule id
      | chunk :: rest =>
        let t := take (c.sendable s) chunk rest
        ({ c with scheduled := c.scheduled.erase id }.emit id t).settle id s t.endStream

/-- The rounds of `emit_data_frames`. -/
def emitLoop : ℕ → Conn → Conn
  | 0, c => c
  | n + 1, c =>
    match c.scheduler.next c.peer.maxFrameSize with
    | (none, scheduler) => { c with scheduler := scheduler }
    | (some id, scheduler) => emitLoop n ({ c with scheduler := scheduler }.serve id)

/-- `emit_data_frames`: at most 64 rounds a flush. -/
def emitDataFrames (c : Conn) : Conn :=
  if c.connSendWindow.available ≤ 0 then c else emitLoop 64 c

def queueSettings (c : Conn) : Conn :=
  let entries := c.localSettings.toVec
  let entries := if c.config.client then entries
    else entries.filter fun s => s.id ≠ SETTINGS_ENABLE_PUSH
  c.pushFrame (.settings false entries)

def writeOut (c : Conn) : List Frame × Conn :=
  (c.pendingFrames, { c with
    pendingFrames := []
    hist := { c.hist with written := c.hist.written ++ c.pendingFrames } })

/-- `flush_outbound` up to the transport: the frames that are encoded for it. -/
def flushOutbound (c : Conn) : List Frame × Conn :=
  if c.closed then ([], c)
  else
    let c := if c.settingsSent then c else { c.queueSettings with settingsSent := true }
    c.emitDataFrames.writeOut

/-- `flush_final` up to the transport: what is queued goes out even though the session is
    closed. -/
def flushFinal (c : Conn) : List Frame × Conn := c.writeOut

/-! ### What the primitives leave alone -/

theorem closeStream_shape (c : Conn) (id : ℕ) : ∃ window pending fs,
    (∀ f ∈ fs, ∃ n, f = Frame.windowUpdate 0 n) ∧
      c.closeStream id =
        { (c.pushFrames fs).forget id with
          connRecvWindow := window, connPendingRelease := pending } := by
  obtain ⟨window,pending,hreturn⟩ : ∃ window pending, c.returnCredit id =
      { c with connRecvWindow := window, connPendingRelease := pending } := by
    unfold returnCredit
    split
    · split_ifs
      · exact ⟨_,_,rfl⟩
      · exact ⟨_,_,rfl⟩
    · exact ⟨_,_,rfl⟩
  unfold closeStream
  rw [hreturn]
  unfold grantReturned
  split_ifs
  · exact ⟨window,0,[.windowUpdate 0 (toIncrement pending)],by simp,rfl⟩
  · refine ⟨window,pending,[],by simp,?_⟩
    simp [pushFrames,forget,unschedule]

theorem releaseData_shape (c : Conn) (id n : ℕ) : ∃ window pending fs f,
    (∀ g ∈ fs, ∃ x n, g = Frame.windowUpdate x n) ∧
      (∀ s : Stream, f s = { s with
        recvUnreleased := (f s).recvUnreleased, recvWindow := (f s).recvWindow }) ∧
      c.releaseData id n =
        { (c.updateStream id f).pushFrames fs with
          connRecvWindow := window, connPendingRelease := pending } := by
  have hstream : ∃ fs f, (∀ g ∈ fs, ∃ x n, g = Frame.windowUpdate x n) ∧
      (∀ s : Stream, f s = { s with
        recvUnreleased := (f s).recvUnreleased, recvWindow := (f s).recvWindow }) ∧
      c.releaseStream id = (c.updateStream id f).pushFrames fs := by
    have hnone : c = (c.updateStream id fun s => s).pushFrames [] := by
      rw [updateStream,StreamMap.update_id,pushFrames,List.append_nil,List.append_nil]
    unfold releaseStream
    split
    · split_ifs
      · exact ⟨_,_,by simp,fun s => rfl,rfl⟩
      · exact ⟨_,_,by simp,fun s => rfl,hnone⟩
    · exact ⟨_,_,by simp,fun s => rfl,hnone⟩
  obtain ⟨fs,f,hfs,hf,hstream⟩ := hstream
  unfold releaseData
  rw [hstream]
  unfold releaseConn
  simp only
  split_ifs
  · let inc := toIncrement (c.connPendingRelease+n)
    refine ⟨c.connRecvWindow.release inc,0,fs ++ [.windowUpdate 0 inc],f,?_,hf,?_⟩
    · intro g hg
      rcases List.mem_append.1 hg with hg | hg
      · exact hfs g hg
      · exact ⟨0,_,List.mem_singleton.1 hg⟩
    · simp only [pushFrame,pushFrames,List.append_assoc]
      rfl
  · exact ⟨c.connRecvWindow,c.connPendingRelease+n,fs,f,hfs,hf,rfl⟩

theorem maybeSchedule_shape (c : Conn) (id : ℕ) : ∃ scheduler scheduled,
    c.maybeSchedule id = { c with scheduler := scheduler, scheduled := scheduled } := by
  unfold maybeSchedule
  split_ifs
  · exact ⟨_,_,rfl⟩
  · exact ⟨_,_,rfl⟩
  split
  · split_ifs
    · exact ⟨_,_,rfl⟩
    · exact ⟨_,_,rfl⟩
  · exact ⟨_,_,rfl⟩

theorem reschedule_shape (c : Conn) (id : ℕ) : ∃ scheduler scheduled,
    c.reschedule id = { c with scheduler := scheduler, scheduled := scheduled } := by
  unfold reschedule
  split
  · exact ⟨_,_,rfl⟩
  · split_ifs
    · exact c.maybeSchedule_shape id
    · exact ⟨_,_,rfl⟩
    · exact ⟨_,_,rfl⟩

theorem emit_shape (c : Conn) (id : ℕ) (t : Taken) : ∃ fs encoder encoded,
    (t.trailers = none ∧ fs = [.data id t.payload t.endStream 0] ∨
      ∃ block, fs = headerFrames id block true c.peer.maxFrameSize) ∧
    c.emit id t =
      { (c.updateStream id (·.pay t.payload.length)).pushFrames fs with
        encoder := encoder
        sendQueue := c.sendQueue.insert id t.queue
        connSendWindow := c.connSendWindow.consume t.payload.length
        hist := { c.hist with queued := c.hist.queued ++ fs, encoded := encoded } } := by
  unfold emit
  cases ht : t.trailers with
  | none => exact ⟨_,c.encoder,c.hist.encoded,.inl ⟨rfl,rfl⟩,rfl⟩
  | some fields => exact ⟨_,_,_,.inr ⟨_,rfl⟩,rfl⟩

/-- A round does nothing for a stream that cannot send, and otherwise emits the front of
    its queue. -/
theorem serve_cases (c : Conn) (id : ℕ) :
    (c.serve id = c.unschedule id ∧
      ((∀ s, c.streams.get id = some s → c.sendable s = 0) ∨ c.queue id = [])) ∨
    ∃ s chunk rest, c.streams.get id = some s ∧ 0 < c.sendable s ∧ c.queue id = chunk :: rest ∧
      c.serve id = ({ c with scheduled := c.scheduled.erase id }.emit id
        (take (c.sendable s) chunk rest)).settle id s (take (c.sendable s) chunk rest).endStream := by
  unfold serve
  cases hs : c.streams.get id with
  | none => exact .inl ⟨rfl,.inl (by simp)⟩
  | some s =>
    by_cases hzero : c.sendable s = 0
    · refine .inl ⟨by simp only [hzero,if_true],.inl ?_⟩
      rintro s' ⟨⟩
      exact hzero
    cases hq : c.queue id with
    | nil => exact .inl ⟨by simp only [hzero,if_false],.inr rfl⟩
    | cons chunk rest =>
      exact .inr ⟨s,chunk,rest,rfl,Nat.pos_of_ne_zero hzero,rfl,
        by simp only [hzero,if_false]⟩

section
variable (c : Conn) (id x : ℕ)

@[simp] theorem get_closeStream :
    (c.closeStream id).streams.get x = if x = id then none else c.streams.get x := by
  obtain ⟨window,pending,fs,-,heq⟩ := c.closeStream_shape id
  rw [heq]
  exact StreamMap.get_remove _ _ _

@[simp] theorem queue_closeStream :
    (c.closeStream id).queue x = if x = id then [] else c.queue x := by
  obtain ⟨window,pending,fs,-,heq⟩ := c.closeStream_shape id
  rw [heq]
  change ((c.sendQueue.erase id)[x]?).getD [] = _
  rw [OrderedMap.get_erase]
  split_ifs <;> rfl

end

end Conn

end Courierust.H2
