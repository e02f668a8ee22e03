import Courierust.Quic.Ack
import Courierust.Quic.Packet

/-!
# The QUIC transport

Model of `QuicTransport` of the HTTP/3 runtime: packet-number spaces, packet keys and
key phases, flow-control counters, loss detection and retransmission.

Packet protection is ideal. A key is known by where it comes from and by how many key
updates it has been through, and a packet opens under a key exactly when it was sealed
with that key and its number is recovered. A packet is therefore kept as the fields of
its header with the plaintext. Times and durations are in nanoseconds; one call reads the
clock once, and what the socket answers is part of the call's environment.
-/

namespace Courierust.Quic

open Std (ExtTreeMap ExtTreeSet)

abbrev Varint.Value : Type := { v : ℕ // v ≤ Varint.MAX }

/-! ### Stream ids -/

namespace StreamId

/-- `stream_type`: the two low bits. -/
def streamType (id : ℕ) : ℕ := id &&& 0x3

def streamIndex (id : ℕ) : ℕ := id >>> 2

def isClientInitiated (id : ℕ) : Bool := streamType id = 0x0 || streamType id = 0x2

def isUnidirectional (id : ℕ) : Bool := streamType id = 0x2 || streamType id = 0x3

end StreamId

/-! ### Packet protection -/

inductive Level where
  | initial
  | handshake
  | application
  deriving DecidableEq

/-- Where a key comes from: a connection id and a direction, or a TLS traffic secret.
    The handshake and the application secrets are distinct by their labels. -/
inductive KeyRoot where
  | initial (dcid : List UInt8) (serverDirection : Bool)
  | handshake (secret : List UInt8)
  | application (secret : List UInt8)
  deriving DecidableEq

structure PacketKey where
  root : KeyRoot
  generation : ℕ
  deriving DecidableEq

def PacketKey.nextKeyPhase (key : PacketKey) : PacketKey :=
  { key with generation := key.generation + 1 }

def PacketKey.initial (dcid : List UInt8) (serverDirection : Bool) : Except Error PacketKey :=
  if dcid = [] ∨ 20 < dcid.length then
    .error (Error.protocol "QUIC Initial DCID must contain 1-20 bytes")
  else .ok ⟨.initial dcid serverDirection, 0⟩

/-- A sealed packet: the header fields the receiver reads, the key it was sealed with and
    the plaintext. `numberLen` octets of the number travel. -/
structure Packet where
  level : Level
  dcid : List UInt8
  scid : List UInt8
  key : PacketKey
  phase : Bool
  number : ℕ
  numberLen : ℕ
  payload : List UInt8
  deriving DecidableEq

/-- `open_packet_with_key`: the number, when the packet has the expected phase and was
    sealed under this key with the number recovered here. -/
def openPacketWithKey (p : Packet) (key : PacketKey) (expectedPn : ℕ)
    (expectedPhase : Option Bool) : Option ℕ :=
  if expectedPhase.all (· = p.phase) then
    let pn := decodePn (p.number % 256 ^ p.numberLen) expectedPn p.numberLen
    if p.key = key ∧ p.number = pn then some pn else none
  else none

/-! ### State -/

structure PacketSpace where
  nextSend : ℕ := 0
  largestReceived : Option ℕ := none
  largestAcked : Option ℕ := none
  largestSent : Option ℕ := none
  received : ExtTreeSet ℕ := ∅
  sent : SentMap := ∅
  ackPending : Bool := false
  ackDeadline : Option ℕ := none

structure QueuedStream where
  id : ℕ
  wire : List UInt8
  offset : ℕ

structure TransportParameters where
  maxUdpPayloadSize : Varint.Value
  initialMaxData : Varint.Value
  initialMaxStreamDataBidiLocal : Varint.Value
  initialMaxStreamDataBidiRemote : Varint.Value
  initialMaxStreamDataUni : Varint.Value
  initialMaxStreamsBidi : Varint.Value
  initialMaxStreamsUni : Varint.Value
  disableActiveMigration : Bool

inductive SendResult where
  | sent
  | wouldBlock
  | failed (msg : String)
  deriving DecidableEq

/-- What a call reads from its surroundings: the clock, the socket's answer for each
    packet, and the delays and thresholds that can be overridden. -/
structure Env where
  now : ℕ
  socket : Level → ℕ → SendResult := fun _ _ => .sent
  ackDelay : ℕ := 2_000_000
  minAckDelay : ℕ := 250_000
  keyUpdateThreshold : ℕ := 4096

/-- A packet handed to `send_wire`, with its frames and the socket's answer. -/
structure Handed where
  packet : Packet
  frames : List Frame
  result : SendResult

/-- What happened so far. The transport keeps no such record; nothing it computes reads it. -/
structure History where
  /-- the packets handed to `send_wire`, oldest first -/
  handed : List Handed := []
  /-- the packets taken as new since the spaces were last reset -/
  opened : List Packet := []
  /-- the packets taken as new before that -/
  earlier : List Packet := []
  /-- the ACK frames that were applied -/
  acks : List (Level × ℕ × List (ℕ × ℕ)) := []

abbrev Address := ℕ

/-- `QuicTransport`. -/
structure Transport where
  server : Bool
  peer : Option Address
  pendingPeer : Option Address
  pathChallenge : Option (Octets 8)
  pathChallengeSent : Option ℕ
  pathValidationRetries : ℕ
  peerDisableActiveMigration : Bool
  maxPacketSize : ℕ
  localCid : List UInt8
  remoteCid : List UInt8
  initialDcid : List UInt8
  initialToken : List UInt8
  retrySeen : Bool
  initialSend : PacketKey
  initialRecv : PacketKey
  handshakeSend : Option PacketKey
  handshakeRecv : Option PacketKey
  applicationSend : Option PacketKey
  applicationRecv : Option PacketKey
  applicationSendPhase : Bool
  applicationRecvPhase : Bool
  keyPhasePackets : ℕ
  sendUpdatePending : Bool
  spaces : Level → PacketSpace
  cryptoSendOffsets : Level → ℕ
  queuedStreams : List QueuedStream
  congestionWindow : ℕ
  slowStartThreshold : ℕ
  smoothedRtt : Option ℕ
  rttVariance : ℕ
  latestRtt : Option ℕ
  peerMaxData : ℕ
  peerMaxStreamDataBidiLocal : ℕ
  peerMaxStreamDataBidiRemote : ℕ
  peerMaxStreamDataUni : ℕ
  peerStreamLimits : ExtTreeMap ℕ ℕ
  sentData : ℕ
  sentStreamData : ExtTreeMap ℕ ℕ
  localMaxData : ℕ
  localMaxStreamDataBidiLocal : ℕ
  localMaxStreamDataBidiRemote : ℕ
  localMaxStreamDataUni : ℕ
  localStreamLimits : ExtTreeMap ℕ ℕ
  receivedData : ℕ
  receivedStreamData : ExtTreeMap ℕ ℕ
  peerMaxStreamsBidi : ℕ
  peerMaxStreamsUni : ℕ
  localMaxStreamsBidi : ℕ
  localMaxStreamsUni : ℕ
  receivedStreamsBidi : ℕ
  receivedStreamsUni : ℕ
  hist : History

def MAX_H3_CONNECTION_BUFFER : ℕ := 64 * 1024 * 1024
def MAX_DATAGRAM : ℕ := 65_527
def MIN_INITIAL_DATAGRAM : ℕ := 1200
def MAX_CRYPTO_CHUNK : ℕ := 1000
def MAX_PACKET_FRAMES : ℕ := 1024
def PACKET_THRESHOLD : ℕ := 3
def MAX_RETRANSMITS : ℕ := 8
def LOSS_TIMEOUT_FLOOR : ℕ := 50_000_000
def TIME_THRESHOLD_NUM : ℕ := 9
def TIME_THRESHOLD_DEN : ℕ := 8
def PATH_VALIDATION_TIMEOUT : ℕ := 300_000_000

def MAX_RECEIVED : ℕ := 8192

def STREAM_CHUNK : ℕ := 1000

/-- `ErrorKind::WouldBlock` without a text. -/
def wouldBlock : Error := Error.new .wouldBlock

def deferred : Except Error Unit → Except Error Unit
  | .error e => if e.kind = .wouldBlock then .ok () else .error e
  | .ok u => .ok u

def Frame.isAckEliciting : Frame → Bool
  | .ack .. | .padding _ | .connectionClose .. => false
  | _ => true

def Frame.isAck : Frame → Bool
  | .ack .. => true
  | _ => false

namespace Transport

/-- `QuicTransport::new`, with the initial congestion window. -/
def new (localCid remoteCid initialDcid : List UInt8) (server : Bool)
    (initialSend initialRecv : PacketKey) (congestionWindow : ℕ) : Transport where
  server := server
  peer := none
  pendingPeer := none
  pathChallenge := none
  pathChallengeSent := none
  pathValidationRetries := 0
  peerDisableActiveMigration := false
  maxPacketSize := 1200
  localCid := localCid
  remoteCid := remoteCid
  initialDcid := initialDcid
  initialToken := []
  retrySeen := false
  initialSend := initialSend
  initialRecv := initialRecv
  handshakeSend := none
  handshakeRecv := none
  applicationSend := none
  applicationRecv := none
  applicationSendPhase := false
  applicationRecvPhase := false
  keyPhasePackets := 0
  sendUpdatePending := false
  spaces := fun _ => {}
  cryptoSendOffsets := fun _ => 0
  queuedStreams := []
  congestionWindow := congestionWindow
  slowStartThreshold := u64Max
  smoothedRtt := none
  rttVariance := 0
  latestRtt := none
  peerMaxData := 16 * 1024 * 1024
  peerMaxStreamDataBidiLocal := 16 * 1024 * 1024
  peerMaxStreamDataBidiRemote := 16 * 1024 * 1024
  peerMaxStreamDataUni := 1024 * 1024
  peerStreamLimits := ∅
  sentData := 0
  sentStreamData := ∅
  localMaxData := MAX_H3_CONNECTION_BUFFER
  localMaxStreamDataBidiLocal := 16 * 1024 * 1024
  localMaxStreamDataBidiRemote := 16 * 1024 * 1024
  localMaxStreamDataUni := 1024 * 1024
  localStreamLimits := ∅
  receivedData := 0
  receivedStreamData := ∅
  peerMaxStreamsBidi := 1024
  peerMaxStreamsUni := 16
  localMaxStreamsBidi := 1024
  localMaxStreamsUni := 16
  receivedStreamsBidi := 0
  receivedStreamsUni := 0
  hist := {}

/-- `QuicTransport::client` and `QuicTransport::server`: the two ends seal with the key
    of their own direction. -/
def start (localCid remoteCid initialDcid : List UInt8) (server : Bool)
    (congestionWindow : ℕ) : Except Error Transport := do
  let sendKey ← PacketKey.initial initialDcid server
  let recvKey ← PacketKey.initial initialDcid !server
  return new localCid remoteCid initialDcid server sendKey recvKey congestionWindow

variable (t : Transport) (env : Env)

def modifySpace (level : Level) (f : PacketSpace → PacketSpace) : Transport :=
  { t with spaces := Function.update t.spaces level (f (t.spaces level)) }

/-! ### Setting up -/

/-- `set_handshake_keys`, from the two secrets. -/
def setHandshakeKeys (recv send : List UInt8) : Transport :=
  { t with handshakeRecv := some ⟨.handshake recv, 0⟩, handshakeSend := some ⟨.handshake send, 0⟩ }

/-- `set_application_keys`, from the two secrets. -/
def setApplicationKeys (recv send : List UInt8) : Transport :=
  { t with
    applicationRecv := some ⟨.application recv, 0⟩
    applicationSend := some ⟨.application send, 0⟩
    applicationSendPhase := false
    applicationRecvPhase := false
    sendUpdatePending := false }

def setPeerTransport (parameters : TransportParameters) : Transport :=
  { t with
    peerMaxData := parameters.initialMaxData
    peerMaxStreamDataBidiLocal := parameters.initialMaxStreamDataBidiLocal
    peerMaxStreamDataBidiRemote := parameters.initialMaxStreamDataBidiRemote
    peerMaxStreamDataUni := parameters.initialMaxStreamDataUni
    peerMaxStreamsBidi := parameters.initialMaxStreamsBidi
    peerMaxStreamsUni := parameters.initialMaxStreamsUni
    peerDisableActiveMigration := parameters.disableActiveMigration
    maxPacketSize := max 1200 (min parameters.maxUdpPayloadSize MAX_DATAGRAM) }

def setLocalTransport (parameters : TransportParameters) : Transport :=
  { t with
    localMaxData := parameters.initialMaxData
    localMaxStreamDataBidiLocal := parameters.initialMaxStreamDataBidiLocal
    localMaxStreamDataBidiRemote := parameters.initialMaxStreamDataBidiRemote
    localMaxStreamDataUni := parameters.initialMaxStreamDataUni
    localMaxStreamsBidi := parameters.initialMaxStreamsBidi
    localMaxStreamsUni := parameters.initialMaxStreamsUni }

/-- The state after a Retry was accepted: the Initial keys of the new connection id, and
    everything else as before the first packet. -/
def restart (retryDcid token : List UInt8) (clientInitial serverInitial : PacketKey) : Transport :=
  { t with
    initialDcid := retryDcid
    remoteCid := retryDcid
    initialSend := clientInitial
    initialRecv := serverInitial
    initialToken := token
    retrySeen := true
    spaces := fun _ => {}
    cryptoSendOffsets := fun _ => 0
    handshakeSend := none
    handshakeRecv := none
    applicationSend := none
    applicationRecv := none
    applicationSendPhase := false
    applicationRecvPhase := false
    keyPhasePackets := 0
    sendUpdatePending := false
    sentData := 0
    sentStreamData := ∅
    peerStreamLimits := ∅
    localStreamLimits := ∅
    receivedData := 0
    receivedStreamData := ∅
    latestRtt := none
    smoothedRtt := none
    rttVariance := 0
    hist := { t.hist with opened := [], earlier := t.hist.earlier ++ t.hist.opened } }

/-- `apply_retry`: `false` means that the Retry is discarded. -/
def applyRetry (retryDcid token : List UInt8) : Bool × Transport :=
  if t.server ∨ t.retrySeen then (false, t)
  else if retryDcid = [] ∨ 20 < retryDcid.length ∨ token = [] then (false, t)
  else
    match PacketKey.initial retryDcid false, PacketKey.initial retryDcid true with
    | .ok clientInitial, .ok serverInitial =>
      (true, t.restart retryDcid token clientInitial serverInitial)
    | _, _ => (false, t)

/-- The Retry branch of `on_datagram`: once the server's hello has brought the handshake
    keys, a Retry is discarded. -/
def onRetry (retryDcid token : List UInt8) : Transport :=
  if t.handshakeSend.isSome ∨ t.applicationSend.isSome then t
  else (t.applyRetry retryDcid token).2

/-! ### Flow control -/

/-- The peer's transport parameter for `id`, by direction. -/
def peerStreamDefault (id : ℕ) : ℕ :=
  if StreamId.isUnidirectional id then t.peerMaxStreamDataUni
  else if StreamId.isClientInitiated id ≠ t.server then t.peerMaxStreamDataBidiRemote
  else t.peerMaxStreamDataBidiLocal

def peerStreamSendLimit (id : ℕ) : ℕ := (t.peerStreamLimits[id]?).getD (t.peerStreamDefault id)

/-- Our own transport parameter for `id`, by direction. -/
def localStreamDefault (id : ℕ) : ℕ :=
  if StreamId.isUnidirectional id then t.localMaxStreamDataUni
  else if StreamId.isClientInitiated id ≠ t.server then t.localMaxStreamDataBidiLocal
  else t.localMaxStreamDataBidiRemote

/-- The limit advertised for `id`. -/
def localStreamLimit (id : ℕ) : ℕ := (t.localStreamLimits[id]?).getD (t.localStreamDefault id)

/-- The count check of `accept_stream_data` for a stream the peer opens. -/
def acceptStreamId (id : ℕ) : Except Error Transport :=
  if StreamId.isClientInitiated id = t.server then
    let index := StreamId.streamIndex id
    if StreamId.isUnidirectional id then
      if t.localMaxStreamsUni ≤ index then
        .error (Error.protocol "QUIC peer stream limit exceeded")
      else .ok { t with receivedStreamsUni := max t.receivedStreamsUni (index + 1) }
    else
      if t.localMaxStreamsBidi ≤ index then
        .error (Error.protocol "QUIC peer stream limit exceeded")
      else .ok { t with receivedStreamsBidi := max t.receivedStreamsBidi (index + 1) }
  else .ok t

def acceptRange (id offset length : ℕ) : Except Error Transport :=
  match checkedAdd offset length with
  | none => .error (Error.protocol "QUIC stream receive offset overflow")
  | some stop =>
    if t.localStreamLimit id < stop then
      .error (Error.protocol "QUIC local stream flow-control limit exceeded")
    else
      let previous := (t.receivedStreamData[id]?).getD 0
      let newlyReceived := stop - previous
      if t.localMaxData < satAdd t.receivedData newlyReceived then
        .error (Error.protocol "QUIC local connection flow-control limit exceeded")
      else
        .ok { t with
          receivedData := satAdd t.receivedData newlyReceived
          receivedStreamData := t.receivedStreamData.insert id (max previous stop) }

/-- `accept_stream_data`. The stream count stays raised when the range is refused. -/
def acceptStreamData (id offset length : ℕ) : Except Error Unit × Transport :=
  if length = 0 then (.ok (), t)
  else
    match t.acceptStreamId id with
    | .error e => (.error e, t)
    | .ok t =>
      match t.acceptRange id offset length with
      | .error e => (.error e, t)
      | .ok t => (.ok (), t)

/-- The part of `send_stream_chunk` before the frame is built: the range is counted
    against the peer's two limits, or has to wait. -/
def charge (id offset length : ℕ) : Except Error Transport :=
  match checkedAdd offset length with
  | none => .error (Error.protocol "QUIC stream send offset overflow")
  | some stop =>
    if t.peerStreamSendLimit id < stop then .error wouldBlock
    else
      let previous := (t.sentStreamData[id]?).getD 0
      let newlySent := stop - previous
      if t.peerMaxData < satAdd t.sentData newlySent then .error wouldBlock
      else
        .ok { t with
          sentData := satAdd t.sentData newlySent
          sentStreamData := t.sentStreamData.insert id (max previous stop) }

/-! ### Timers -/

def currentAckDelay : ℕ :=
  match t.smoothedRtt with
  | none => env.ackDelay
  | some smoothed => max env.minAckDelay (min (smoothed * 2) env.ackDelay)

def timerRtt : ℕ := (t.smoothedRtt.or t.latestRtt).getD 100_000_000

def lossDetectionThreshold : ℕ :=
  max (t.timerRtt * TIME_THRESHOLD_NUM / TIME_THRESHOLD_DEN + env.ackDelay) LOSS_TIMEOUT_FLOOR

def ptoTimeout : ℕ :=
  match t.smoothedRtt with
  | none => 1_000_000_000
  | some smoothed =>
    max (smoothed + max (t.rttVariance * 4) 1_000_000 + env.ackDelay) LOSS_TIMEOUT_FLOOR

def onLoss : Transport :=
  let window := max (t.congestionWindow / 2) 2400
  { t with congestionWindow := window, slowStartThreshold := window }

/-- The test of `detect_lost_packets` for one packet in flight. -/
def declaredLost (level : Level) (pn : ℕ) (packet : SentPacket) : Bool :=
  let age := env.now - packet.sentAt
  let overTime := t.lossDetectionThreshold env ≤ age
  let reorderWindow := max (t.timerRtt / 8) 1_000_000
  let overPacket :=
    (t.spaces level).largestAcked.any (fun la => PACKET_THRESHOLD ≤ la - pn && pn < la) &&
      reorderWindow ≤ age
  packet.ackEliciting && !packet.pendingResend && (overTime || overPacket)

def detectLostPackets (level : Level) : Transport :=
  let lost := (t.spaces level).sent.toList.filter fun p => t.declaredLost env level p.1 p.2
  if lost = [] then t
  else
    (t.modifySpace level fun s =>
      { s with sent := lost.foldl (fun m p => m.erase p.1) s.sent }).onLoss

/-- The round-trip estimate of `on_acknowledgement`. -/
def sampleRtt : Option ℕ → Transport
  | none => t
  | some sample =>
    match t.smoothedRtt with
    | none => { t with latestRtt := some sample, smoothedRtt := some sample,
                       rttVariance := sample / 2 }
    | some smoothed =>
      let difference := if sample ≤ smoothed then smoothed - sample else sample - smoothed
      { t with
        latestRtt := some sample
        rttVariance := (t.rttVariance * 3 + difference) / 4
        smoothedRtt := some ((smoothed * 7 + sample) / 8) }

/-- The congestion window of `on_acknowledgement`. -/
def growWindow (bytes : ℕ) : Transport :=
  let increment :=
    if t.congestionWindow < t.slowStartThreshold then bytes
    else max (satMul 1200 bytes / max t.congestionWindow 1) 1
  { t with congestionWindow := min (satAdd t.congestionWindow increment) (16 * 1024 * 1024) }

def onAcknowledgement (bytes : ℕ) (sample : Option ℕ) (level : Level) : Transport :=
  ((t.sampleRtt sample).growWindow bytes).detectLostPackets env level

/-! ### Sending -/

def unacknowledgedBytes : ℕ :=
  [Level.initial, .handshake, .application].foldl (fun n level =>
    (t.spaces level).sent.toList.foldl (fun n p => satAdd n p.2.size) n) 0

def dueAck (level : Level) (frames : List Frame) : Bool :=
  !frames.any Frame.isAck && (t.spaces level).ackPending &&
    (t.spaces level).ackDeadline.all (· ≤ env.now)

/-- The frames to send, with the ACK that is due in front, and the state in which it is
    no longer pending. -/
def piggyback (level : Level) (frames : List Frame) : List Frame × Transport :=
  match t.dueAck env level frames, (t.spaces level).largestReceived with
  | true, some largest =>
    (ackFrame (t.spaces level).received largest :: frames,
      t.modifySpace level fun s => { s with ackPending := false, ackDeadline := none })
  | _, _ => (frames, t)

def sendKey : Level → Except Error PacketKey
  | .initial => .ok t.initialSend
  | .handshake =>
    match t.handshakeSend with
    | some key => .ok key
    | none => .error (Error.protocol "QUIC handshake send key is unavailable")
  | .application =>
    match t.applicationSend with
    | some key => .ok key
    | none => .error (Error.protocol "QUIC application send key is unavailable")

def takeNumber (level : Level) : Transport :=
  t.modifySpace level fun s =>
    { s with
      nextSend := s.nextSend + 1
      largestSent := some (s.largestSent.elim s.nextSend (max · s.nextSend)) }

/-- The length of the header in front of `payloadLen` octets of plaintext. -/
def headerLen (level : Level) (payloadLen : ℕ) : ℕ :=
  let token := if t.server then [] else t.initialToken
  match level with
  | .initial =>
    7 + t.remoteCid.length + t.localCid.length + (Varint.encode token.length).length
      + token.length + (Varint.encode (4 + payloadLen + 16)).length + 4
  | .handshake =>
    7 + t.remoteCid.length + t.localCid.length + (Varint.encode (4 + payloadLen + 16)).length + 4
  | .application => 1 + t.remoteCid.length + 4

def wireLen (level : Level) (payloadLen : ℕ) : ℕ := t.headerLen level payloadLen + payloadLen + 16

/-- The plaintext of a packet: the frames, at least four octets, and the padding of an
    Initial. -/
def plaintext (level : Level) (frames : List Frame) (padInitial : Bool) : List UInt8 :=
  let encoded := frames.flatMap Frame.encode
  let encoded := encoded ++ List.replicate (4 - encoded.length) 0
  let wire := t.wireLen level encoded.length
  if padInitial ∧ wire < MIN_INITIAL_DATAGRAM then
    encoded ++ List.replicate (MIN_INITIAL_DATAGRAM - wire) 0
  else encoded

def headerFits (level : Level) : Bool :=
  t.remoteCid.length ≤ 20 && (level = .application || t.localCid.length ≤ 20)

/-- The packet that carries the frames under the number `pn`. -/
def sealPacket (level : Level) (key : PacketKey) (pn : ℕ) (frames : List Frame) (padInitial : Bool) :
    Packet where
  level := level
  dcid := t.remoteCid
  scid := if level = .application then [] else t.localCid
  key := key
  phase := level = .application && t.applicationSendPhase
  number := pn
  numberLen := 4
  payload := t.plaintext level frames padInitial

def congested (frames : List Frame) (wire : ℕ) : Bool :=
  frames.any Frame.isAckEliciting && t.congestionWindow < satAdd t.unacknowledgedBytes wire

def handWire (packet : Packet) (frames : List Frame) : Transport :=
  { t with hist := { t.hist with
      handed := t.hist.handed ++ [⟨packet, frames, env.socket packet.level packet.number⟩] } }

def recordSent (level : Level) (pn wire : ℕ) (frames : List Frame) (padInitial : Bool)
    (retransmits : ℕ) : Transport :=
  let packet : SentPacket := ⟨frames, padInitial, env.now, retransmits, true, wire, false⟩
  let packets := if level = .application then satAdd t.keyPhasePackets 1 else t.keyPhasePackets
  modifySpace { t with keyPhasePackets := packets } level fun s =>
    if frames.any Frame.isAckEliciting then { s with sent := s.sent.insert pn packet } else s

/-- The datagram reaches the socket: `send_wire`, and the record of what went out. -/
def transmit (level : Level) (key : PacketKey) (pn : ℕ) (frames : List Frame)
    (padInitial : Bool) (retransmits : ℕ) : Except Error Unit × Transport :=
  let packet := t.sealPacket level key pn frames padInitial
  let wire := t.wireLen level packet.payload.length
  let t := t.handWire env packet frames
  match env.socket level pn with
  | .sent => (.ok (), t.recordSent env level pn wire frames padInitial retransmits)
  | .wouldBlock => (.error wouldBlock, t)
  | .failed msg => (.error (Error.io msg), t)

/-- The part of `send_frames_inner` after a number was taken. -/
def sendNumbered (level : Level) (key : PacketKey) (pn : ℕ) (due : Bool) (frames : List Frame)
    (padInitial : Bool) (retransmits : ℕ) : Except Error Unit × Transport :=
  let wire := t.wireLen level (t.plaintext level frames padInitial).length
  if ¬ t.headerFits level then
    (.error (Error.protocol "QUIC connection ID must be at most 20 bytes"), t)
  else if t.maxPacketSize < wire then
    (.error (Error.protocol "QUIC packet exceeds the peer's max_udp_payload_size"), t)
  else if t.congested frames wire then
    (.error wouldBlock,
      if due then
        t.modifySpace level fun s => { s with ackPending := true, ackDeadline := some env.now }
      else t)
  else t.transmit env level key pn frames padInitial retransmits

/-- `send_frames_inner`. The number is used up whether or not the packet goes out. -/
def sendFramesInner (level : Level) (frames : List Frame) (padInitial : Bool)
    (retransmits : ℕ) : Except Error Unit × Transport :=
  let due := t.dueAck env level frames
  let (frames, t) := t.piggyback env level frames
  match t.sendKey level with
  | .error e => (.error e, t)
  | .ok key =>
    let pn := (t.spaces level).nextSend
    if u64Max < pn + 1 then (.error (Error.protocol "QUIC packet number exhausted"), t)
    else (t.takeNumber level).sendNumbered env level key pn due frames padInitial retransmits

def sendFrames (level : Level) (frames : List Frame) (padInitial : Bool) :
    Except Error Unit × Transport :=
  t.sendFramesInner env level frames padInitial 0

/-! ### CRYPTO and STREAM data -/

/-- The loop of `send_crypto` over the octets that were not sent yet. -/
def sendCryptoFrom (level : Level) (t : Transport) (rest : List UInt8) :
    Except Error Unit × Transport :=
  if _h : rest = [] then (.ok (), t)
  else
    let offset := t.cryptoSendOffsets level
    let chunk := rest.take MAX_CRYPTO_CHUNK
    match t.sendFrames env level [.crypto offset chunk] (level = .initial) with
    | (.error e, t) => (deferred (.error e), t)
    | (.ok (), t) =>
      match checkedAdd offset chunk.length with
      | none => (.error (Error.protocol "QUIC CRYPTO send offset overflow"), t)
      | some next =>
        sendCryptoFrom level
          { t with cryptoSendOffsets := Function.update t.cryptoSendOffsets level next }
          (rest.drop MAX_CRYPTO_CHUNK)
termination_by rest.length
decreasing_by
  have hpos : 0 < rest.length := List.length_pos_of_ne_nil _h
  simp only [List.length_drop, MAX_CRYPTO_CHUNK]
  omega

def sendCrypto (level : Level) (bytes : List UInt8) : Except Error Unit × Transport :=
  if level = .application then
    (.error (Error.protocol "CRYPTO is only valid in Initial or Handshake space"), t)
  else sendCryptoFrom env level t (bytes.drop (t.cryptoSendOffsets level))

def sendStreamChunk (level : Level) (id offset : ℕ) (bytes : List UInt8) (fin : Bool) :
    Except Error Unit × Transport :=
  let charged := if level = .application ∧ bytes ≠ [] then t.charge id offset bytes.length
    else .ok t
  match charged with
  | .error e => (.error e, t)
  | .ok t =>
    t.sendFrames env level
      [.stream id (if offset = 0 then none else some offset) bytes (some bytes.length) fin] false

/-- `send_stream`: always from offset 0. -/
def sendStream (level : Level) (id : ℕ) (bytes : List UInt8) (fin : Bool) :
    Except Error Unit × Transport :=
  t.sendStreamChunk env level id 0 bytes fin

/-- `send_stream_append`: at the position the counter stands at. -/
def sendStreamAppend (level : Level) (id : ℕ) (bytes : List UInt8) :
    Except Error Unit × Transport :=
  if bytes = [] then (.ok (), t)
  else t.sendStreamChunk env level id ((t.sentStreamData[id]?).getD 0) bytes false

def queueStreamWire (id : ℕ) (wire : List UInt8) : Except Error Unit × Transport :=
  if 32 * 1024 * 1024 < wire.length then
    (.error (Error.protocol "HTTP/3 response stream exceeds queue limit"), t)
  else
    let queued := t.queuedStreams.foldl (fun n s => satAdd n (s.wire.length - s.offset)) 0
    if MAX_H3_CONNECTION_BUFFER < satAdd queued wire.length then
      (.error (Error.protocol "HTTP/3 response queue limit exceeded"), t)
    else (.ok (), { t with queuedStreams := t.queuedStreams ++ [⟨id, wire, 0⟩] })

/-- The loop that sends a body in chunks, in `flush_queued_streams` and in
    `send_request_chunks`: how far it got. -/
def sendChunks (id : ℕ) (wire : List UInt8) (t : Transport) (offset : ℕ) :
    Except Error Unit × ℕ × Transport :=
  if _h : offset < wire.length then
    let stop := offset + min (wire.length - offset) STREAM_CHUNK
    match t.sendStreamChunk env .application id offset ((wire.drop offset).take STREAM_CHUNK)
        (stop = wire.length) with
    | (.error e, t) => (.error e, offset, t)
    | (.ok (), t) => sendChunks id wire t stop
  else (.ok (), offset, t)
termination_by wire.length - offset
decreasing_by
  simp only [STREAM_CHUNK]
  omega

def flushQueued (q : QueuedStream) : Except Error Unit × QueuedStream × Transport :=
  if q.wire = [] then
    let (result, t) := t.sendStreamChunk env .application q.id 0 [] true
    (result, q, t)
  else
    let (result, offset, t) := sendChunks env q.id q.wire t q.offset
    (result, { q with offset := offset }, t)

/-- The loop of `flush_queued_streams`. -/
def flushQueuedFrom (t : Transport) : List QueuedStream → Except Error Unit × Transport
  | [] => (.ok (), { t with queuedStreams := [] })
  | q :: rest =>
    match t.flushQueued env q with
    | (.ok (), _, t) => flushQueuedFrom t rest
    | (.error e, q, t) =>
      if e.kind = .wouldBlock then (.ok (), { t with queuedStreams := q :: rest })
      else (.error e, { t with queuedStreams := rest })

def flushQueuedStreams : Except Error Unit × Transport :=
  flushQueuedFrom env t t.queuedStreams

/-- `send_request_chunks`, with the offset the request has reached. -/
def sendRequestChunks (id : ℕ) (wire : List UInt8) (offset : ℕ) :
    Except Error Unit × ℕ × Transport :=
  match sendChunks env id wire t offset with
  | (.error e, offset, t) => (deferred (.error e), offset, t)
  | (.ok (), offset, t) =>
    if wire = [] then
      let (result, t) := t.sendStreamChunk env .application id 0 [] true
      (result, offset, t)
    else (.ok (), offset, t)

/-! ### ACKs, windows and signals -/

def flushAck (level : Level) : Except Error Unit × Transport :=
  if ¬ (t.spaces level).ackPending then (.ok (), t)
  else if (t.spaces level).ackDeadline.any (env.now < ·) then (.ok (), t)
  else
    match (t.spaces level).largestReceived with
    | none => (.ok (), t)
    | some largest =>
      match t.sendFrames env level [ackFrame (t.spaces level).received largest] false with
      | (.ok (), t) =>
        (.ok (), t.modifySpace level fun s => { s with ackPending := false, ackDeadline := none })
      | (.error e, t) => (deferred (.error e), t)

def andThen (r : Except Error Unit × Transport)
    (next : Transport → Except Error Unit × Transport) : Except Error Unit × Transport :=
  match r with
  | (.ok (), t) => next t
  | (.error e, t) => (.error e, t)

def flushAcks : Except Error Unit × Transport :=
  andThen (andThen (t.flushAck env .initial) (flushAck · env .handshake))
    (flushAck · env .application)

def sendDeferred (frame : Frame) : Except Error Unit × Transport :=
  let (result, t) := t.sendFrames env .application [frame] false
  (deferred result, t)

def replenishConnectionWindow : Except Error Unit × Transport :=
  if t.localMaxData / 2 < t.localMaxData - t.receivedData then (.ok (), t)
  else
    let newLimit := min (satAdd t.receivedData t.localMaxData) Varint.MAX
    if newLimit ≤ t.localMaxData then (.ok (), t)
    else sendDeferred { t with localMaxData := newLimit } env (.maxData newLimit)

def streamWindowUpdates : List (ℕ × ℕ) :=
  (t.receivedStreamData.toList.filter fun p =>
      t.localStreamDefault p.1 - p.2 ≤ t.localStreamDefault p.1 / 2).map fun p =>
    (p.1, min (satAdd p.2 (t.localStreamDefault p.1)) Varint.MAX)

/-- One update of `replenish_stream_windows`. -/
def raiseStreamLimit (update : ℕ × ℕ) : Except Error Unit × Transport :=
  let advertised := (t.localStreamLimits[update.1]?).getD 0
  if update.2 ≤ advertised then
    (.ok (), { t with localStreamLimits := t.localStreamLimits.insert update.1 advertised })
  else
    sendDeferred { t with localStreamLimits := t.localStreamLimits.insert update.1 update.2 } env
      (.maxStreamData update.1 update.2)

def replenishStreamWindows : Except Error Unit × Transport :=
  t.streamWindowUpdates.foldl (fun r update => andThen r (raiseStreamLimit · env update))
    (.ok (), t)

def streamCountUpdate (limit received : ℕ) : Option ℕ :=
  if limit - received ≤ limit / 2 then
    let newLimit := min (satAdd received limit) Varint.MAX
    if limit < newLimit then some newLimit else none
  else none

/-- One update of `replenish_stream_limits`. -/
def raiseStreamCount (unidirectional : Bool) : Option ℕ → Except Error Unit × Transport
  | none => (.ok (), t)
  | some limit =>
    let t := if unidirectional then { t with localMaxStreamsUni := limit }
      else { t with localMaxStreamsBidi := limit }
    t.sendDeferred env (.maxStreams unidirectional limit)

/-- `replenish_stream_limits`. Each kind is updated once, so the source's second
    comparison with the limit always passes. -/
def replenishStreamLimits : Except Error Unit × Transport :=
  let bidi := streamCountUpdate t.localMaxStreamsBidi t.receivedStreamsBidi
  let uni := streamCountUpdate t.localMaxStreamsUni t.receivedStreamsUni
  andThen (t.raiseStreamCount env false bidi) (raiseStreamCount · env true uni)

/-- One signal of `send_stream_signals`. -/
def sendStreamSignal (id code : ℕ) (resetFinalSize : Option ℕ) : Except Error Unit × Transport :=
  t.sendFrames env .application
    ((resetFinalSize.map (Frame.resetStream id code)).toList ++ [.stopSending id code]) false

def sendConnectionClose (errorCode : ℕ) (frameType : Option ℕ) (reason : List UInt8) :
    Except Error Unit × Transport :=
  let level : Level := if t.applicationSend.isSome then .application
    else if t.handshakeSend.isSome then .handshake else .initial
  t.sendFrames env level [.connectionClose errorCode frameType (reason.take 256)]
    (level = .initial)

/-- `initiate_path_validation`, with the token that was drawn. -/
def initiatePathValidation (candidate : Address) (token : Octets 8) :
    Except Error Unit × Transport :=
  if t.peerDisableActiveMigration ∧ ¬ t.server then (.ok (), t)
  else
    sendFrames { t with
      pendingPeer := some candidate
      pathChallenge := some token
      pathChallengeSent := some env.now } env .application [.pathChallenge token] false

def handlePathChallenge (token : Octets 8) : Transport :=
  (t.sendFrames env .application [.pathResponse token] false).2

def handlePathResponse (token : Octets 8) (source : Address) : Transport :=
  if t.pendingPeer ≠ some source ∨ t.pathChallenge ≠ some token then t
  else
    { t with
      peer := some source
      pendingPeer := none
      pathChallenge := none
      pathChallengeSent := none }

def checkPathValidationTimeout : Except Error Unit × Transport :=
  match t.pathChallengeSent with
  | none => (.ok (), t)
  | some sent =>
    if env.now - sent < PATH_VALIDATION_TIMEOUT then (.ok (), t)
    else
      match t.pendingPeer, t.pathChallenge with
      | none, _ => (.ok (), { t with pathChallengeSent := none })
      | some _, none => (.ok (), t)
      | some _, some token =>
        if t.pathValidationRetries < 1 then
          sendFrames { t with
            pathValidationRetries := t.pathValidationRetries + 1
            pathChallengeSent := some env.now } env .application [.pathChallenge token] false
        else
          (.ok (), { t with
            pendingPeer := none
            pathChallenge := none
            pathChallengeSent := none
            pathValidationRetries := 0 })

/-! ### Key updates -/

def maybeKeyUpdate : Transport :=
  if t.sendUpdatePending ∨ t.keyPhasePackets < env.keyUpdateThreshold then t
  else
    match t.applicationSend with
    | none => t
    | some key =>
      { t with
        applicationSend := some key.nextKeyPhase
        applicationSendPhase := !t.applicationSendPhase
        keyPhasePackets := 0
        sendUpdatePending := true }

def mirrorSendKey : Transport :=
  if t.applicationSendPhase = t.applicationRecvPhase then t
  else
    match t.applicationSend with
    | none => t
    | some key =>
      { t with
        applicationSend := some key.nextKeyPhase
        applicationSendPhase := t.applicationRecvPhase }

/-- The branch of `open` for a packet of the peer's next phase. -/
def followKeyPhase : Transport :=
  let t := mirrorSendKey { t with
    applicationRecv := t.applicationRecv.map PacketKey.nextKeyPhase
    applicationRecvPhase := !t.applicationRecvPhase }
  { t with
    sendUpdatePending :=
      if t.applicationSendPhase = t.applicationRecvPhase then false else t.sendUpdatePending
    keyPhasePackets := 0 }

/-! ### Receiving -/

def receiveKey : Level → Option PacketKey
  | .initial => some t.initialRecv
  | .handshake => t.handshakeRecv
  | .application => t.applicationRecv

def addressed (p : Packet) : Bool :=
  match p.level with
  | .initial => !t.server || p.dcid = t.initialDcid || p.dcid = t.localCid
  | _ => p.dcid = t.localCid

/-- The first half of `open`: the number, and whether the next key phase opened the packet. -/
def unprotect (p : Packet) : Option (ℕ × Bool) :=
  match t.receiveKey p.level with
  | none => none
  | some key =>
    if t.addressed p then
      let expected := ((t.spaces p.level).largestReceived.map (satAdd · 1)).getD 0
      let phase := if p.level = .application then some t.applicationRecvPhase else none
      match openPacketWithKey p key expected phase with
      | some pn => some (pn, false)
      | none =>
        if p.level = .application then
          (openPacketWithKey p key.nextKeyPhase expected (some !t.applicationRecvPhase)).map
            fun pn => (pn, true)
        else none
    else none

/-- The numbers a space remembers after `pn`: the smallest is dropped beyond the bound. -/
def remember (received : ExtTreeSet ℕ) (pn : ℕ) : ExtTreeSet ℕ :=
  let received := received.insert pn
  if MAX_RECEIVED < received.size then
    match received.min? with
    | some first => received.erase first
    | none => received
  else received

/-- A packet with a new number is recorded. A client learns the server's connection id
    from its Initial packets. -/
def recordPacket (p : Packet) (pn : ℕ) : Transport :=
  let space := t.spaces p.level
  { t with
    spaces := Function.update t.spaces p.level { space with
      received := remember space.received pn
      largestReceived :=
        if space.largestReceived.all (· < pn) then some pn else space.largestReceived }
    remoteCid := if ¬ t.server ∧ p.level = .initial ∧ p.scid ≠ [] then p.scid else t.remoteCid
    hist := { t.hist with opened := t.hist.opened ++ [p] } }

/-- `decode_quic_frames` after `count` frames. -/
def decodeQuicFramesFrom (count : ℕ) (buf : List UInt8) : Except Error (List Frame) :=
  if _h : buf = [] then .ok []
  else if MAX_PACKET_FRAMES ≤ count then
    .error (Error.protocol "too many QUIC frames in one packet")
  else
    match Frame.decode buf with
    | .error e => .error e
    | .ok (frame, used) =>
      if _hused : used = 0 ∨ buf.length < used then
        .error (Error.protocol "QUIC frame decoder made no progress")
      else
        match decodeQuicFramesFrom (count + 1) (buf.drop used) with
        | .error e => .error e
        | .ok frames => .ok (frame :: frames)
termination_by buf.length
decreasing_by
  simp only [List.length_drop]
  omega

def decodeQuicFrames (buf : List UInt8) : Except Error (List Frame) :=
  if buf = [] then .error (Error.protocol "QUIC packet contains no frames")
  else decodeQuicFramesFrom 0 buf

/-- The accumulators of the frame loop of `open`. -/
structure FrameLoop where
  transport : Transport
  acknowledgedBytes : ℕ := 0
  rttSample : Option ℕ := none

/-- An ACK frame in the loop. The largest acknowledged number is raised before the frame
    is checked. -/
def FrameLoop.ack (l : FrameLoop) (now : ℕ) (level : Level) (largest : ℕ)
    (ranges : List (ℕ × ℕ)) : Except Error Unit × FrameLoop :=
  let space := l.transport.spaces level
  let (result, sent) := acknowledge space.sent space.largestSent largest ranges now
  let t := l.transport.modifySpace level fun s =>
    { s with largestAcked := some (s.largestAcked.elim largest (max · largest)), sent := sent }
  match result with
  | .error e => (.error e, { l with transport := t })
  | .ok (bytes, sample) =>
    (.ok (),
      { transport := { t with hist := { t.hist with
          acks := t.hist.acks ++ [(level, largest, ranges)] } }
        acknowledgedBytes := satAdd l.acknowledgedBytes bytes
        rttSample := l.rttSample.or sample })

/-- One frame in the loop of `open`. -/
def FrameLoop.apply (l : FrameLoop) (now : ℕ) (level : Level) :
    Frame → Except Error Unit × FrameLoop
  | .ack largest _ ranges _ => l.ack now level largest ranges
  | .maxData limit =>
    (.ok (), { l with transport :=
      { l.transport with peerMaxData := max l.transport.peerMaxData limit } })
  | .maxStreams unidirectional limit =>
    if 2 ^ 60 < limit then (.error (Error.protocol "MAX_STREAMS exceeds the stream id space"), l)
    else if unidirectional then
      (.ok (), { l with transport :=
        { l.transport with peerMaxStreamsUni := max l.transport.peerMaxStreamsUni limit } })
    else
      (.ok (), { l with transport :=
        { l.transport with peerMaxStreamsBidi := max l.transport.peerMaxStreamsBidi limit } })
  | .maxStreamData id limit =>
    let raised := max (l.transport.peerStreamSendLimit id) limit
    (.ok (), { l with transport :=
      { l.transport with peerStreamLimits := l.transport.peerStreamLimits.insert id raised } })
  | _ => (.ok (), l)

/-- The loop of `open` over the frames. -/
def FrameLoop.applyAll (now : ℕ) (level : Level) :
    List Frame → FrameLoop → Except Error Unit × FrameLoop
  | [], l => (.ok (), l)
  | frame :: frames, l =>
    match l.apply now level frame with
    | (.error e, l) => (.error e, l)
    | (.ok (), l) => applyAll now level frames l

def scheduleAck (level : Level) : Transport :=
  t.modifySpace level fun s =>
    if ¬ s.ackPending then { s with ackPending := true, ackDeadline := none }
    else
      match s.ackDeadline with
      | some deadline =>
        if env.now < deadline then
          { s with ackDeadline := some (env.now + t.currentAckDelay env) }
        else s
      | none => s

/-- What `open` returns for a packet: its space, number and frames. -/
structure Opened where
  level : Level
  number : ℕ
  frames : List Frame
  deriving DecidableEq

def openAgain (level : Level) (pn : ℕ) : Except Error (Option Opened) × Transport :=
  (.ok (some ⟨level, pn, []⟩),
    t.modifySpace level fun s =>
      { s with ackPending := true, ackDeadline := some (env.now + t.currentAckDelay env) })

def applyFrames (level : Level) (frames : List Frame) : Except Error Unit × Transport :=
  match FrameLoop.applyAll env.now level frames { transport := t } with
  | (.error e, l) => (.error e, l.transport)
  | (.ok (), l) =>
    let t := if frames.any Frame.isAckEliciting then l.transport.scheduleAck env level
      else l.transport
    (.ok (),
      if l.acknowledgedBytes ≠ 0 then t.onAcknowledgement env l.acknowledgedBytes l.rttSample level
      else t)

def openNew (p : Packet) (pn : ℕ) : Except Error (Option Opened) × Transport :=
  let t := t.recordPacket p pn
  match decodeQuicFrames p.payload with
  | .error e => (.error e, t)
  | .ok frames =>
    match t.applyFrames env p.level frames with
    | (.error e, t) => (.error e, t)
    | (.ok (), t) => (.ok (some ⟨p.level, pn, frames⟩), t)

/-- `open`. -/
def «open» (p : Packet) : Except Error (Option Opened) × Transport :=
  match t.unprotect p with
  | none => (.ok none, t)
  | some (pn, nextPhase) =>
    let t := if nextPhase then t.followKeyPhase else t
    if (t.spaces p.level).received.contains pn then t.openAgain env p.level pn
    else t.openNew env p pn

/-! ### Retransmission -/

structure Resend where
  number : ℕ
  level : Level
  frames : List Frame
  padInitial : Bool
  retransmits : ℕ

/-- The scan of one space by `retransmit`. -/
structure Sweep where
  sent : SentMap
  expired : List Resend := []
  lost : Bool := false
  earliest : Option (ℕ × ℕ) := none

def Sweep.seen (s : Sweep) (pn : ℕ) (packet : SentPacket) : Sweep :=
  if s.earliest.all fun e => packet.sentAt < e.2 then
    { s with earliest := some (pn, packet.sentAt) }
  else s

def Sweep.packet (s : Sweep) (now lostThreshold : ℕ) (level : Level) (pn : ℕ)
    (packet : SentPacket) : Except Error Unit × Sweep :=
  if ¬ packet.ackEliciting then (.ok (), s)
  else if packet.pendingResend then
    let entry : Resend := ⟨pn, level, packet.frames, packet.padInitial, packet.retransmits⟩
    (.ok (), { s with expired := s.expired ++ [entry] }.seen pn packet)
  else if lostThreshold ≤ now - packet.sentAt then
    if MAX_RETRANSMITS ≤ packet.retransmits then
      (.error (Error.protocol "QUIC packet loss exceeded retransmission limit"), s)
    else
      let raised := { packet with retransmits := packet.retransmits + 1 }
      let entry : Resend := ⟨pn, level, raised.frames, raised.padInitial, raised.retransmits⟩
      (.ok (), { s with
        sent := s.sent.insert pn raised
        lost := true
        expired := s.expired ++ [entry] }.seen pn packet)
  else (.ok (), s.seen pn packet)

def Sweep.packets (now lostThreshold : ℕ) (level : Level) :
    List (ℕ × SentPacket) → Sweep → Except Error Unit × Sweep
  | [], s => (.ok (), s)
  | (pn, packet) :: rest, s =>
    match s.packet now lostThreshold level pn packet with
    | (.error e, s) => (.error e, s)
    | (.ok (), s) => Sweep.packets now lostThreshold level rest s

/-- What `retransmit` collects over the spaces. -/
structure Collected where
  transport : Transport
  resend : List Resend := []
  lost : Bool := false
  probeArmed : Bool := false

def probe (now pto : ℕ) (sent : SentMap) (earliest : Option (ℕ × ℕ)) : Option (ℕ × SentPacket) :=
  match earliest with
  | none => none
  | some (pn, sentAt) =>
    if pto ≤ now - sentAt then
      match sent[pn]? with
      | none => none
      | some packet => if packet.retransmits < MAX_RETRANSMITS then some (pn, packet) else none
    else none

/-- One space in `retransmit`. -/
def Collected.level (c : Collected) (now lostThreshold pto : ℕ) (level : Level) :
    Except Error Unit × Collected :=
  let sent := (c.transport.spaces level).sent
  match Sweep.packets now lostThreshold level sent.toList { sent := sent } with
  | (.error e, s) =>
    (.error e, { c with transport := c.transport.modifySpace level fun sp =>
      { sp with sent := s.sent } })
  | (.ok (), s) =>
    let sent := s.expired.foldl (fun m r => m.erase r.number) s.sent
    match (if s.expired = [] ∧ ¬ c.probeArmed then probe now pto sent s.earliest else none) with
    | some (pn, packet) =>
      (.ok (),
        { transport := c.transport.modifySpace level fun sp => { sp with sent := sent.erase pn }
          resend := c.resend ++
            [⟨pn, level, packet.frames, packet.padInitial, packet.retransmits⟩]
          lost := c.lost || s.lost
          probeArmed := true })
    | none =>
      (.ok (),
        { c with
          transport := c.transport.modifySpace level fun sp => { sp with sent := sent }
          resend := c.resend ++ s.expired
          lost := c.lost || s.lost })

def Collected.levels (now lostThreshold pto : ℕ) :
    List Level → Collected → Except Error Unit × Collected
  | [], c => (.ok (), c)
  | level :: rest, c =>
    match c.level now lostThreshold pto level with
    | (.error e, c) => (.error e, c)
    | (.ok (), c) => Collected.levels now lostThreshold pto rest c

def keepForResend (r : Resend) : Transport :=
  let packet : SentPacket := ⟨r.frames, r.padInitial, env.now, r.retransmits, true, 0, true⟩
  t.modifySpace r.level fun s => { s with sent := s.sent.insert r.number packet }

/-- The last loop of `retransmit`. -/
def resendAll (t : Transport) : List Resend → Except Error Unit × Transport
  | [] => (.ok (), t)
  | r :: rest =>
    match t.sendFramesInner env r.level r.frames r.padInitial r.retransmits with
    | (.ok (), t) => resendAll t rest
    | (.error e, t) =>
      if e.kind = .wouldBlock then resendAll (t.keepForResend env r) rest else (.error e, t)

def retransmit : Except Error Unit × Transport :=
  match Collected.levels env.now (t.lossDetectionThreshold env) (t.ptoTimeout env)
      [.initial, .handshake, .application] { transport := t } with
  | (.error e, c) => (.error e, c.transport)
  | (.ok (), c) =>
    let t := if c.lost then c.transport.onLoss else c.transport
    andThen (resendAll env t c.resend) (flushQueuedStreams · env)

/-! ### Everything a connection does with its transport -/

/-- The calls. A request or response stream is bidirectional; the control and QPACK
    streams, which are written with `send_stream` and `send_stream_append`, are not. -/
inductive Op where
  | setHandshakeKeys (recv send : List UInt8)
  | setApplicationKeys (recv send : List UInt8)
  | setPeerTransport (parameters : TransportParameters)
  | setLocalTransport (parameters : TransportParameters)
  | retry (dcid token : List UInt8)
  | receive (env : Env) (packet : Packet)
  | acceptStreamData (id offset length : ℕ)
  | sendCrypto (env : Env) (level : Level) (bytes : List UInt8)
  | sendStream (env : Env) (id : ℕ) (bytes : List UInt8)
  | sendStreamAppend (env : Env) (id : ℕ) (bytes : List UInt8)
  | queueStreamWire (id : ℕ) (wire : List UInt8)
  | sendRequestChunks (env : Env) (id : ℕ) (wire : List UInt8) (offset : ℕ)
  | sendStreamSignal (env : Env) (id code : ℕ) (resetFinalSize : Option ℕ)
  | sendConnectionClose (env : Env) (errorCode : ℕ) (frameType : Option ℕ) (reason : List UInt8)
  | initiatePathValidation (env : Env) (candidate : Address) (token : Octets 8)
  | handlePathChallenge (env : Env) (token : Octets 8)
  | handlePathResponse (token : Octets 8) (source : Address)
  | checkPathValidationTimeout (env : Env)
  | flushAcks (env : Env)
  | replenishConnectionWindow (env : Env)
  | replenishStreamWindows (env : Env)
  | replenishStreamLimits (env : Env)
  | retransmit (env : Env)
  | maybeKeyUpdate (env : Env)

def step (t : Transport) : Op → Transport
  | .setHandshakeKeys recv send => t.setHandshakeKeys recv send
  | .setApplicationKeys recv send => t.setApplicationKeys recv send
  | .setPeerTransport parameters => t.setPeerTransport parameters
  | .setLocalTransport parameters => t.setLocalTransport parameters
  | .retry dcid token => t.onRetry dcid token
  | .receive env packet => (t.open env packet).2
  | .acceptStreamData id offset length => (t.acceptStreamData id offset length).2
  | .sendCrypto env level bytes => (t.sendCrypto env level bytes).2
  | .sendStream env id bytes => (t.sendStream env .application id bytes false).2
  | .sendStreamAppend env id bytes => (t.sendStreamAppend env .application id bytes).2
  | .queueStreamWire id wire => (t.queueStreamWire id wire).2
  | .sendRequestChunks env id wire offset => (t.sendRequestChunks env id wire offset).2.2
  | .sendStreamSignal env id code size => (t.sendStreamSignal env id code size).2
  | .sendConnectionClose env code frameType reason =>
    (t.sendConnectionClose env code frameType reason).2
  | .initiatePathValidation env candidate token =>
    (t.initiatePathValidation env candidate token).2
  | .handlePathChallenge env token => t.handlePathChallenge env token
  | .handlePathResponse token source => t.handlePathResponse token source
  | .checkPathValidationTimeout env => (t.checkPathValidationTimeout env).2
  | .flushAcks env => (t.flushAcks env).2
  | .replenishConnectionWindow env => (t.replenishConnectionWindow env).2
  | .replenishStreamWindows env => (t.replenishStreamWindows env).2
  | .replenishStreamLimits env => (t.replenishStreamLimits env).2
  | .retransmit env => (t.retransmit env).2
  | .maybeKeyUpdate env => t.maybeKeyUpdate env

end Transport

def establishedClient : Transport :=
  (Transport.new [1] [2] [3] false ⟨.initial [3] false, 0⟩ ⟨.initial [3] true, 0⟩
    12000).setApplicationKeys [5] [6]

end Courierust.Quic
