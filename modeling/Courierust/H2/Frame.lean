import Courierust.Num

/-!
# HTTP/2 frames and settings

Model of `courierust_h2::{error, settings, frame}`: error codes, the settings table with
its checks, the frames and their octets.
-/

namespace Courierust.H2

inductive ErrorCode where
  | noError
  | protocolError
  | internalError
  | flowControlError
  | settingsTimeout
  | streamClosed
  | frameSizeError
  | refusedStream
  | cancel
  | compressionError
  | connectError
  | enhanceYourCalm
  | inadequateSecurity
  | http11Required
  deriving DecidableEq

namespace ErrorCode

def asU32 : ErrorCode → ℕ
  | noError => 0x0
  | protocolError => 0x1
  | internalError => 0x2
  | flowControlError => 0x3
  | settingsTimeout => 0x4
  | streamClosed => 0x5
  | frameSizeError => 0x6
  | refusedStream => 0x7
  | cancel => 0x8
  | compressionError => 0x9
  | connectError => 0xa
  | enhanceYourCalm => 0xb
  | inadequateSecurity => 0xc
  | http11Required => 0xd

def fromU32 (v : ℕ) : Option ErrorCode :=
  [noError, protocolError, internalError, flowControlError, settingsTimeout, streamClosed,
    frameSizeError, refusedStream, cancel, compressionError, connectError, enhanceYourCalm,
    inadequateSecurity, http11Required][v]?

end ErrorCode

/-! ### Settings -/

def SETTINGS_HEADER_TABLE_SIZE : ℕ := 0x1
def SETTINGS_ENABLE_PUSH : ℕ := 0x2
def SETTINGS_MAX_CONCURRENT_STREAMS : ℕ := 0x3
def SETTINGS_INITIAL_WINDOW_SIZE : ℕ := 0x4
def SETTINGS_MAX_FRAME_SIZE : ℕ := 0x5
def SETTINGS_MAX_HEADER_LIST_SIZE : ℕ := 0x6
def SETTINGS_NO_RFC7540_PRIORITIES : ℕ := 0x9

structure Setting where
  id : ℕ
  value : ℕ
  deriving DecidableEq

/-- Typed settings; a limit of `0` means none. -/
structure Settings where
  headerTableSize : ℕ := 4096
  enablePush : ℕ := 1
  maxConcurrentStreams : ℕ := 0
  initialWindowSize : ℕ := 65535
  maxFrameSize : ℕ := 16384
  maxHeaderListSize : ℕ := 0
  noRfc7540Priorities : ℕ := 0
  deriving DecidableEq

namespace Settings

/-- One entry of `apply`. -/
def applyOne (t : Settings) (s : Setting) : Except Error Settings :=
  if s.id = SETTINGS_HEADER_TABLE_SIZE then .ok { t with headerTableSize := s.value }
  else if s.id = SETTINGS_ENABLE_PUSH then
    if 1 < s.value then .error (Error.protocol "SETTINGS_ENABLE_PUSH must be 0 or 1")
    else .ok { t with enablePush := s.value }
  else if s.id = SETTINGS_MAX_CONCURRENT_STREAMS then .ok { t with maxConcurrentStreams := s.value }
  else if s.id = SETTINGS_INITIAL_WINDOW_SIZE then
    if 0x7fffffff < s.value then .error (Error.protocol "SETTINGS_INITIAL_WINDOW_SIZE too large")
    else .ok { t with initialWindowSize := s.value }
  else if s.id = SETTINGS_MAX_FRAME_SIZE then
    if s.value < 16384 ∨ 16777215 < s.value then
      .error (Error.protocol "SETTINGS_MAX_FRAME_SIZE out of range")
    else .ok { t with maxFrameSize := s.value }
  else if s.id = SETTINGS_MAX_HEADER_LIST_SIZE then .ok { t with maxHeaderListSize := s.value }
  else if s.id = SETTINGS_NO_RFC7540_PRIORITIES then
    if 1 < s.value then .error (Error.protocol "SETTINGS_NO_RFC7540_PRIORITIES must be 0 or 1")
    else .ok { t with noRfc7540Priorities := s.value }
  else .ok t

/-- `apply`: the entries in order. A failed one ends the connection, so the entries
    before it are not kept. -/
def apply (t : Settings) (entries : List Setting) : Except Error Settings :=
  entries.foldlM applyOne t

def toVec (t : Settings) : List Setting :=
  [⟨SETTINGS_HEADER_TABLE_SIZE, t.headerTableSize⟩, ⟨SETTINGS_ENABLE_PUSH, t.enablePush⟩,
    ⟨SETTINGS_MAX_CONCURRENT_STREAMS, t.maxConcurrentStreams⟩,
    ⟨SETTINGS_INITIAL_WINDOW_SIZE, t.initialWindowSize⟩, ⟨SETTINGS_MAX_FRAME_SIZE, t.maxFrameSize⟩,
    ⟨SETTINGS_MAX_HEADER_LIST_SIZE, t.maxHeaderListSize⟩,
    ⟨SETTINGS_NO_RFC7540_PRIORITIES, t.noRfc7540Priorities⟩]

/-- What the checks of `apply` keep: the window fits 31 bits and a frame is never too small. -/
structure Checked (t : Settings) : Prop where
  window : t.initialWindowSize ≤ 0x7fffffff
  frame : 16384 ≤ t.maxFrameSize

theorem checked_default : Checked {} := ⟨by decide,by decide⟩

theorem Checked.applyOne {t t' : Settings} (h : Checked t) {s : Setting}
    (hs : t.applyOne s = .ok t') : Checked t' := by
  unfold Settings.applyOne at hs
  split_ifs at hs with _ _ _ _ _ _ hwindow _ hframe
  all_goals cases hs
  all_goals exact ⟨by first | exact h.window | (simp only; omega),
    by first | exact h.frame | (simp only; omega)⟩

theorem Checked.apply {entries : List Setting} {t t' : Settings} (h : Checked t)
    (hs : t.apply entries = .ok t') : Checked t' := by
  induction entries generalizing t with
  | nil => cases hs; exact h
  | cons s entries ih =>
    unfold Settings.apply at hs
    rw [List.foldlM_cons,Except.bind_eq_ok] at hs
    obtain ⟨t₁,ht₁,hs⟩ := hs
    exact ih (h.applyOne ht₁) hs

end Settings

/-! ### Frames -/

structure LegacyPriority where
  dependency : ℕ
  exclusive : Bool
  weight : ℕ
  deriving DecidableEq

inductive Frame where
  | data (streamId : ℕ) (data : List UInt8) (endStream : Bool) (padding : ℕ)
  | headers (streamId : ℕ) (block : List UInt8) (endStream endHeaders : Bool)
      (priority : Option LegacyPriority)
  | priority (streamId : ℕ) (priority : LegacyPriority)
  | rstStream (streamId : ℕ) (errorCode : ErrorCode)
  | settings (ack : Bool) (entries : List Setting)
  | pushPromise (streamId promisedId : ℕ) (block : List UInt8) (endHeaders : Bool)
  | ping (ack : Bool) (data : List UInt8)
  | goAway (lastStreamId : ℕ) (errorCode : ErrorCode) (debug : List UInt8)
  | windowUpdate (streamId increment : ℕ)
  | continuation (streamId : ℕ) (endHeaders : Bool) (block : List UInt8)
  | priorityUpdate (prioritizedStreamId : ℕ) (priorityField : List UInt8)
  | unknown (kind flags : UInt8) (streamId : ℕ) (payload : List UInt8)
  deriving DecidableEq

def putU16 (n : ℕ) : List UInt8 := [UInt8.ofNat (n / 256), UInt8.ofNat n]

def putU32 (n : ℕ) : List UInt8 := putU16 (n / 65536) ++ putU16 n

def encodeHeader (len : ℕ) (kind flags : UInt8) (streamId : ℕ) : List UInt8 :=
  [UInt8.ofNat (len / 65536), UInt8.ofNat (len / 256), UInt8.ofNat len, kind, flags] ++
    putU32 (streamId % 2 ^ 31)

def LegacyPriority.encode (p : LegacyPriority) : List UInt8 :=
  putU32 (if p.exclusive then p.dependency ||| 0x80000000 else p.dependency) ++
    [UInt8.ofNat p.weight - 1]

namespace Frame

def withHeader (kind flags : UInt8) (streamId : ℕ) (payload : List UInt8) : List UInt8 :=
  encodeHeader payload.length kind flags streamId ++ payload

def encode : Frame → List UInt8
  | data streamId octets endStream _ =>
    withHeader 0x0 (if endStream then 0x1 else 0) streamId octets
  | headers streamId block endStream endHeaders legacy =>
    let flags := (if endStream then 0x1 else 0) ||| (if endHeaders then 0x4 else 0)
    match legacy with
    | some p => withHeader 0x1 (flags ||| 0x20) streamId (p.encode ++ block)
    | none => withHeader 0x1 flags streamId block
  | priority streamId legacy => withHeader 0x2 0 streamId legacy.encode
  | rstStream streamId errorCode => withHeader 0x3 0 streamId (putU32 errorCode.asU32)
  | settings ack entries =>
    withHeader 0x4 (if ack then 0x1 else 0) 0 (entries.flatMap fun s => putU16 s.id ++ putU32 s.value)
  | pushPromise streamId promisedId block endHeaders =>
    withHeader 0x5 (if endHeaders then 0x4 else 0) streamId (putU32 (promisedId % 2 ^ 31) ++ block)
  | ping ack octets => withHeader 0x6 (if ack then 0x1 else 0) 0 octets
  | goAway lastStreamId errorCode debug =>
    withHeader 0x7 0 0 (putU32 (lastStreamId % 2 ^ 31) ++ putU32 errorCode.asU32 ++ debug)
  | windowUpdate streamId increment => withHeader 0x8 0 streamId (putU32 (increment % 2 ^ 31))
  | continuation streamId endHeaders block =>
    withHeader 0x9 (if endHeaders then 0x4 else 0) streamId block
  | priorityUpdate streamId field => withHeader 0x10 0 0 (putU32 (streamId % 2 ^ 31) ++ field)
  | unknown kind flags streamId payload => withHeader kind flags streamId payload

end Frame

/-! ### Parsing -/

structure FrameHeader where
  len : ℕ
  kind : UInt8
  flags : UInt8
  streamId : ℕ
  deriving DecidableEq

/-- `u32::from_be_bytes` of the first four octets. -/
def beU32 (b : List UInt8) : ℕ := (b.take 4).foldl (fun n x => 256 * n + x.toNat) 0

def beU31 (b : List UInt8) : ℕ := beU32 b % 2 ^ 31

def has (flags flag : UInt8) : Bool := flags &&& flag != 0

def h2Error (code : ErrorCode) (msg : String) : Error := Error.h2 code.asU32 msg

/-- `strip_padding`: the octets between the Pad Length field and the padding. -/
def stripPadding (payload : List UInt8) (flags : UInt8) : Except Error (List UInt8) :=
  if !has flags 0x8 then .ok payload
  else
    match payload with
    | [] => .error (h2Error .frameSizeError "padded frame empty")
    | pad :: rest =>
      if payload.length ≤ pad.toNat then .error (h2Error .frameSizeError "padding overrun")
      else .ok (rest.take (rest.length - pad.toNat))

def padLength (payload : List UInt8) (flags : UInt8) (empty : String) :
    Except Error (ℕ × List UInt8) :=
  if !has flags 0x8 then .ok (0, payload)
  else
    match payload with
    | [] => .error (h2Error .frameSizeError empty)
    | pad :: rest => .ok (pad.toNat, rest)

def LegacyPriority.decode (raw : List UInt8) : LegacyPriority :=
  ⟨beU31 raw, 2 ^ 31 ≤ beU32 raw, ((raw.getD 4 0) + 1).toNat⟩

def settingsEntries : ℕ → List UInt8 → List Setting
  | 0, _ => []
  | n + 1, b => ⟨beU32 ([0, 0] ++ b), beU32 (b.drop 2)⟩ :: settingsEntries n (b.drop 6)

namespace Frame

def parseData (h : FrameHeader) (payload : List UInt8) : Except Error Frame :=
  if h.streamId = 0 then .error (h2Error .protocolError "DATA on stream 0")
  else (stripPadding payload h.flags).map fun body =>
    .data h.streamId body (has h.flags 0x1) (payload.length - body.length)

def parseHeaders (h : FrameHeader) (payload : List UInt8) : Except Error Frame :=
  if h.streamId = 0 then .error (h2Error .protocolError "HEADERS on stream 0")
  else
    match padLength payload h.flags "padded HEADERS empty" with
    | .error e => .error e
    | .ok (pad, rest) =>
      if has h.flags 0x20 ∧ rest.length < 5 then
        .error (h2Error .frameSizeError "HEADERS priority truncated")
      else
        let legacy := if has h.flags 0x20 then some (LegacyPriority.decode rest) else none
        let rest := if has h.flags 0x20 then rest.drop 5 else rest
        if rest.length < pad then .error (h2Error .protocolError "HEADERS padding overrun")
        else .ok (.headers h.streamId (rest.take (rest.length - pad)) (has h.flags 0x1)
          (has h.flags 0x4) legacy)

def parsePriority (h : FrameHeader) (payload : List UInt8) : Except Error Frame :=
  if h.streamId = 0 then .error (h2Error .protocolError "PRIORITY on stream 0")
  else if payload.length ≠ 5 then .error (h2Error .frameSizeError "PRIORITY length != 5")
  else .ok (.priority h.streamId (LegacyPriority.decode payload))

def parseRstStream (h : FrameHeader) (payload : List UInt8) : Except Error Frame :=
  if h.streamId = 0 then .error (h2Error .protocolError "RST_STREAM on stream 0")
  else if payload.length ≠ 4 then .error (h2Error .frameSizeError "RST_STREAM length != 4")
  else .ok (.rstStream h.streamId ((ErrorCode.fromU32 (beU32 payload)).getD .noError))

def parseSettings (h : FrameHeader) (payload : List UInt8) : Except Error Frame :=
  if h.streamId ≠ 0 then .error (h2Error .protocolError "SETTINGS on stream != 0")
  else if has h.flags 0x1 then
    if !payload.isEmpty then .error (h2Error .frameSizeError "SETTINGS ACK with payload")
    else .ok (.settings true [])
  else if payload.length % 6 ≠ 0 then
    .error (h2Error .frameSizeError "SETTINGS length % 6 != 0")
  else .ok (.settings false (settingsEntries (payload.length / 6) payload))

def parsePushPromise (h : FrameHeader) (payload : List UInt8) : Except Error Frame :=
  if h.streamId = 0 then .error (h2Error .protocolError "PUSH_PROMISE on stream 0")
  else
    match padLength payload h.flags "padded PUSH_PROMISE empty" with
    | .error e => .error e
    | .ok (pad, rest) =>
      if rest.length < 4 then .error (h2Error .frameSizeError "PUSH_PROMISE truncated")
      else
        let promised := beU31 rest
        let rest := rest.drop 4
        if payload.length < rest.length + pad then
          .error (h2Error .frameSizeError "PUSH_PROMISE padding overrun")
        else .ok (.pushPromise h.streamId promised (rest.take (rest.length - pad)) (has h.flags 0x4))

def parsePing (h : FrameHeader) (payload : List UInt8) : Except Error Frame :=
  if h.streamId ≠ 0 then .error (h2Error .protocolError "PING on stream != 0")
  else if payload.length ≠ 8 then .error (h2Error .frameSizeError "PING length != 8")
  else .ok (.ping (has h.flags 0x1) payload)

def parseGoAway (h : FrameHeader) (payload : List UInt8) : Except Error Frame :=
  if h.streamId ≠ 0 then .error (h2Error .protocolError "GOAWAY on stream != 0")
  else if payload.length < 8 then .error (h2Error .frameSizeError "GOAWAY too short")
  else .ok (.goAway (beU31 payload) ((ErrorCode.fromU32 (beU32 (payload.drop 4))).getD .noError)
    (payload.drop 8))

def parseWindowUpdate (h : FrameHeader) (payload : List UInt8) : Except Error Frame :=
  if payload.length ≠ 4 then .error (h2Error .frameSizeError "WINDOW_UPDATE length != 4")
  else if beU31 payload = 0 then .error (h2Error .protocolError "WINDOW_UPDATE increment 0")
  else .ok (.windowUpdate h.streamId (beU31 payload))

def parseContinuation (h : FrameHeader) (payload : List UInt8) : Except Error Frame :=
  if h.streamId = 0 then .error (h2Error .protocolError "CONTINUATION on stream 0")
  else .ok (.continuation h.streamId (has h.flags 0x4) payload)

def parsePriorityUpdate (h : FrameHeader) (payload : List UInt8) : Except Error Frame :=
  if h.streamId ≠ 0 then .error (h2Error .protocolError "PRIORITY_UPDATE on stream != 0")
  else if payload.length < 4 then .error (h2Error .frameSizeError "PRIORITY_UPDATE too short")
  else if beU31 payload = 0 then .error (h2Error .protocolError "PRIORITY_UPDATE stream 0")
  else .ok (.priorityUpdate (beU31 payload) (payload.drop 4))

def parsePayload (h : FrameHeader) (payload : List UInt8) : Except Error Frame :=
  if h.kind = 0x0 then parseData h payload
  else if h.kind = 0x1 then parseHeaders h payload
  else if h.kind = 0x2 then parsePriority h payload
  else if h.kind = 0x3 then parseRstStream h payload
  else if h.kind = 0x4 then parseSettings h payload
  else if h.kind = 0x5 then parsePushPromise h payload
  else if h.kind = 0x6 then parsePing h payload
  else if h.kind = 0x7 then parseGoAway h payload
  else if h.kind = 0x8 then parseWindowUpdate h payload
  else if h.kind = 0x9 then parseContinuation h payload
  else if h.kind = 0x10 then parsePriorityUpdate h payload
  else .ok (.unknown h.kind h.flags h.streamId payload)

def parse (h : FrameHeader) (payload : List UInt8) (maxFrameSize : ℕ) : Except Error Frame :=
  if h.len ≠ payload.length then .error (Error.protocol "frame length mismatch")
  else if maxFrameSize < h.len then
    .error (h2Error .frameSizeError "frame exceeds max frame size")
  else parsePayload h payload

/-! ### What is accepted -/

theorem parse_ok {h : FrameHeader} {payload : List UInt8} {max : ℕ} {f : Frame}
    (hparse : parse h payload max = .ok f) : h.len ≤ max ∧ parsePayload h payload = .ok f := by
  unfold parse at hparse
  split_ifs at hparse with hlen hmax
  exact ⟨not_lt.1 hmax,hparse⟩

theorem ite_ne {α : Type} {p : Prop} [Decidable p] {x y z : α} (hx : x ≠ z) (hy : y ≠ z) :
    (if p then x else y) ≠ z := by
  split_ifs
  · exact hx
  · exact hy

/-- Only DATA is read as data, and not on stream 0. -/
theorem parsePayload_data {h : FrameHeader} {payload octets : List UInt8} {id padding : ℕ}
    {endStream : Bool} (hparse : parsePayload h payload = .ok (.data id octets endStream padding)) :
    id ≠ 0 := by
  rw [parsePayload] at hparse
  by_cases hkind : h.kind = 0x0
  · rw [if_pos hkind,parseData] at hparse
    split_ifs at hparse with hid
    obtain ⟨body,-,heq⟩ := Except.map_eq_ok.1 hparse
    cases heq
    exact hid
  · refine absurd hparse ?_
    rw [if_neg hkind]
    repeat'
      first
        | apply ite_ne
        | split
        | rintro ⟨⟩

end Frame

end Courierust.H2
