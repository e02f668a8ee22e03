import Courierust.Quic.Varint

/-!
# QUIC frames

Model of `courierust_quic::frame` (RFC 9000 §19, RFC 9221). `Frame.encode` writes
one frame and `Frame.decode` reads one back with the number of octets it used.

The decoder of the source walks a position through the buffer; here it hands the
octets that are left from one read to the next, and the position is recovered at
the end as what is missing from the buffer.
-/

namespace Courierust.Quic

open List

/-- A fixed-length octet array `[u8; n]`. -/
def Octets (n : ℕ) : Type := { l : List UInt8 // l.length = n }

instance (n : ℕ) : DecidableEq (Octets n) := inferInstanceAs (DecidableEq { _l // _ })

inductive Frame where
  | padding (count : ℕ)
  | ping
  | ack (largestAcked ackDelay : ℕ) (ranges : List (ℕ × ℕ)) (ecn : Option (ℕ × ℕ × ℕ))
  | resetStream (streamId appErrorCode finalSize : ℕ)
  | stopSending (streamId appErrorCode : ℕ)
  | crypto (offset : ℕ) (data : List UInt8)
  | newToken (token : List UInt8)
  | stream (streamId : ℕ) (offset : Option ℕ) (data : List UInt8) (length : Option ℕ)
      (fin : Bool)
  | maxData (max : ℕ)
  | maxStreamData (streamId max : ℕ)
  | maxStreams (unidirectional : Bool) (max : ℕ)
  | dataBlocked (max : ℕ)
  | streamDataBlocked (streamId max : ℕ)
  | streamsBlocked (unidirectional : Bool) (max : ℕ)
  | newConnectionId (sequence retirePriorTo : ℕ) (connectionId : List UInt8)
      (statelessResetToken : Octets 16)
  | retireConnectionId (sequence : ℕ)
  | pathChallenge (data : Octets 8)
  | pathResponse (data : Octets 8)
  | connectionClose (errorCode : ℕ) (frameType : Option ℕ) (reason : List UInt8)
  | handshakeDone
  | datagram (data : List UInt8) (length : Option ℕ)
  deriving DecidableEq

namespace Frame

def MAX_ACK_RANGES : ℕ := 4096

def MAX_CONNECTION_ID_LEN : ℕ := 20

/-! ### Encoding -/

/-- The `(gap, length)` pairs after the first range, in wire order. -/
def encodeRanges (ranges : List (ℕ × ℕ)) : List UInt8 :=
  ranges.flatMap fun r => Varint.encode r.1 ++ Varint.encode r.2

def streamType (fin hasOffset hasLength : Bool) : UInt8 :=
  0x08 ||| (if fin then 0x01 else 0) ||| (if hasOffset then 0x04 else 0)
    ||| (if hasLength then 0x02 else 0)

/-- `Frame::encode`: the octets one frame adds to the output. -/
def encode : Frame → List UInt8
  | padding n => List.replicate n 0
  | ping => [0x01]
  | ack largestAcked ackDelay ranges ecn =>
    -- The count is of the ranges after the first, whose gap is not sent.
    [if ecn.isSome then 0x03 else 0x02] ++ Varint.encode largestAcked ++ Varint.encode ackDelay
      ++ Varint.encode (ranges.length - 1)
      ++ (match ranges.head? with
          | some r => Varint.encode r.2
          | none => Varint.encode 0)
      ++ encodeRanges (ranges.drop 1)
      ++ (match ecn with
          | some (ce, ect0, ect1) => Varint.encode ce ++ Varint.encode ect0 ++ Varint.encode ect1
          | none => [])
  | resetStream id code size =>
    [0x04] ++ Varint.encode id ++ Varint.encode code ++ Varint.encode size
  | stopSending id code => [0x05] ++ Varint.encode id ++ Varint.encode code
  | crypto offset data =>
    [0x06] ++ Varint.encode offset ++ Varint.encode data.length ++ data
  | newToken token => [0x07] ++ Varint.encode token.length ++ token
  | stream id offset data length fin =>
    [streamType fin offset.isSome length.isSome] ++ Varint.encode id
      ++ (match offset with | some o => Varint.encode o | none => [])
      ++ (match length with | some l => Varint.encode l | none => [])
      ++ data
  | maxData v => [0x10] ++ Varint.encode v
  | maxStreamData id max => [0x11] ++ Varint.encode id ++ Varint.encode max
  | maxStreams uni max => [if uni then 0x13 else 0x12] ++ Varint.encode max
  | dataBlocked v => [0x14] ++ Varint.encode v
  | streamDataBlocked id max => [0x15] ++ Varint.encode id ++ Varint.encode max
  | streamsBlocked uni max => [if uni then 0x17 else 0x16] ++ Varint.encode max
  | newConnectionId sequence retire cid token =>
    [0x18] ++ Varint.encode sequence ++ Varint.encode retire ++ [UInt8.ofNat cid.length]
      ++ cid ++ token.1
  | retireConnectionId v => [0x19] ++ Varint.encode v
  | pathChallenge d => [0x1a] ++ d.1
  | pathResponse d => [0x1b] ++ d.1
  | connectionClose code frameType reason =>
    [if frameType.isSome then 0x1c else 0x1d] ++ Varint.encode code
      ++ (match frameType with | some ft => Varint.encode ft | none => [])
      ++ Varint.encode reason.length ++ reason
  | handshakeDone => [0x1e]
  | datagram data length =>
    [if length.isSome then 0x31 else 0x30]
      ++ (match length with | some l => Varint.encode l | none => [])
      ++ data

/-! ### Decoding -/

/-- One `varint!()` read. -/
def readVarint (buf : List UInt8) : Except Error (ℕ × List UInt8) :=
  match Varint.decode buf with
  | .ok (v, used) => .ok (v, buf.drop used)
  | .error e => .error e

/-- One `bytes!(n)` read. -/
def readBytes (n : ℕ) (buf : List UInt8) : Except Error (List UInt8 × List UInt8) :=
  if buf.length < n then .error Error.eof else .ok (buf.take n, buf.drop n)

def readOctets (n : ℕ) (buf : List UInt8) : Except Error (Octets n × List UInt8) :=
  if h : buf.length < n then .error Error.eof
  else .ok (⟨buf.take n, by rw [List.length_take]; omega⟩, buf.drop n)

/-- The additional ranges of an ACK: every range must stay above packet number
    zero, counted down from the lowest number acknowledged so far. -/
def readRanges : ℕ → ℕ → List UInt8 → Except Error (List (ℕ × ℕ) × List UInt8)
  | 0, _, buf => .ok ([], buf)
  | n + 1, previousLow, buf => do
    let (gap, buf) ← readVarint buf
    let (rangeLen, buf) ← readVarint buf
    if previousLow < gap + 2 then
      throw (Error.protocol "QUIC ACK range gap underflows packet number")
    let nextLargest := previousLow - (gap + 2)
    if nextLargest < rangeLen then
      throw (Error.protocol "QUIC ACK range underflows packet number")
    let (ranges, buf) ← readRanges n (nextLargest - rangeLen) buf
    return ((gap, rangeLen) :: ranges, buf)

def readEcn (first : ℕ) (buf : List UInt8) : Except Error (Option (ℕ × ℕ × ℕ) × List UInt8) := do
  if first = 0x03 then
    let (ce, buf) ← readVarint buf
    let (ect0, buf) ← readVarint buf
    let (ect1, buf) ← readVarint buf
    return (some (ce, ect0, ect1), buf)
  else
    return (none, buf)

def readAck (first : ℕ) (buf : List UInt8) : Except Error (Frame × List UInt8) := do
  let (largestAcked, buf) ← readVarint buf
  let (ackDelay, buf) ← readVarint buf
  let (rangeCount, buf) ← readVarint buf
  if MAX_ACK_RANGES < rangeCount then
    throw (Error.overflow "QUIC ACK range count exceeds limit")
  let (firstRange, buf) ← readVarint buf
  if largestAcked < firstRange then
    throw (Error.protocol "QUIC ACK first range underflows packet number")
  let (ranges, buf) ← readRanges rangeCount (largestAcked - firstRange) buf
  let (ecn, buf) ← readEcn first buf
  return (ack largestAcked ackDelay ((0, firstRange) :: ranges) ecn, buf)

def readOptional (present : Bool) (buf : List UInt8) : Except Error (Option ℕ × List UInt8) := do
  if present then
    let (v, buf) ← readVarint buf
    return (some v, buf)
  else
    return (none, buf)

def readStream (first : ℕ) (buf : List UInt8) : Except Error (Frame × List UInt8) := do
  let (id, buf) ← readVarint buf
  let (offset, buf) ← readOptional (first.testBit 2) buf
  let (length, buf) ← readOptional (first.testBit 1) buf
  let (data, buf) ← readBytes (length.getD buf.length) buf
  return (stream id offset data length (first.testBit 0), buf)

def readNewConnectionId (buf : List UInt8) : Except Error (Frame × List UInt8) := do
  let (sequence, buf) ← readVarint buf
  let (retire, buf) ← readVarint buf
  if sequence < retire then
    throw (Error.protocol "QUIC NEW_CONNECTION_ID retire value exceeds sequence")
  match buf with
  | [] => throw Error.eof
  | cidLen :: buf =>
    if cidLen.toNat < 1 ∨ MAX_CONNECTION_ID_LEN < cidLen.toNat then
      throw (Error.protocol "QUIC connection ID length must be 1-20")
    let (cid, buf) ← readBytes cidLen.toNat buf
    let (token, buf) ← readOctets 16 buf
    return (newConnectionId sequence retire cid token, buf)

def readFrame (first : ℕ) (buf : List UInt8) : Except Error (Frame × List UInt8) := do
  match first with
  | 0x00 =>
    let run := (buf.takeWhile (· = 0)).length
    return (padding (1 + run), buf.drop run)
  | 0x01 => return (ping, buf)
  | 0x02 | 0x03 => readAck first buf
  | 0x04 =>
    let (id, buf) ← readVarint buf
    let (code, buf) ← readVarint buf
    let (size, buf) ← readVarint buf
    return (resetStream id code size, buf)
  | 0x05 =>
    let (id, buf) ← readVarint buf
    let (code, buf) ← readVarint buf
    return (stopSending id code, buf)
  | 0x06 =>
    let (offset, buf) ← readVarint buf
    let (len, buf) ← readVarint buf
    let (data, buf) ← readBytes len buf
    return (crypto offset data, buf)
  | 0x07 =>
    let (len, buf) ← readVarint buf
    let (token, buf) ← readBytes len buf
    return (newToken token, buf)
  | 0x08 | 0x09 | 0x0a | 0x0b | 0x0c | 0x0d | 0x0e | 0x0f => readStream first buf
  | 0x10 =>
    let (v, buf) ← readVarint buf
    return (maxData v, buf)
  | 0x11 =>
    let (id, buf) ← readVarint buf
    let (max, buf) ← readVarint buf
    return (maxStreamData id max, buf)
  | 0x12 | 0x13 =>
    let (max, buf) ← readVarint buf
    return (maxStreams (first = 0x13) max, buf)
  | 0x14 =>
    let (v, buf) ← readVarint buf
    return (dataBlocked v, buf)
  | 0x15 =>
    let (id, buf) ← readVarint buf
    let (max, buf) ← readVarint buf
    return (streamDataBlocked id max, buf)
  | 0x16 | 0x17 =>
    let (max, buf) ← readVarint buf
    return (streamsBlocked (first = 0x17) max, buf)
  | 0x18 => readNewConnectionId buf
  | 0x19 =>
    let (v, buf) ← readVarint buf
    return (retireConnectionId v, buf)
  | 0x1a =>
    let (d, buf) ← readOctets 8 buf
    return (pathChallenge d, buf)
  | 0x1b =>
    let (d, buf) ← readOctets 8 buf
    return (pathResponse d, buf)
  | 0x1c | 0x1d =>
    let (code, buf) ← readVarint buf
    let (frameType, buf) ← readOptional (first = 0x1c) buf
    let (len, buf) ← readVarint buf
    let (reason, buf) ← readBytes len buf
    return (connectionClose code frameType reason, buf)
  | 0x1e => return (handshakeDone, buf)
  | 0x30 | 0x31 =>
    let (length, buf) ← readOptional (first = 0x31) buf
    let (data, buf) ← readBytes (length.getD buf.length) buf
    return (datagram data (if first = 0x31 then some data.length else none), buf)
  | _ => throw (Error.protocol "unknown QUIC frame type")

/-- `Frame::decode`: one frame and the number of octets it used. -/
def decode (buf : List UInt8) : Except Error (Frame × ℕ) :=
  match buf with
  | [] => .error Error.eof
  | first :: body => do
    let (frame, rest) ← readFrame first.toNat body
    return (frame, buf.length - rest.length)

/-! ### Reading back an ACK -/

variable {buf rest : List UInt8} {v : ℕ} {ranges : List (ℕ × ℕ)}

@[simp] theorem readVarint_encode (h : v ≤ Varint.MAX) (rest : List UInt8) :
    readVarint (Varint.encode v ++ rest) = .ok (v,rest) := by
  simp [readVarint,Varint.decode_encode_append h]

/-- The ranges after the first stay above packet number zero when counted down
    from `low`, the lowest number acknowledged before them. -/
def RangesFit : ℕ → List (ℕ × ℕ) → Prop
  | _, [] => True
  | low, (gap, len) :: rs => gap + 2 + len ≤ low ∧ RangesFit (low - (gap + 2) - len) rs

theorem readRanges_encodeRanges {low : ℕ} (hfit : RangesFit low ranges) (hlow : low ≤ Varint.MAX)
    (rest : List UInt8) :
    readRanges ranges.length low (encodeRanges ranges ++ rest) = .ok (ranges,rest) := by
  induction ranges generalizing low with
  | nil => rfl
  | cons r rs ih =>
    obtain ⟨gap,len⟩ := r
    obtain ⟨hle,hfit⟩ := hfit
    have hgap : gap ≤ Varint.MAX := by omega
    have hlen : len ≤ Varint.MAX := by omega
    have ih := ih hfit (by omega)
    simp only [encodeRanges] at ih
    simp only [length_cons,readRanges,encodeRanges,flatMap_cons,append_assoc,
      readVarint_encode hgap,readVarint_encode hlen,bind,Except.bind,pure,Except.pure]
    rw [if_neg (by omega),if_neg (by omega)]
    simp only [ih]

theorem decode_encode_ack {largest delay first : ℕ} (hlargest : largest ≤ Varint.MAX)
    (hdelay : delay ≤ Varint.MAX) (hfirst : first ≤ largest)
    (hfit : RangesFit (largest-first) ranges) (hcount : ranges.length ≤ MAX_ACK_RANGES) :
    decode (encode (ack largest delay ((0,first) :: ranges) none)) =
      .ok (ack largest delay ((0,first) :: ranges) none,
        (encode (ack largest delay ((0,first) :: ranges) none)).length) := by
  have hlen : ranges.length ≤ Varint.MAX := by
    unfold MAX_ACK_RANGES at hcount; unfold Varint.MAX; omega
  have hranges := readRanges_encodeRanges hfit (by omega) []
  rw [append_nil] at hranges
  have hread : readAck 0x02 (Varint.encode largest ++ (Varint.encode delay ++
      (Varint.encode ranges.length ++ (Varint.encode first ++ encodeRanges ranges)))) =
      .ok (ack largest delay ((0,first) :: ranges) none,[]) := by
    simp only [readAck,readVarint_encode hlargest,readVarint_encode hdelay,
      readVarint_encode hlen,readVarint_encode (le_trans hfirst hlargest),bind,Except.bind,
      pure,Except.pure]
    rw [if_neg (by omega),if_neg (by omega)]
    simp [hranges,readEcn,pure,Except.pure]
  simp only [encode,Option.isSome_none,Bool.false_eq_true,if_false,cons_append,
    nil_append,append_nil,append_assoc,head?_cons,length_cons,
    Nat.add_one_sub_one,drop_succ_cons,drop_zero,decode]
  change (do let (frame,rest) ← readAck 0x02 _; pure (frame,_-rest.length)) = _
  rw [hread]
  simp [bind,Except.bind,pure,Except.pure]

theorem readVarint_le (h : readVarint buf = .ok (v,rest)) : v ≤ Varint.MAX := by
  unfold readVarint at h
  split at h
  · next hdec =>
    obtain ⟨rfl,-⟩ : _ = v ∧ _ := by simpa using h
    exact Varint.decode_le_max hdec
  · cases h

theorem readAck_ok {first : ℕ} {f : Frame} (h : readAck first buf = .ok (f,rest)) :
    ∃ largest rest' delay ranges ecn, readVarint buf = .ok (largest,rest') ∧
      f = ack largest delay ranges ecn := by
  simp only [readAck,Except.bind_eq_ok,Prod.exists] at h
  obtain ⟨largest,rest',hlargest,_,_,-,count,_,-,h⟩ := h
  by_cases hcount : MAX_ACK_RANGES < count
  · simp [hcount,throw,throwThe,MonadExceptOf.throw,bind,Except.bind] at h
  simp only [hcount,if_false,Except.bind_eq_ok,Prod.exists] at h
  obtain ⟨firstRange,_,-,h⟩ := h
  by_cases hfirst : largest < firstRange
  · simp [hfirst,throw,throwThe,MonadExceptOf.throw,bind,Except.bind] at h
  simp only [hfirst,if_false,Except.bind_eq_ok,Prod.exists,pure,Except.pure,
    Except.ok.injEq,Prod.mk.injEq] at h
  obtain ⟨_,_,_,_,_,_,rfl,-⟩ := h
  exact ⟨largest,rest',_,_,_,hlargest,rfl⟩

theorem largest_le_of_decode {largest delay used : ℕ} {ecn : Option (ℕ × ℕ × ℕ)}
    (hbuf : buf.head? = some 0x02) (h : decode buf = .ok (ack largest delay ranges ecn,used)) :
    largest ≤ Varint.MAX := by
  obtain ⟨body,rfl⟩ : ∃ body, buf = 0x02 :: body := by
    cases buf with
    | nil => simp at hbuf
    | cons b body => exact ⟨body,by simpa using hbuf⟩
  change (do let (frame,rest) ← readAck 0x02 body; pure (frame,_-rest.length)) = _ at h
  simp only [Except.bind_eq_ok,Prod.exists] at h
  obtain ⟨frame,rest,hread,hframe⟩ := h
  obtain ⟨v,_,_,_,_,hv,rfl⟩ := readAck_ok hread
  cases hframe
  exact readVarint_le hv

private theorem readAck_ne_maxData {first : ℕ} : readAck first buf ≠ .ok (maxData v,rest) := by
  intro h
  obtain ⟨_,_,_,_,_,-,hack⟩ := readAck_ok h
  cases hack

private theorem readNewConnectionId_ne_maxData :
    readNewConnectionId buf ≠ .ok (maxData v,rest) := by
  intro h
  simp only [readNewConnectionId,Except.bind_eq_ok,Prod.exists] at h
  obtain ⟨sequence,_,-,retire,body,-,h⟩ := h
  by_cases hretire : sequence < retire
  · simp [hretire,throw,throwThe,MonadExceptOf.throw,bind,Except.bind] at h
  simp only [hretire,if_false] at h
  cases body with
  | nil => simp [throw,throwThe,MonadExceptOf.throw] at h
  | cons cidLen body =>
    by_cases hlen : cidLen.toNat < 1 ∨ MAX_CONNECTION_ID_LEN < cidLen.toNat
    · simp only [if_pos hlen,throw,throwThe,MonadExceptOf.throw,bind,Except.bind] at h
      cases h
    · simp only [if_neg hlen] at h
      simp [Except.bind_eq_ok,pure,Except.pure] at h

/-- A MAX_DATA comes from the branch of its own type octet, and its limit is a varint. -/
theorem maxData_le_of_decode {used : ℕ} (h : decode buf = .ok (maxData v,used)) :
    v ≤ Varint.MAX := by
  cases buf with
  | nil => cases h
  | cons first body =>
    simp only [decode,Except.bind_eq_ok,Prod.exists,pure,Except.pure,Except.ok.injEq,
      Prod.mk.injEq] at h
    obtain ⟨frame,rest,h,rfl,-⟩ := h
    unfold readFrame at h
    split at h
    case h_3 => exact absurd h readAck_ne_maxData
    case h_4 => exact absurd h readAck_ne_maxData
    case h_17 =>
      simp only [Except.bind_eq_ok,Prod.exists,pure,Except.pure,Except.ok.injEq,Prod.mk.injEq,
        maxData.injEq] at h
      obtain ⟨_,_,hread,rfl,-⟩ := h
      exact readVarint_le hread
    case h_25 => exact absurd h readNewConnectionId_ne_maxData
    all_goals
      simp only [readStream,Except.bind_eq_ok,pure,Except.pure,Except.ok.injEq,
        Prod.mk.injEq,reduceCtorEq,false_and,and_false,exists_false,throw,throwThe,
        MonadExceptOf.throw] at h

end Frame

end Courierust.Quic
