import Courierust.Deflate.Truncated
import Courierust.Http.Fields
import Courierust.Http.Text

/-!
# gRPC messages

The framing of `courierust_grpc`: a flag, a length and a payload that may be compressed. A sender
bounds the message before it is compressed, the two receivers bound what the length field says.
`next_message` reads a body that arrives in chunks, `decode_messages` one that is complete.
-/

namespace Courierust.Error

def grpc (code : ℕ) (msg : String) : Error := withMessage (.grpc code) msg

def grpcCode (e : Error) : Option ℕ :=
  match e.kind with
  | .grpc code => some code
  | _ => none

end Courierust.Error

namespace Courierust.Grpc

open List
open Deflate (gzip gunzip gunzip_gzip gunzip_cut)
open Http (HeaderMap HeaderValue Utf8)
open Str (Text)
open BigEndian

inductive Status where
  | ok | unknown | invalidArgument | deadlineExceeded | internal
  deriving DecidableEq

def Status.code : Status → ℕ
  | .ok => 0
  | .unknown => 2
  | .invalidArgument => 3
  | .deadlineExceeded => 4
  | .internal => 13

/-! ### Frames -/

def frameMessage (payload : List UInt8) (compressed : Bool) : List UInt8 :=
  (if compressed then 1 else 0) :: beBytes 4 (payload.length % 2 ^ 32) ++ payload

def frameOutbound (msg : List UInt8) (compress : Bool) (maxMessageSize : ℕ) :
    Except Error (List UInt8) :=
  if maxMessageSize < msg.length then .error (Error.overflow "gRPC message too large")
  else if compress then .ok (frameMessage (gzip msg) true)
  else .ok (frameMessage msg false)

/-- The `Compressed-Flag`. -/
def compressedFlag (flag : UInt8) : Except Error Bool :=
  if flag = 0 then .ok false
  else if flag = 1 then .ok true
  else .error (Error.protocol "invalid gRPC compressed flag")

def readFrameHeader (buf : List UInt8) (max : ℕ) : Except Error (Bool × ℕ) :=
  if buf.length < 5 then .error (Error.protocol "truncated gRPC frame header")
  else
    match compressedFlag (buf.getD 0 0) with
    | .error e => .error e
    | .ok compressed =>
      let len := beNat ((buf.drop 1).take 4)
      if max < len then .error (Error.overflow "gRPC message too large")
      else .ok (compressed, len)

/-- `decode_payload`, which `decode_messages` repeats. -/
def decodePayload (compressed : Bool) (payload : List UInt8) (max : ℕ) :
    Except Error (List UInt8) :=
  if compressed then gunzip payload max else .ok payload

/-- `decode_messages`, from the octets at `pos` on. -/
def decodeMessages (raw : List UInt8) (max : ℕ) : Except Error (List (Except Error (List UInt8))) :=
  if raw = [] then .ok []
  else
    match readFrameHeader raw max with
    | .error e => .error e
    | .ok (compressed, len) =>
      if raw.length < 5 + len then .error (Error.protocol "truncated gRPC request message")
      else
        match decodePayload compressed ((raw.drop 5).take len) max with
        | .error e => .error e
        | .ok plain => (decodeMessages (raw.drop (5 + len)) max).map (.ok plain :: ·)
termination_by raw.length
decreasing_by
  have := List.length_pos_of_ne_nil ‹raw ≠ []›
  rw [List.length_drop]
  omega

/-! ### Status -/

/-- `u8::from_str_radix` of two octets that are a text, to the base 16. -/
def parseHex (a b : UInt8) : Option UInt8 :=
  let digit (c : UInt8) : Option ℕ :=
    if 48 ≤ c.toNat ∧ c.toNat ≤ 57 then some (c.toNat - 48)
    else if 65 ≤ c.toNat ∧ c.toNat ≤ 70 then some (c.toNat - 55)
    else if 97 ≤ c.toNat ∧ c.toNat ≤ 102 then some (c.toNat - 87)
    else none
  if a = 0x2b then (digit b).map UInt8.ofNat
  else do
    let high ← digit a
    let low ← digit b
    pure (UInt8.ofNat (16 * high + low))

/-- The loop of `percent_decode`. -/
def percentOctets : List UInt8 → List UInt8
  | x :: a :: b :: rest =>
    match if x = 0x25 then parseHex a b else none with
    | some v => v :: percentOctets rest
    | none => x :: percentOctets (a :: b :: rest)
  | x :: rest => x :: percentOctets rest
  | [] => []
termination_by octets => octets.length

def utf8Char (octets : List UInt8) : Char :=
  let tail := octets.tail.foldl (fun n b => 64 * n + b.toNat % 64) 0
  let lead := (octets.headD 0).toNat
  Char.ofNat <|
    if lead < 0x80 then lead
    else if lead < 0xe0 then lead % 32 * 64 + tail
    else if lead < 0xf0 then lead % 16 * 64 ^ 2 + tail
    else lead % 8 * 64 ^ 3 + tail

/-- `String::from_utf8_lossy`: what cannot be continued becomes one replacement character, and the
octet that does not continue it is read again. -/
def fromUtf8Lossy (state : Utf8) (seen : List UInt8) : List UInt8 → Text
  | [] => if seen = [] then [] else [Char.ofNat 0xfffd]
  | b :: rest =>
    match state.next b with
    | some .start => utf8Char (seen ++ [b]) :: fromUtf8Lossy .start [] rest
    | some state => fromUtf8Lossy state (seen ++ [b]) rest
    | none =>
      if seen = [] then Char.ofNat 0xfffd :: fromUtf8Lossy .start [] rest
      else
        Char.ofNat 0xfffd ::
          match Utf8.next .start b with
          | some .start => utf8Char [b] :: fromUtf8Lossy .start [] rest
          | some state => fromUtf8Lossy state [b] rest
          | none => Char.ofNat 0xfffd :: fromUtf8Lossy .start [] rest

def percentDecode (s : Text) : String :=
  String.ofList (fromUtf8Lossy .start [] (percentOctets (s.flatMap String.utf8EncodeChar)))

/-- The `grpc-status` of a header block. -/
def grpcStatus (headers : HeaderMap) : Option ℕ :=
  headers.getStr "grpc-status".toList >>= Str.parseU32

def receivedStatus (trailers : Option HeaderMap) (headHeaders : HeaderMap) : Option ℕ :=
  (trailers >>= grpcStatus).or (grpcStatus headHeaders)

/-! ### Streams of messages -/

/-- `Body`. A channel is what will arrive on it until it is closed. -/
inductive Body where
  | empty
  | bytes (b : List UInt8)
  | channel (items : List (Except Error (List UInt8)))
  | stream (items : List (Except Error (List UInt8)))

/-- `MessageStream`. The trailers are those that are there once the body has ended. -/
structure MessageStream where
  body : Body
  buf : List UInt8 := []
  done : Bool := false
  trailers : Option HeaderMap
  headHeaders : HeaderMap
  maxMessageSize : ℕ

variable {s' : MessageStream}

namespace MessageStream

def finish (s : MessageStream) : Except Error Unit :=
  match receivedStatus s.trailers s.headHeaders with
  | none => .error (Error.grpc Status.unknown.code "stream ended without a grpc-status")
  | some code =>
    if code ≠ Status.ok.code then
      let message := (s.trailers >>= (·.get "grpc-message".toList)).or
        (s.headHeaders.get "grpc-message".toList)
      .error (Error.grpc code
        ((message.map fun value => percentDecode (value.toStr.getD [])).getD ""))
    else .ok ()

def buffered (s : MessageStream) : Except Error (Option (Bool × ℕ)) :=
  if 5 ≤ s.buf.length then
    (readFrameHeader s.buf s.maxMessageSize).map fun header =>
      if 5 + header.2 ≤ s.buf.length then some header else none
  else .ok none

/-- What a `recv` on the body of `s` does to it; `rebuild` puts the rest of the channel back. -/
def receive (s : MessageStream) (rebuild : List (Except Error (List UInt8)) → Body) :
    List (Except Error (List UInt8)) → Except Error Unit × MessageStream
  | .ok chunk :: items => (.ok (), { s with buf := s.buf ++ chunk, body := rebuild items })
  | .error e :: items => (.error e, { s with body := rebuild items })
  | [] => (.ok (), { s with done := true })

/-- The refill of `next_message`. -/
def refill (s : MessageStream) : Except Error Unit × MessageStream :=
  match s.body with
  | .channel items => s.receive .channel items
  | .stream items => s.receive .stream items
  | .empty => (.ok (), { s with done := true })
  | .bytes b => (.ok (), { s with buf := s.buf ++ b, body := .empty, done := true })

def refills (s : MessageStream) : ℕ :=
  (match s.body with
    | .channel items | .stream items => items.length
    | _ => 0) + if s.done then 0 else 1

theorem refills_refill {s : MessageStream} (hdone : s.done = false)
    (h : s.refill = (.ok (),s')) : s'.refills < s.refills := by
  obtain ⟨body,buf,done,trailers,headHeaders,max⟩ := s
  obtain rfl := hdone
  cases body with
  | empty | bytes =>
    cases h
    simp [refills]
  | channel items | stream items =>
    rcases items with _ | ⟨e | chunk,items⟩ <;> cases h <;> simp [refills]

def nextMessage (s : MessageStream) : Except Error (Option (List UInt8)) × MessageStream :=
  match s.buffered with
  | .error e => (.error e, s)
  | .ok (some (compressed, len)) =>
    ((decodePayload compressed ((s.buf.drop 5).take len) s.maxMessageSize).map some,
      { s with buf := s.buf.drop (5 + len) })
  | .ok none =>
    if hdone : s.done then
      if s.buf ≠ [] then (.error (Error.protocol "truncated gRPC message"), s)
      else (s.finish.map fun _ => none, s)
    else
      match hrefill : s.refill with
      | (.error e, s') => (.error e, s')
      | (.ok (), s') =>
        have := refills_refill (Bool.eq_false_iff.mpr hdone) hrefill
        nextMessage s'
termination_by s.refills

/-- The results of `n` calls of `next_message`. -/
def nextMessages : ℕ → MessageStream → List (Except Error (Option (List UInt8)))
  | 0, _ => []
  | n + 1, s => s.nextMessage.1 :: nextMessages n s.nextMessage.2

end MessageStream

/-! ### Frames as they are read -/

variable {rest : List UInt8} {max : ℕ}

theorem length_frameMessage (payload : List UInt8) (compressed : Bool) :
    (frameMessage payload compressed).length = 5+payload.length := by
  rw [frameMessage,length_append,length_cons,length_beBytes]

theorem drop_frameMessage (payload : List UInt8) (compressed : Bool) :
    (frameMessage payload compressed).drop 5 = payload := by
  exact drop_left' (by rw [length_cons,length_beBytes])

theorem readFrameHeader_append {buf : List UInt8} (h : 5 ≤ buf.length) (more : List UInt8)
    (max : ℕ) : readFrameHeader (buf ++ more) max = readFrameHeader buf max := by
  have hflag : (buf ++ more).getD 0 0 = buf.getD 0 0 := getD_append _ _ _ _ (by omega)
  have hlen : ((buf ++ more).drop 1).take 4 = (buf.drop 1).take 4 := by
    rw [drop_append_of_le_length (by omega),take_append_of_le_length]
    rw [length_drop]
    omega
  rw [readFrameHeader,readFrameHeader,hflag,hlen,if_neg (by rw [length_append]; omega),
    if_neg (by omega)]

theorem readFrameHeader_frame (payload rest : List UInt8) (compressed : Bool) (max : ℕ) :
    readFrameHeader (frameMessage payload compressed ++ rest) max =
      if max < payload.length%2^32 then .error (Error.overflow "gRPC message too large")
      else .ok (compressed,payload.length%2^32) := by
  have hlength := length_frameMessage payload compressed
  have hlen : beNat (((frameMessage payload compressed).drop 1).take 4) =
      payload.length%2^32 := by
    rw [frameMessage,cons_append,drop_one,tail_cons,
      take_left' (length_beBytes 4 _)]
    exact beNat_beBytes (Nat.mod_lt _ (by decide))
  rw [readFrameHeader_append (by omega),readFrameHeader,if_neg (by omega),hlen,frameMessage]
  cases compressed <;> rfl

structure Outbound where
  message : List UInt8
  compress : Bool

namespace Outbound

def payload (o : Outbound) : List UInt8 := if o.compress then gzip o.message else o.message

def frame (o : Outbound) : List UInt8 := frameMessage o.payload o.compress

def Fits (o : Outbound) (max : ℕ) : Prop := o.payload.length ≤ max ∧ o.payload.length < 2 ^ 32

theorem frameOutbound_eq (o : Outbound) (max : ℕ) :
    frameOutbound o.message o.compress max =
      if max < o.message.length then .error (Error.overflow "gRPC message too large")
      else .ok o.frame := by
  rcases o with ⟨message,compress⟩
  cases compress <;> rfl

theorem decodePayload_payload (o : Outbound) (h : o.message.length ≤ max) :
    decodePayload o.compress o.payload max = .ok o.message := by
  rcases o with ⟨message,compress⟩
  cases compress with
  | false => rfl
  | true => exact gunzip_gzip message h

theorem decodePayload_cut (o : Outbound) (max : ℕ) {n : ℕ} (h : n < o.payload.length) :
    decodePayload o.compress (o.payload.take n) max ≠ .ok o.message := by
  rcases o with ⟨message,compress⟩
  cases compress with
  | false =>
    intro heq
    have hlength := congrArg length (Except.ok.inj heq)
    simp only [payload,Bool.false_eq_true,if_false] at h hlength
    rw [length_take] at hlength
    omega
  | true =>
    obtain ⟨e,herror⟩ := gunzip_cut message max h
    intro heq
    exact absurd (herror.symm.trans heq) (by simp)

end Outbound

variable {sent : List Outbound} {o : Outbound}

theorem decodeMessages_frame (o : Outbound) (rest : List UInt8) (max : ℕ) :
    decodeMessages (o.frame ++ rest) max =
      if max < o.payload.length%2^32 then .error (Error.overflow "gRPC message too large")
      else
        match decodePayload o.compress (o.payload.take (o.payload.length%2^32)) max with
        | .error e => .error e
        | .ok plain =>
          (decodeMessages ((o.frame ++ rest).drop (5+o.payload.length%2^32)) max).map
            (.ok plain :: ·) := by
  have hlength : o.frame.length = 5+o.payload.length := length_frameMessage _ _
  have hmod := Nat.mod_le o.payload.length (2^32)
  have hpayload : ((o.frame ++ rest).drop 5).take (o.payload.length%2^32) =
      o.payload.take (o.payload.length%2^32) := by
    rw [drop_append_of_le_length (by omega),Outbound.frame,drop_frameMessage,
      take_append_of_le_length hmod]
  rw [decodeMessages,if_neg,Outbound.frame,readFrameHeader_frame]
  · by_cases hmax : max < o.payload.length%2^32
    · rw [if_pos hmax,if_pos hmax]
    rw [if_neg hmax,if_neg hmax]
    dsimp only
    rw [if_neg,← Outbound.frame,hpayload]
    rw [← Outbound.frame,length_append]
    omega
  · rw [← length_eq_zero_iff,length_append]
    omega

theorem decodeMessages_frames (hsent : ∀ o ∈ sent, o.message.length ≤ max) :
    decodeMessages (sent.map Outbound.frame).flatten max =
      .ok (sent.map fun o => .ok o.message) ↔ ∀ o ∈ sent, o.Fits max := by
  induction sent with
  | nil =>
    rw [decodeMessages]
    simp
  | cons o sent ih =>
    obtain ⟨ho,hsent⟩ := forall_mem_cons.1 hsent
    rw [map_cons,flatten_cons,map_cons,forall_mem_cons,← ih hsent,
      decodeMessages_frame]
    split_ifs with hmax
    · refine iff_of_false (by simp) fun hfits => ?_
      have := hfits.1.1
      omega
    by_cases hfield : o.payload.length < 2^32
    · have hdrop : (o.frame ++ (sent.map Outbound.frame).flatten).drop (5+o.payload.length) =
          (sent.map Outbound.frame).flatten := drop_left' (length_frameMessage _ _)
      rw [Nat.mod_eq_of_lt hfield] at hmax ⊢
      rw [take_length,o.decodePayload_payload ho,hdrop,Except.map_eq_ok]
      simp only [List.cons.injEq,true_and,exists_eq_right,Outbound.Fits,not_lt.1 hmax,hfield]
    refine iff_of_false ?_ fun hfits => hfield hfits.1.2
    have hlt : o.payload.length%2^32 < o.payload.length :=
      (Nat.mod_lt _ (by decide)).trans_le (not_lt.1 hfield)
    have hcut := o.decodePayload_cut max hlt
    cases hplain : decodePayload o.compress (o.payload.take (o.payload.length%2^32)) max with
    | error e => simp
    | ok plain =>
      rw [hplain,ne_eq,Except.ok.injEq] at hcut
      rw [Except.map_eq_ok]
      rintro ⟨rest,_,heq⟩
      exact hcut (Except.ok.inj (List.cons.inj heq).1)

/-! ### Chunks -/

def Chunks (items : List (Except Error (List UInt8))) (octets : List UInt8) : Prop :=
  ∃ chunks : List (List UInt8), items = chunks.map .ok ∧ octets = chunks.flatten

def Body.Carries : Body → List UInt8 → Prop
  | .empty, octets => octets = []
  | .bytes b, octets => octets = b
  | .channel items, octets => Chunks items octets
  | .stream items, octets => Chunks items octets

namespace MessageStream

/-- A later state of the stream `origin`, with these octets to be read. -/
structure Holds (origin s : MessageStream) (octets : List UInt8) : Prop where
  pending : ∃ rest, s.body.Carries rest ∧ s.buf ++ rest = octets ∧ (s.done = true → rest = [])
  trailers : s.trailers = origin.trailers
  headHeaders : s.headHeaders = origin.headHeaders
  maxMessageSize : s.maxMessageSize = origin.maxMessageSize

variable {origin s : MessageStream} {octets : List UInt8}

theorem Holds.receive (rebuild : List (Except Error (List UInt8)) → Body)
    (hrebuild : ∀ items octets, Chunks items octets → (rebuild items).Carries octets)
    {items : List (Except Error (List UInt8))} (hitems : Chunks items rest)
    (hbody : s.body = rebuild items) (hdone : s.done = false)
    (h : Holds origin s (s.buf ++ rest)) :
    ∃ s', s.receive rebuild items = (.ok (),s') ∧ Holds origin s' (s.buf ++ rest) := by
  obtain ⟨_ | ⟨chunk,chunks⟩,rfl,rfl⟩ := hitems
  · refine ⟨_,rfl,⟨[],?_,rfl,fun _ => rfl⟩,h.trailers,h.headHeaders,h.maxMessageSize⟩
    rw [hbody]
    exact hrebuild _ _ ⟨[],rfl,rfl⟩
  · refine ⟨_,rfl,⟨chunks.flatten,hrebuild _ _ ⟨chunks,rfl,rfl⟩,?_,fun htrue => ?_⟩,
      h.trailers,h.headHeaders,h.maxMessageSize⟩
    · rw [flatten_cons,append_assoc]
    · exact absurd (hdone.symm.trans htrue) (by decide)

theorem Holds.refill (h : Holds origin s octets) (hdone : s.done = false) :
    ∃ s', s.refill = (.ok (),s') ∧ Holds origin s' octets := by
  obtain ⟨rest,hcarries,rfl,_⟩ := h.pending
  rw [MessageStream.refill]
  cases hbody : s.body with
  | empty =>
    rw [hbody] at hcarries
    exact ⟨_,rfl,⟨rest,hcarries,rfl,fun _ => hcarries⟩,h.trailers,h.headHeaders,
      h.maxMessageSize⟩
  | bytes b =>
    rw [hbody] at hcarries
    obtain rfl := hcarries
    exact ⟨_,rfl,⟨[],rfl,append_nil _,fun _ => rfl⟩,h.trailers,h.headHeaders,
      h.maxMessageSize⟩
  | channel items =>
    rw [hbody] at hcarries
    exact h.receive .channel (fun _ _ hitems => hitems) hcarries hbody hdone
  | stream items =>
    rw [hbody] at hcarries
    exact h.receive .stream (fun _ _ hitems => hitems) hcarries hbody hdone

theorem nextMessage_refill (h : s.buffered = .ok none)
    (hdone : s.done = false) (hrefill : s.refill = (.ok (),s')) :
    s.nextMessage = s'.nextMessage := by
  rw [nextMessage,h]
  dsimp only
  rw [dif_neg (by rw [hdone]; decide)]
  split
  · next e u heq => cases hrefill.symm.trans heq
  · next u heq =>
    rw [hrefill] at heq
    cases heq
    rfl

theorem Holds.buffered_frame
    (h : Holds origin s (o.frame ++ rest)) (hfits : o.Fits origin.maxMessageSize) :
    s.buffered = .ok (if 5+o.payload.length ≤ s.buf.length
      then some (o.compress,o.payload.length) else none) := by
  obtain ⟨more,_,hoctets,_⟩ := h.pending
  rw [buffered]
  by_cases hheader : 5 ≤ s.buf.length
  · rw [if_pos hheader,← readFrameHeader_append hheader more,hoctets,Outbound.frame,
      readFrameHeader_frame,Nat.mod_eq_of_lt hfits.2,h.maxMessageSize,if_neg hfits.1.not_gt]
    rfl
  · rw [if_neg hheader,if_neg (by omega)]

theorem Holds.nextMessage_frame
    (h : Holds origin s (o.frame ++ rest)) (ho : o.message.length ≤ origin.maxMessageSize)
    (hfits : o.Fits origin.maxMessageSize) :
    ∃ s', s.nextMessage = (.ok (some o.message),s') ∧ Holds origin s' rest := by
  induction hn : s.refills using Nat.strong_induction_on generalizing s with
  | _ n ih =>
    have hbuffered := h.buffered_frame hfits
    have hlength : o.frame.length = 5+o.payload.length := length_frameMessage _ _
    obtain ⟨more,hcarries,hoctets,hmore⟩ := h.pending
    split_ifs at hbuffered with hfull
    · -- The buffer is the frame and a part of the rest.
      obtain ⟨tail,hbuf⟩ := prefix_of_prefix_length_le ⟨rest,rfl⟩ ⟨more,hoctets⟩ (by omega)
      have hpayload : (s.buf.drop 5).take o.payload.length = o.payload := by
        rw [← hbuf,drop_append_of_le_length (by omega),Outbound.frame,drop_frameMessage,
          take_left]
      have hdrop : s.buf.drop (5+o.payload.length) = tail := by
        rw [← hbuf,drop_left' hlength]
      have htail : tail ++ more = rest := by
        rw [← hbuf,append_assoc] at hoctets
        exact append_cancel_left hoctets
      rw [nextMessage,hbuffered]
      dsimp only
      rw [hpayload,hdrop,h.maxMessageSize,o.decodePayload_payload ho]
      exact ⟨_,rfl,⟨more,hcarries,htail,hmore⟩,h.trailers,h.headHeaders,rfl⟩
    · have hdone : s.done = false := by
        by_contra hdone
        rw [Bool.not_eq_false] at hdone
        rw [hmore hdone,append_nil] at hoctets
        rw [hoctets,length_append] at hfull
        omega
      obtain ⟨s',hrefill,hs'⟩ := h.refill hdone
      rw [nextMessage_refill hbuffered hdone hrefill]
      exact ih _ (hn ▸ refills_refill hdone hrefill) hs' rfl

theorem Holds.nextMessage_end (h : Holds origin s []) :
    ∃ s', s.nextMessage = (origin.finish.map fun _ => none,s') ∧ Holds origin s' [] := by
  induction hn : s.refills using Nat.strong_induction_on generalizing s with
  | _ n ih =>
    obtain ⟨more,hcarries,hoctets,hmore⟩ := h.pending
    have hbuf : s.buf = [] := (append_eq_nil_iff.1 hoctets).1
    have hbuffered : s.buffered = .ok none := by
      rw [buffered,hbuf]
      rfl
    cases hdone : s.done with
    | true =>
      rw [nextMessage,hbuffered]
      rw [dif_pos hdone,if_neg (not_not.2 hbuf),finish,h.trailers,h.headHeaders]
      exact ⟨s,rfl,h⟩
    | false =>
      obtain ⟨s',hrefill,hs'⟩ := h.refill hdone
      rw [nextMessage_refill hbuffered hdone hrefill]
      exact ih _ (hn ▸ refills_refill hdone hrefill) hs' rfl

/-- The streaming receiver returns the messages of the frames that come first, and goes on
behind them. -/
theorem Holds.nextMessages_frames (hsent : ∀ o ∈ sent, o.message.length ≤ origin.maxMessageSize)
    (hfits : ∀ o ∈ sent, o.Fits origin.maxMessageSize) (n : ℕ)
    (h : Holds origin s (sent.map Outbound.frame).flatten) :
    s.nextMessages (sent.length+n) = sent.map (fun o => .ok (some o.message)) ++
      List.replicate n (origin.finish.map fun _ => none) := by
  induction sent generalizing s with
  | nil =>
    rw [length_nil,Nat.zero_add,map_nil,nil_append]
    induction n generalizing s with
    | zero => rfl
    | succ n ih =>
      obtain ⟨s',hnext,hs'⟩ := h.nextMessage_end
      rw [nextMessages,hnext,replicate_succ,ih hs']
  | cons o sent ih =>
    obtain ⟨ho,hsent⟩ := forall_mem_cons.1 hsent
    obtain ⟨hfit,hfits⟩ := forall_mem_cons.1 hfits
    obtain ⟨s',hnext,hs'⟩ := h.nextMessage_frame ho hfit
    rw [length_cons,Nat.add_right_comm,nextMessages,hnext,ih hsent hfits hs',map_cons,
      cons_append]

end MessageStream

/-! ### Delivery -/

def frameAll (sent : List Outbound) (max : ℕ) : Except Error (List (List UInt8)) :=
  sent.mapM fun o => frameOutbound o.message o.compress max

theorem frameAll_eq_ok {frames : List (List UInt8)} :
    frameAll sent max = .ok frames ↔
      (∀ o ∈ sent, o.message.length ≤ max) ∧ frames = sent.map Outbound.frame := by
  induction sent generalizing frames with
  | nil => simp [frameAll,pure,Except.pure,eq_comm]
  | cons o sent ih =>
    have hcons : frameAll (o :: sent) max = .ok frames ↔ ∃ frame, frameOutbound o.message o.compress
        max = .ok frame ∧ ∃ rest, frameAll sent max = .ok rest ∧ frame :: rest = frames := by
      rw [frameAll,frameAll,mapM_cons]
      simp only [Except.bind_eq_ok,pure,Except.pure,Except.ok.injEq]
    rw [hcons,o.frameOutbound_eq,forall_mem_cons,map_cons]
    by_cases ho : max < o.message.length
    · simp [ho]
    · simp [ho,ih,not_lt.1 ho,eq_comm]

/-- Both receivers return the messages: `decode_messages` from the frames as a whole, and
`next_message` from a body that is cut in any way. Behind them `next_message` returns the end, or
the error that the status stands for. -/
structure Delivers (frames messages : List (List UInt8)) (max : ℕ) : Prop where
  buffered : decodeMessages frames.flatten max = .ok (messages.map .ok)
  streaming : ∀ (body : Body) (trailers : Option HeaderMap) (headHeaders : HeaderMap) (n : ℕ),
    body.Carries frames.flatten →
      let s : MessageStream := { body, trailers, headHeaders, maxMessageSize := max }
      s.nextMessages (messages.length + n) = messages.map (fun m => .ok (some m)) ++
        List.replicate n (s.finish.map fun _ => none)

/-- Messages that were accepted are delivered exactly if the payloads that stand for them are
within the limit too. -/
theorem messages_delivered (sent : List Outbound) (max : ℕ) (frames : List (List UInt8))
    (hframes : frameAll sent max = .ok frames) :
    Delivers frames (sent.map Outbound.message) max ↔
      ∀ o ∈ sent, o.payload.length ≤ max ∧ o.payload.length < 2 ^ 32 := by
  obtain ⟨hsent,rfl⟩ := frameAll_eq_ok.1 hframes
  constructor
  · intro h
    have hbuffered := h.buffered
    rw [map_map] at hbuffered
    exact (decodeMessages_frames hsent).1 hbuffered
  · intro hfits
    refine ⟨?_,fun body trailers headHeaders n hbody => ?_⟩
    · rw [map_map]
      exact (decodeMessages_frames hsent).2 hfits
    · rw [length_map,map_map]
      exact MessageStream.Holds.nextMessages_frames hsent hfits n
        ⟨⟨_,hbody,rfl,fun hdone => absurd hdone Bool.false_ne_true⟩,rfl,rfl,rfl⟩

theorem messages_delivered_compressed :
    ∃ frames, frameAll [⟨[1, 2, 3], false⟩, ⟨replicate 40 7, true⟩] 64 = .ok frames ∧
      Delivers frames [[1, 2, 3], replicate 40 7] 64 :=
  ⟨_,rfl,(messages_delivered [⟨[1,2,3],false⟩,⟨replicate 40 7,true⟩] 64 _ rfl).mpr
    (by decide +kernel)⟩

/-- Four octets are accepted under a limit of four, and the container of them is refused. -/
theorem message_not_delivered :
    ∃ frames, frameAll [⟨[1, 2, 3, 4], true⟩] 4 = .ok frames ∧
      ¬ Delivers frames [[1, 2, 3, 4]] 4 := by
  refine ⟨[Outbound.frame ⟨[1,2,3,4],true⟩],rfl,fun h => ?_⟩
  have hsent : ∀ o ∈ [(⟨[1,2,3,4],true⟩ : Outbound)], o.message.length ≤ 4 := by simp
  have hlength := ((decodeMessages_frames hsent).1 h.buffered _ (mem_singleton_self _)).1
  simp [Outbound.payload,gzip] at hlength
  omega

end Courierust.Grpc
