import Courierust.Deflate.Failures
import Courierust.Grpc.Message
import Courierust.Lib.Run

/-!
# A streaming call

`GrpcHandler::handle` as the threads that it consists of. The serve thread runs the service, the
framing thread forwards its messages to the body, and the handler waits for the first message, for
the end of both threads or for the deadline, and answers. The transport sends the answer and the
body, and the trailers once the body is closed. A schedule is any list of steps of these threads.
-/

namespace Courierust.Grpc

open Http (HeaderMap HeaderValue)
open Str (Text)

/-! ### Services -/

/-- What a service does next, and how it goes on with what it is told. -/
inductive Action (σ : Type) where
  /-- `reqs.next()`. -/
  | next (k : Option (Except Error (List UInt8)) → σ)
  /-- `tx.send(..)` or `tx.send_result(..)`. -/
  | send (item : Except Error (List UInt8)) (k : Except Error Unit → σ)
  /-- `tx.fail(..)`. -/
  | fail (e : Error) (s : σ)
  /-- `tx.is_cancelled()`. -/
  | isCancelled (k : Bool → σ)
  /-- `tx.cancel()`. -/
  | cancel (s : σ)
  /-- A step of its own. -/
  | work (s : σ)
  /-- `serve` returns. -/
  | finish (result : Except Error Unit)
  | panic

/-- A `StreamingService`: its state for a method, and what it does in each state. -/
structure Service (σ : Type) where
  start : Text → σ
  act : σ → Action σ
  /-- A status code is a `u32`. -/
  code_lt : ∀ s e code, act s = .finish (.error e) → e.grpcCode = some code → code < 2 ^ 32

/-! ### Responses -/

inductive Content where
  | bytes (b : List UInt8)
  | stream
  deriving DecidableEq

/-- A `Response`. -/
structure Response where
  status : ℕ
  headers : HeaderMap
  trailers : Option HeaderMap
  content : Content
  deriving DecidableEq

def contentType : Text := "application/grpc".toList

def fieldOr (value fallback : Text) : HeaderValue :=
  if Http.isValidFieldText value then .text value else .text fallback

def grpcErrorResponse (code : ℕ) (message : Text) : Response where
  status := 200
  headers := ((({} : HeaderMap).insert "content-type".toList (.text contentType)).insert
    "grpc-status".toList (fieldOr (Nat.toDigits 10 code) "13".toList)).insert
    "grpc-message".toList (fieldOr message [])
  trailers := none
  content := .bytes []

def streamingResponse (acceptGzip : Bool) : Response where
  status := 200
  headers := (({} : HeaderMap).insert "content-type".toList (.text contentType)).insert
    "grpc-encoding".toList (.text (if acceptGzip then "gzip".toList else "identity".toList))
  trailers := some (({} : HeaderMap).insert "grpc-status".toList (.text "0".toList))
  content := .stream

def unsupportedResponse : Response where
  status := 415
  headers := ({} : HeaderMap).insert "content-type".toList (.text "text/plain".toList)
  trailers := none
  content := .bytes ("content-type must be application/grpc".toList.map fun c => c.toNat.toUInt8)

/-! ### Threads -/

abbrev Outcome := Except (ℕ × Text) Unit

/-- Where the serve thread stands, and whether the service has put anything on its channel. -/
inductive Serving (σ : Type) where
  /-- It was not started. -/
  | idle
  | running (s : σ) (sent : Bool)
  /-- `serve` has returned; the outcome is to be sent. -/
  | reporting (outcome : Outcome) (sent : Bool)
  /-- The outcome is sent; `started_tx3` is to be dropped. -/
  | releasing (outcome : Outcome) (sent : Bool)
  /-- What the closure owns is dropped. -/
  | ending (outcome : Outcome) (sent : Bool)

/-- What `serve` returned. -/
def Serving.outcome {σ : Type} : Serving σ → Option Outcome
  | .idle | .running _ _ => none
  | .reporting outcome _ | .releasing outcome _ | .ending outcome _ => some outcome

def Serving.sent {σ : Type} : Serving σ → Bool
  | .idle => false
  | .running _ sent | .reporting _ sent | .releasing _ sent | .ending _ sent => sent

inductive Framing where
  | receiving (first : Bool)
  /-- `recv_timeout` has timed out; the flag is to be read. -/
  | timedOut (first : Bool)
  /-- The first message is there; `Started` is to be sent. -/
  | starting (item : Except Error (List UInt8))
  | forwarding (item : Except Error (List UInt8))
  /-- The body was dropped; the flag is to be set. -/
  | abandoning
  /-- The loop was left, and what the closure owns is dropped. -/
  | exited

/-- Where `handle` stands. -/
inductive Handler where
  | starting
  /-- The time to wait is known. -/
  | arming (timeout : ℕ)
  | waiting (timer : Option ℕ)
  /-- Nothing was there; the clock is to be read. -/
  | looked (timer : Option ℕ)
  /-- `WaitOutcome::Finished`. -/
  | finished
  /-- `WaitOutcome::DeadlineExceeded`. -/
  | exceeded
  /-- The flag is set; the answer is to be given. -/
  | answering
  | responded (resp : Response)
  /-- `handle` has panicked. -/
  | panicked

structure Call (σ : Type) where
  now : ℕ
  deadline : Option ℕ
  acceptGzip : Bool
  maxMessageSize : ℕ
  requests : List (Except Error (List UInt8))
  /-- What is on the message channel, and whether its ends are alive. -/
  messages : List (Except Error (List UInt8)) := []
  msgTx : Bool := true
  msgRx : Bool := true
  cancelled : Bool := false
  /-- How often `Started` was sent and not received, and whether the two senders are alive. -/
  started : ℕ := 0
  startedTx2 : Bool := true
  startedTx3 : Bool := true
  result : Option Outcome := none
  resultTx : Bool := true
  /-- What is on the body channel, and whether its ends are alive. -/
  body : List (Except Error (List UInt8)) := []
  bodyTx : Bool := true
  bodyRx : Bool := true
  serve : Serving σ
  framing : Framing := .receiving true
  handler : Handler := .starting
  /-- The head and the trailers of the response that the peer has received to its end. -/
  received : Option (HeaderMap × Option HeaderMap) := none

namespace Call

variable {σ : Type}

def expired (c : Call σ) : Bool :=
  match c.deadline with
  | some d => d ≤ c.now
  | none => false

/-- `r.map_err(..)`: the code and the text of an error. -/
def report (result : Except Error Unit) : Outcome :=
  result.mapError fun e => (e.grpcCode.getD Status.internal.code, e.display.toList)

def serviceStep (c : Call σ) (sent : Bool) : Action σ → Call σ
  | .next k =>
    if c.expired then
      let e := Error.grpc Status.deadlineExceeded.code "deadline exceeded"
      { c with serve := .running (k (some (.error e))) sent }
    else { c with requests := c.requests.tail, serve := .running (k c.requests.head?) sent }
  | .send item k =>
    if c.msgRx then
      { c with messages := c.messages ++ [item], serve := .running (k (.ok ())) true }
    else
      let e := Error.canceled "body receiver dropped"
      { c with cancelled := true, serve := .running (k (.error e)) sent }
  | .fail e s =>
    if c.msgRx then { c with messages := c.messages ++ [.error e], serve := .running s true }
    else { c with serve := .running s sent }
  | .isCancelled k => { c with serve := .running (k c.cancelled) sent }
  | .cancel s => { c with cancelled := true, serve := .running s sent }
  | .work s => { c with serve := .running s sent }
  | .finish result => { c with serve := .reporting (report result) sent }
  | .panic =>
    let outcome := .error (Status.internal.code, "service handler panicked".toList)
    { c with serve := .reporting outcome sent }

def serveStep (service : Service σ) (c : Call σ) : Call σ :=
  match c.serve with
  | .idle => c
  | .running s sent => c.serviceStep sent (service.act s)
  | .reporting outcome sent => { c with result := some outcome, serve := .releasing outcome sent }
  | .releasing outcome sent => { c with startedTx3 := false, serve := .ending outcome sent }
  | .ending _ _ => c

def frameStep (c : Call σ) : Call σ :=
  match c.framing with
  | .receiving first =>
    match c.messages with
    | item :: rest =>
      { c with messages := rest, framing := if first then .starting item else .forwarding item }
    | [] => { c with framing := if c.msgTx then .timedOut first else .exited }
  | .timedOut first => { c with framing := if c.cancelled then .exited else .receiving first }
  | .starting item => { c with started := c.started + 1, framing := .forwarding item }
  | .forwarding item =>
    if c.bodyRx then
      let frame := item >>= fun raw => frameOutbound raw c.acceptGzip c.maxMessageSize
      { c with body := c.body ++ [frame], framing := .receiving false }
    else { c with framing := .abandoning }
  | .abandoning => { c with cancelled := true, framing := .exited }
  | .exited => c

/-- `handle` returns: the ends of the channels that it still has are dropped. -/
def respond (c : Call σ) (resp : Response) : Call σ :=
  { c with handler := .responded resp, bodyRx := c.bodyRx && resp.content = .stream }

/-- A step of `handle`, from the wait on. -/
def handleStep (c : Call σ) : Call σ :=
  match c.handler with
  | .starting =>
    match c.deadline with
    | some d =>
      if d ≤ c.now then
        c.respond (grpcErrorResponse Status.deadlineExceeded.code "deadline exceeded".toList)
      else { c with handler := .arming (d - c.now) }
    | none => { c with handler := .waiting none }
  | .arming timeout => { c with handler := .waiting (some (c.now + timeout)) }
  | .waiting timer =>
    if 0 < c.started then { c with started := c.started - 1 }.respond (streamingResponse c.acceptGzip)
    else if c.startedTx2 || c.startedTx3 then { c with handler := .looked timer }
    else { c with handler := .finished }
  | .looked timer =>
    match timer with
    | some t => { c with handler := if t ≤ c.now then .exceeded else .waiting (some t) }
    | none => { c with handler := .waiting none }
  | .finished =>
    match c.result with
    | some (.ok ()) => c.respond (streamingResponse c.acceptGzip)
    | some (.error (code, msg)) => c.respond (grpcErrorResponse code msg)
    | none =>
      if c.resultTx then c
      else c.respond (grpcErrorResponse Status.internal.code "service thread exited".toList)
  | .exceeded => { c with cancelled := true, handler := .answering }
  | .answering =>
    c.respond (grpcErrorResponse Status.deadlineExceeded.code "deadline exceeded".toList)
  | .responded _ | .panicked => c

/-- A step of the transport, for a POST: it sends the response, and the body as it arrives. An
error on the body resets the stream. -/
def transportStep (c : Call σ) : Call σ :=
  match c.handler with
  | .responded resp =>
    match resp.content with
    | .bytes _ => { c with received := some (resp.headers, resp.trailers) }
    | .stream =>
      if c.bodyRx then
        match c.body with
        | .ok _ :: rest => { c with body := rest }
        | .error _ :: rest => { c with body := rest, bodyRx := false }
        | [] =>
          if c.bodyTx then c
          else { c with received := some (resp.headers, resp.trailers), bodyRx := false }
      else c
  | _ => c

inductive Owned where
  | msgTx | resultTx | msgRx | startedTx2 | bodyTx

def drop (c : Call σ) (owned : Owned) : Call σ :=
  match owned, c.serve, c.framing with
  | .msgTx, .ending _ _, _ => { c with msgTx := false }
  | .resultTx, .ending _ _, _ => { c with resultTx := false }
  | .msgRx, _, .exited => { c with msgRx := false, messages := [] }
  | .startedTx2, _, .exited => { c with startedTx2 := false }
  | .bodyTx, _, .exited => { c with bodyTx := false }
  | _, _, _ => c

inductive Event where
  | serve | frame | handle | transport
  /-- Time passes. -/
  | tick (elapsed : ℕ)
  | drop (owned : Owned)
  /-- The transport gives up the body: the peer is gone. -/
  | disconnect

def step (service : Service σ) (c : Call σ) : Event → Call σ
  | .serve => c.serveStep service
  | .frame => c.frameStep
  | .handle => c.handleStep
  | .transport => c.transportStep
  | .tick elapsed => { c with now := c.now + elapsed }
  | .drop owned => c.drop owned
  | .disconnect => { c with bodyRx := false }

end Call

/-! ### Before the threads -/

/-- A request: its path, its headers and what `collect` makes of its body. -/
structure Request where
  uri : Text
  headers : HeaderMap
  body : Except Error (List UInt8)

/-- What `Deadline::parse` does. -/
inductive ParsedDeadline where
  | deadline (d : Option ℕ)
  | invalid (e : Error)
  /-- The value is not cut at a character. -/
  | panicked

/-- The nanoseconds of a unit of `grpc-timeout`. -/
def timeoutUnit (unit : Char) : Option ℕ :=
  if unit = 'H' then some 1000000000
  else if unit = 'M' then some (60 * 1000000000)
  else if unit = 'S' then some 1000000000
  else if unit = 'm' then some 1000000
  else if unit = 'u' then some 1000
  else if unit = 'n' then some 1
  else none

/-- `Deadline::parse`, at the time `now`. -/
def parseDeadline (headers : HeaderMap) (now : ℕ) : ParsedDeadline :=
  let invalid (msg : String) := ParsedDeadline.invalid (Error.grpc Status.invalidArgument.code msg)
  match headers.get "grpc-timeout".toList with
  | none => .deadline none
  | some value =>
    match value.toStr with
    | none => invalid "malformed grpc-timeout value"
    | some s =>
      -- The length is that of the octets.
      if (s.flatMap String.utf8EncodeChar).length < 2 then
        invalid "grpc-timeout must be a value plus a unit"
      else
        let unit := s.getLastD ' '
        if 0x80 ≤ unit.toNat then .panicked
        else
          match Str.parseUnsigned (2 ^ 64 - 1) s.dropLast with
          | none => invalid "bad grpc-timeout value"
          | some n =>
            if 99999999 < n then invalid "grpc-timeout value too large"
            else
              match timeoutUnit unit with
              | none => invalid "bad grpc-timeout unit"
              | some nanos => .deadline (some (now + n * nanos))

def acceptsGzip (headers : HeaderMap) : Bool :=
  match headers.get "grpc-accept-encoding".toList with
  | none => false
  | some value =>
    (Str.split ',' (Str.toAsciiLowercase (value.toStr.getD []))).any fun c =>
      Str.trim c = "gzip".toList

def isGrpc (headers : HeaderMap) : Bool :=
  match headers.get "content-type".toList with
  | none => false
  | some value => contentType.isPrefixOf (value.toStr.getD [])

def answered {σ : Type} (now : ℕ) (handler : Handler) : Call σ where
  now := now
  deadline := none
  acceptGzip := false
  maxMessageSize := 0
  requests := []
  serve := .idle
  handler := handler

/-- `handle` up to the threads. The clock is read at `now` and again `elapsed` later. -/
def dispatch {σ : Type} (service : Service σ) (maxMessageSize : ℕ) (req : Request)
    (now elapsed : ℕ) : Call σ :=
  let refuse (resp : Response) := answered (now + elapsed) (.responded resp)
  if !isGrpc req.headers then refuse unsupportedResponse
  else
    match parseDeadline req.headers now with
    | .panicked => answered (now + elapsed) .panicked
    | .invalid e =>
      refuse (grpcErrorResponse (e.grpcCode.getD Status.internal.code) e.display.toList)
    | .deadline deadline =>
      if deadline.any (· ≤ now + elapsed) then
        refuse (grpcErrorResponse Status.deadlineExceeded.code "deadline exceeded".toList)
      else
        match req.body with
        | .error e => refuse (grpcErrorResponse Status.internal.code e.display.toList)
        | .ok raw =>
          match decodeMessages raw maxMessageSize with
          | .error e =>
            refuse (grpcErrorResponse (e.grpcCode.getD Status.internal.code) e.display.toList)
          | .ok messages =>
            { now := now + elapsed, deadline, acceptGzip := acceptsGzip req.headers, maxMessageSize
              requests := messages, serve := .running (service.start req.uri) false }

/-! ### The status that is received -/

namespace Call

variable {σ : Type}

/-- The `grpc-status` that the peer has received. -/
def status (c : Call σ) : Option ℕ := c.received.bind fun head => receivedStatus head.2 head.1

/-- The status is 0 only if `serve` returned `Ok`. Another one is the code that `serve` returned,
unless the service was not even started, or the deadline has passed. -/
def Faithful (c : Call σ) : Prop :=
  ∀ code, c.status = some code →
    (code = Status.ok.code → c.serve.outcome = some (.ok ())) ∧
    (code ≠ Status.ok.code → (∃ msg, c.serve.outcome = some (.error (code, msg))) ∨
      (code = Status.deadlineExceeded.code ∧ c.expired = true) ∨ c.serve = .idle)

end Call

/-- A step of the service that does not deceive the handler: once anything was put on the channel
it neither fails nor panics, it does not call an error `OK`, and it does not cancel itself. -/
def Candid {σ : Type} (service : Service σ) (c : Call σ) : Call.Event → Prop
  | .serve =>
    ∀ s sent, c.serve = .running s sent →
      match service.act s with
      | .finish (.error e) => sent = false ∧ e.grpcCode ≠ some Status.ok.code
      | .panic => sent = false
      | .cancel _ => False
      | _ => True
  | _ => True

/-! ### What is in the header blocks -/

variable {resp : Response} {handler : Handler} {code : ℕ}

theorem isDigit_toDigits {n : ℕ} {c : Char} (h : c ∈ Nat.toDigits 10 n) :
    48 ≤ c.toNat ∧ c.toNat ≤ 57 := by
  have hdigit := Nat.isDigit_of_mem_toDigits (by decide) (by decide) h
  rw [Char.isDigit,Bool.and_eq_true,decide_eq_true_eq,decide_eq_true_eq] at hdigit
  exact ⟨hdigit.1,hdigit.2⟩

theorem parseUnsigned_toDigits {bound n : ℕ} (h : n ≤ bound) :
    Str.parseUnsigned bound (Nat.toDigits 10 n) = some n := by
  obtain ⟨digits,hdigits⟩ : ∃ digits, digits = Nat.toDigits 10 n := ⟨_,rfl⟩
  have hdigit : ∀ c ∈ digits, 48 ≤ c.toNat ∧ c.toNat ≤ 57 := by
    intro c hc
    exact isDigit_toDigits (hdigits ▸ hc)
  have hall : digits.all Str.isDigit = true :=
    List.all_eq_true.2 fun c hc => decide_eq_true (hdigit c hc)
  have hvalue : digits.foldl (fun n d => 10*n+(d.toNat-48)) 0 = n := by
    rw [hdigits]
    exact Nat.ofDigitChars_toDigits (by decide) (by decide)
  rw [← hdigits]
  cases hcons : digits with
  | nil => exact absurd (hdigits.symm.trans hcons) Nat.toDigits_ne_nil
  | cons d rest =>
    have hplus : d ≠ '+' := by
      rintro rfl
      exact absurd (hdigit '+' (by rw [hcons]; exact List.mem_cons_self)).1 (by decide)
    rw [Str.parseUnsigned,← hcons,hall,if_neg (by simp [hcons])]
    · rw [hvalue,if_pos h]
    · simpa using hplus

theorem grpcStatus_error (h : code < 2^32) (message : Text) :
    grpcStatus (grpcErrorResponse code message).headers = some code := by
  have hvalid : Http.isValidFieldText (Nat.toDigits 10 code) = true := by
    refine List.all_eq_true.2 fun c hc => ?_
    obtain ⟨hlo,hhi⟩ := isDigit_toDigits hc
    simp
    omega
  rw [grpcStatus,HeaderMap.getStr,HeaderMap.get_eq_head?,grpcErrorResponse]
  rw [HeaderMap.getAll_insert,if_neg (by decide),HeaderMap.getAll_insert,if_pos (by decide),
    fieldOr,if_pos hvalid]
  exact parseUnsigned_toDigits (by omega)

/-! ### Invariant -/

def Framing.active : Framing → Bool
  | .receiving first | .timedOut first => !first
  | .starting _ | .forwarding _ | .abandoning => true
  | .exited => false

def Handler.pending : Handler → Bool
  | .starting | .arming _ | .waiting _ | .looked _ | .finished => true
  | _ => false

def Handler.gone : Handler → Bool
  | .answering => true
  | .responded resp => resp.content ≠ .stream
  | _ => false

theorem Handler.gone_of_pending (h : handler.pending = true) :
    handler.gone = false := by
  cases handler <;> first | rfl | cases h

section
variable {σ : Type}

def Serving.released : Serving σ → Bool
  | .releasing _ _ | .ending _ _ => true
  | _ => false

structure Serving.Le (a b : Serving σ) : Prop where
  outcome : ∀ m, a.outcome = some m → b.outcome = some m
  sent : a.sent = true → b.sent = true
  idle : a = .idle → b = .idle

theorem Serving.Le.refl (a : Serving σ) : Serving.Le a a := ⟨fun _ h => h,id,id⟩

/-- The response is one that the serve thread and the clock justify. -/
inductive Answers (serve : Serving σ) (expired : Bool) : Response → Prop
  | streaming (acceptGzip : Bool) (h : serve.sent = true ∨ serve.outcome = some (.ok ())) :
      Answers serve expired (streamingResponse acceptGzip)
  | error (code : ℕ) (msg : Text) (hcode : code ≠ Status.ok.code) (hlt : code < 2 ^ 32)
      (h : serve.outcome = some (.error (code, msg)) ∨
        (code = Status.deadlineExceeded.code ∧ expired = true) ∨ serve = .idle) :
      Answers serve expired (grpcErrorResponse code msg)
  | unsupported : Answers serve expired unsupportedResponse

theorem Answers.mono {serve serve' : Serving σ} {expired expired' : Bool}
    (h : Answers serve expired resp) (hserve : Serving.Le serve serve')
    (hexpired : expired = true → expired' = true) : Answers serve' expired' resp := by
  cases h with
  | streaming acceptGzip h =>
    refine .streaming acceptGzip ?_
    exact h.imp hserve.sent (hserve.outcome _)
  | error code msg hcode hlt h =>
    refine .error code msg hcode hlt ?_
    obtain houtcome | ⟨hdeadline,hpassed⟩ | hidle := h
    · exact .inl (hserve.outcome _ houtcome)
    · exact .inr (.inl ⟨hdeadline,hexpired hpassed⟩)
    · exact .inr (.inr (hserve.idle hidle))
  | unsupported => exact .unsupported

namespace Call

def Knows (c : Call σ) : Handler → Prop
  | .arming timeout => ∃ d, c.deadline = some d ∧ d ≤ c.now + timeout
  | .waiting timer | .looked timer => ∀ t, timer = some t → ∃ d, c.deadline = some d ∧ d ≤ t
  | .finished => c.startedTx3 = false
  | .exceeded | .answering => c.expired = true
  | .responded resp => Answers c.serve c.expired resp
  | .starting | .panicked => True

structure Sound (c : Call σ) : Prop where
  sent : c.messages ≠ [] ∨ c.framing.active = true ∨ 0 < c.started → c.serve.sent = true
  failed : ∀ code msg, c.serve.outcome = some (.error (code, msg)) →
    c.serve.sent = false ∧ code ≠ Status.ok.code ∧ code < 2 ^ 32
  msgTx : c.msgTx = false → c.serve.outcome ≠ none
  startedTx3 : c.startedTx3 = false → c.serve.released = true
  result : c.handler.pending = true → c.serve.released = true → c.result = c.serve.outcome
  cancelled : c.cancelled = true →
    c.handler.gone = true ∨ c.framing = .exited ∨ c.bodyRx = false
  exited : c.framing = .exited →
    c.serve.outcome ≠ none ∨ c.handler.gone = true ∨ c.bodyRx = false
  abandoning : c.framing = .abandoning → c.bodyRx = false
  msgRx : c.msgRx = false → c.framing = .exited
  bodyTx : c.bodyTx = false → c.framing = .exited
  handler : c.Knows c.handler
  received : c.Faithful

variable {c c' : Call σ}

theorem Faithful.mono (h : c.Faithful) (hreceived : c'.received = c.received)
    (hserve : Serving.Le c.serve c'.serve) (hexpired : c.expired = true → c'.expired = true) :
    c'.Faithful := by
  intro code hstatus
  rw [status,hreceived] at hstatus
  obtain ⟨hok,hother⟩ := h code hstatus
  refine ⟨fun hcode => hserve.outcome _ (hok hcode),fun hcode => ?_⟩
  obtain ⟨msg,houtcome⟩ | ⟨hdeadline,hpassed⟩ | hidle := hother hcode
  · exact .inl ⟨msg,hserve.outcome _ houtcome⟩
  · exact .inr (.inl ⟨hdeadline,hexpired hpassed⟩)
  · exact .inr (.inr (hserve.idle hidle))

theorem expired_mono (hdeadline : c'.deadline = c.deadline) (hnow : c.now ≤ c'.now)
    (h : c.expired = true) : c'.expired = true := by
  rw [expired] at h ⊢
  rw [hdeadline]
  cases hd : c.deadline with
  | none => simp [hd] at h
  | some d =>
    rw [hd] at h
    exact decide_eq_true ((of_decide_eq_true h).trans hnow)

theorem Knows.mono (h : c.Knows handler) (hdeadline : c'.deadline = c.deadline)
    (hnow : c.now ≤ c'.now) (hstarted : c.startedTx3 = false → c'.startedTx3 = false)
    (hserve : Serving.Le c.serve c'.serve) : c'.Knows handler := by
  have hexpired := expired_mono hdeadline hnow
  cases handler with
  | starting => trivial
  | arming timeout =>
    obtain ⟨d,hd,hle⟩ := h
    exact ⟨d,hdeadline.trans hd,hle.trans (Nat.add_le_add_right hnow timeout)⟩
  | waiting timer | looked timer =>
    intro t ht
    rw [hdeadline]
    exact h t ht
  | finished => exact hstarted h
  | exceeded | answering => exact hexpired h
  | responded resp => exact Answers.mono h hserve hexpired
  | panicked => trivial

section

variable (h : Sound c)
include h

theorem Sound.tick (elapsed : ℕ) : Sound { c with now := c.now+elapsed } :=
  { h with
    handler := h.handler.mono rfl (Nat.le_add_right _ _) id (.refl _)
    received := h.received.mono rfl (.refl _) (expired_mono rfl (Nat.le_add_right _ _)) }

theorem Sound.disconnect : Sound { c with bodyRx := false } :=
  { h with
    cancelled := fun _ => .inr (.inr rfl)
    exited := fun _ => .inr (.inr rfl)
    abandoning := fun _ => rfl }

theorem Sound.drop (owned : Owned) : Sound (c.drop owned) := by
  rw [Call.drop.eq_def]
  split
  · next hserve =>
    refine { h with msgTx := fun _ => ?_ }
    rw [hserve]
    simp [Serving.outcome]
  · exact { h with }
  · next hexited =>
    exact { h with
      sent := fun hsent => h.sent (hsent.imp (fun hne => absurd rfl hne) id)
      msgRx := fun _ => hexited }
  · exact { h with }
  · next hexited => exact { h with bodyTx := fun _ => hexited }
  · exact h

/-- The framing thread goes on. It ends only if the call has ended or the body is not wanted. -/
theorem Sound.withFraming (framing : Framing) (hrunning : c.framing ≠ .exited)
    (hactive : framing.active = true → c.serve.sent = true)
    (hexited : framing = .exited →
      c.serve.outcome ≠ none ∨ c.handler.gone = true ∨ c.bodyRx = false)
    (habandoning : framing = .abandoning → c.bodyRx = false) :
    Sound { c with framing } :=
  { h with
    sent := by
      rintro (hmessages | hframing | hstarted)
      · exact h.sent (.inl hmessages)
      · exact hactive hframing
      · exact h.sent (.inr (.inr hstarted))
    cancelled := fun hcancelled =>
      (h.cancelled hcancelled).imp_right fun hor => .inr (hor.resolve_left hrunning)
    exited := hexited
    abandoning := habandoning
    msgRx := fun hmsgRx => absurd (h.msgRx hmsgRx) hrunning
    bodyTx := fun hbodyTx => absurd (h.bodyTx hbodyTx) hrunning }

theorem Sound.frameStep : Sound c.frameStep := by
  have hactive := fun hactive => h.sent (.inr (.inl hactive))
  by_cases hrunning : c.framing = .exited
  · rwa [Call.frameStep,hrunning]
  rw [Call.frameStep]
  cases hframing : c.framing with
  | receiving first =>
    rw [hframing] at hactive
    dsimp only
    split
    · next item rest hmessages =>
      have hsent : c.serve.sent = true := h.sent (.inl (by rw [hmessages]; simp))
      exact { h.withFraming (if first then .starting item else .forwarding item) hrunning
        (fun _ => hsent) (by split_ifs <;> simp) (by split_ifs <;> simp) with
        sent := fun _ => hsent }
    · refine h.withFraming _ hrunning (fun hnew => ?_) (fun hexited => .inl ?_) (by split_ifs <;> simp)
      · split at hnew
        · exact hactive hnew
        · cases hnew
      · split at hexited
        · cases hexited
        · next hmsgTx => exact h.msgTx (Bool.eq_false_iff.2 hmsgTx)
  | timedOut first =>
    rw [hframing] at hactive
    refine h.withFraming _ hrunning (fun hnew => ?_) (fun hexited => ?_) (by split_ifs <;> simp)
    · split at hnew
      · cases hnew
      · exact hactive hnew
    · split at hexited
      · next hcancelled =>
        exact .inr ((h.cancelled hcancelled).imp_right fun hor => hor.resolve_left hrunning)
      · cases hexited
  | starting item =>
    have hsent : c.serve.sent = true := hactive (by rw [hframing]; rfl)
    exact { h.withFraming (.forwarding item) hrunning (fun _ => hsent) (by simp) (by simp) with
      sent := fun _ => hsent }
  | forwarding item =>
    have hsent : c.serve.sent = true := hactive (by rw [hframing]; rfl)
    dsimp only
    split
    · exact { h.withFraming (.receiving false) hrunning (fun _ => hsent) (by simp) (by simp) with }
    · next hbodyRx =>
      exact h.withFraming .abandoning hrunning (fun _ => hsent) (by simp)
        fun _ => Bool.eq_false_iff.2 hbodyRx
  | abandoning =>
    have hbodyRx := h.abandoning hframing
    exact { h.withFraming .exited hrunning (by simp [Framing.active]) (fun _ => .inr (.inr hbodyRx))
      (by simp) with cancelled := fun _ => .inr (.inr hbodyRx) }
  | exited => exact absurd hframing hrunning

/-- `handle` returns a response that the state justifies: with the channel, if it has not been
given up, or without it. -/
theorem Sound.respond (hresp : Answers c.serve c.expired resp)
    (hgone : resp.content = .stream → c.handler.gone = false) : Sound (c.respond resp) := by
  have hkept : c.handler.gone = true → (Handler.responded resp).gone = true := by
    intro hold
    refine decide_eq_true fun hstream => ?_
    rw [hgone hstream] at hold
    cases hold
  have hbodyRx : c.bodyRx = false → (c.respond resp).bodyRx = false := by
    intro hfalse
    rw [Call.respond,hfalse,Bool.false_and]
  exact { h with
    result := by
      intro hpending
      cases hpending
    cancelled := fun hcancelled => (h.cancelled hcancelled).imp hkept (.imp_right hbodyRx)
    exited := fun hexited => (h.exited hexited).imp_right (.imp hkept hbodyRx)
    abandoning := fun habandoning => hbodyRx (h.abandoning habandoning)
    handler := hresp }

theorem Sound.withHandler (hpending : c.handler.pending = true) (handler : Handler)
    (hknows : c.Knows handler) : Sound { c with handler } := by
  have hgone : ¬ c.handler.gone = true := by
    rw [Handler.gone_of_pending hpending]
    decide
  exact { h with
    result := fun _ => h.result hpending
    cancelled := fun hcancelled => .inr ((h.cancelled hcancelled).resolve_left hgone)
    exited := fun hexited => (h.exited hexited).imp_right fun hor => .inr (hor.resolve_left hgone)
    handler := hknows }

end

theorem answers_deadline (h : c.expired = true) : Answers c.serve c.expired
    (grpcErrorResponse Status.deadlineExceeded.code "deadline exceeded".toList) :=
  .error _ _ (by decide) (by decide) (.inr (.inl ⟨rfl,h⟩))

theorem expired_of_le {d : ℕ} (hdeadline : c.deadline = some d) (h : d ≤ c.now) :
    c.expired = true := by
  rw [expired,hdeadline]
  exact decide_eq_true h

theorem Sound.respond_finished (h : Sound c) (hhandler : c.handler = .finished) :
    ∃ outcome, c.result = some outcome ∧ c.serve.outcome = some outcome := by
  have hknows := h.handler
  rw [hhandler] at hknows
  have hreleased := h.startedTx3 hknows
  have hresult := h.result (by rw [hhandler]; rfl) hreleased
  cases hserve : c.serve with
  | idle | running _ _ | reporting _ _ =>
    rw [hserve] at hreleased
    cases hreleased
  | releasing outcome sent | ending outcome sent =>
    rw [hserve] at hresult
    exact ⟨outcome,hresult,rfl⟩

theorem Sound.handleStep (h : Sound c) : Sound c.handleStep := by
  have hknows := h.handler
  rw [Call.handleStep]
  cases hhandler : c.handler with
  | starting =>
    have hpending : c.handler.pending = true := by rw [hhandler]; rfl
    dsimp only
    split
    · next d hdeadline =>
      split
      · next hpassed =>
        exact h.respond (answers_deadline (expired_of_le hdeadline hpassed)) fun _ =>
          Handler.gone_of_pending hpending
      · exact h.withHandler hpending _ ⟨d,hdeadline,by omega⟩
    · exact h.withHandler hpending _ fun t ht => by cases ht
  | arming timeout =>
    rw [hhandler] at hknows
    refine h.withHandler (by rw [hhandler]; rfl) _ fun t ht => ?_
    cases ht
    exact hknows
  | waiting timer =>
    have hpending : c.handler.pending = true := by rw [hhandler]; rfl
    rw [hhandler] at hknows
    dsimp only
    split
    · next hstarted =>
      have hsent := h.sent (.inr (.inr hstarted))
      have hsound : Sound { c with started := c.started-1 } := { h with sent := fun _ => hsent }
      exact hsound.respond (.streaming _ (.inl hsent)) fun _ => Handler.gone_of_pending hpending
    · split
      · exact h.withHandler hpending _ hknows
      · next htx =>
        rw [Bool.or_eq_true,not_or,Bool.not_eq_true,Bool.not_eq_true] at htx
        exact h.withHandler hpending .finished htx.2
  | looked timer =>
    have hpending : c.handler.pending = true := by rw [hhandler]; rfl
    rw [hhandler] at hknows
    cases timer with
    | none => exact h.withHandler hpending _ fun t ht => by cases ht
    | some t =>
      refine h.withHandler hpending _ ?_
      split
      · next hpassed =>
        obtain ⟨d,hdeadline,hle⟩ := hknows t rfl
        exact expired_of_le hdeadline (hle.trans hpassed)
      · exact hknows
  | finished =>
    have hgone : c.handler.gone = false := by rw [hhandler]; rfl
    obtain ⟨outcome,hresult,houtcome⟩ := h.respond_finished hhandler
    rw [hresult]
    rcases outcome with ⟨code,msg⟩ | ⟨⟩
    · obtain ⟨_,hcode,hlt⟩ := h.failed code msg houtcome
      exact h.respond (.error code msg hcode hlt (.inl houtcome)) fun _ => hgone
    · exact h.respond (.streaming _ (.inr houtcome)) fun _ => hgone
  | exceeded =>
    rw [hhandler] at hknows
    exact { h with
      result := by
        intro hpending
        cases hpending
      cancelled := fun _ => .inl rfl
      exited := fun hexited => (h.exited hexited).imp_right fun _ => .inl rfl
      handler := hknows }
  | answering =>
    rw [hhandler] at hknows
    exact h.respond (answers_deadline hknows) (by simp [grpcErrorResponse])
  | responded | panicked => exact h

theorem Sound.faithful (h : Sound c) (hresp : Answers c.serve c.expired resp)
    (hstream : resp.content = .stream → c.serve.outcome ≠ none) :
    Faithful { c with received := some (resp.headers,resp.trailers) } := by
  intro code hstatus
  change receivedStatus resp.trailers resp.headers = some code at hstatus
  cases hresp with
  | streaming acceptGzip hsent =>
    have hok : code = Status.ok.code := by
      cases acceptGzip <;> exact (Option.some.inj hstatus).symm
    subst hok
    refine ⟨fun _ => ?_,fun hcode => absurd rfl hcode⟩
    cases houtcome : c.serve.outcome with
    | none => exact absurd houtcome (hstream rfl)
    | some outcome =>
      rcases outcome with ⟨code,msg⟩ | ⟨⟩
      · rw [(h.failed code msg houtcome).1,houtcome] at hsent
        simp at hsent
      · rfl
  | error code' msg hcode hlt hreason =>
    rw [receivedStatus,grpcStatus_error hlt] at hstatus
    obtain rfl : code' = code := Option.some.inj hstatus
    exact ⟨fun hok => absurd hok hcode,fun _ => hreason.imp_left fun houtcome => ⟨msg,houtcome⟩⟩
  | unsupported =>
    cases hstatus

theorem Sound.transportStep (h : Sound c) : Sound c.transportStep := by
  have hknows := h.handler
  rw [Call.transportStep]
  split
  · next resp hhandler =>
    rw [hhandler] at hknows
    split
    · next hcontent =>
      exact { h with received := h.faithful hknows (by rw [hcontent]; simp) }
    · next hcontent =>
      split
      · next hbodyRx =>
        have hdisconnect := h.disconnect
        split
        · exact { h with }
        · exact { hdisconnect with }
        split
        · exact h
        · next hbodyTx =>
          have hgone : ¬ c.handler.gone = true := by
            rw [hhandler,Handler.gone,hcontent]
            decide
          -- The body is closed and was not given up, so the service has returned.
          have houtcome : c.serve.outcome ≠ none :=
            (h.exited (h.bodyTx (Bool.eq_false_iff.2 hbodyTx))).resolve_right fun hor =>
              hor.elim hgone (by rw [hbodyRx]; decide)
          exact { hdisconnect with received := h.faithful hknows fun _ => houtcome }
      · exact h
  · exact h

variable {sent : Bool} {s : σ} {service : Service σ}

theorem Sound.withService (h : Sound c) (hserve : c.serve = .running s sent) (serve : Serving σ)
    (hsent : sent = true → serve.sent = true) (hreleased : serve.released = false)
    (hfailed : ∀ code msg, serve.outcome = some (.error (code,msg)) →
      serve.sent = false ∧ code ≠ Status.ok.code ∧ code < 2^32) : Sound { c with serve } := by
  have hle : Serving.Le c.serve serve := by
    rw [hserve]
    exact ⟨fun m hm => (by cases hm),hsent,fun hidle => (by cases hidle)⟩
  have hbefore : c.serve.released = false := by
    rw [hserve]
    rfl
  exact { h with
    sent := fun hor => hle.sent (h.sent hor)
    failed := hfailed
    msgTx := fun hmsgTx => absurd (by rw [hserve]; rfl) (h.msgTx hmsgTx)
    startedTx3 := fun hstarted => by rw [h.startedTx3 hstarted] at hbefore; cases hbefore
    result := fun _ hnow => by rw [hreleased] at hnow; cases hnow
    exited := fun hexited => .inr ((h.exited hexited).resolve_left (by rw [hserve]; simp [Serving.outcome]))
    handler := h.handler.mono rfl le_rfl id hle
    received := h.received.mono rfl hle (expired_mono rfl le_rfl) }

theorem Sound.running (h : Sound c) (hserve : c.serve = .running s sent) (s' : σ) {sent' : Bool}
    (hsent : sent = true → sent' = true) : Sound { c with serve := .running s' sent' } :=
  h.withService hserve _ hsent rfl fun code msg houtcome => by cases houtcome

theorem Sound.serviceStep (h : Sound c) (hserve : c.serve = .running s sent)
    (hcandid : Candid service c .serve) : Sound (c.serviceStep sent (service.act s)) := by
  have hact := hcandid s sent hserve
  cases haction : service.act s with
  | next k =>
    rw [Call.serviceStep]
    split
    · exact h.running hserve _ id
    · exact { h.running hserve _ id with }
  | send item k =>
    rw [Call.serviceStep]
    split
    · exact { h.running hserve (k (.ok ())) fun _ => rfl with sent := fun _ => rfl }
    · next hmsgRx =>
      exact { h.running hserve _ id with
        cancelled := fun _ => .inr (.inl (h.msgRx (Bool.eq_false_iff.2 hmsgRx))) }
  | fail e s' =>
    rw [Call.serviceStep]
    split
    · exact { h.running hserve s' fun _ => rfl with sent := fun _ => rfl }
    · exact h.running hserve _ id
  | isCancelled k => exact h.running hserve _ id
  | cancel s' =>
    rw [haction] at hact
    exact hact.elim
  | work s' => exact h.running hserve _ id
  | finish result =>
    rw [haction] at hact
    refine h.withService hserve _ id rfl fun code msg houtcome => ?_
    cases result with
    | ok u => cases houtcome
    | error e =>
      obtain ⟨hsent,hcode⟩ := hact
      obtain ⟨rfl,_⟩ := Prod.mk.inj (Except.error.inj (Option.some.inj houtcome))
      refine ⟨hsent,?_,?_⟩
      · cases hgrpc : e.grpcCode with
        | none => decide
        | some code =>
          rintro rfl
          exact hcode hgrpc
      · cases hgrpc : e.grpcCode with
        | none => decide
        | some code => exact service.code_lt s e code haction hgrpc
  | panic =>
    rw [haction] at hact
    refine h.withService hserve _ id rfl fun code msg houtcome => ?_
    obtain ⟨rfl,_⟩ := Prod.mk.inj (Except.error.inj (Option.some.inj houtcome))
    exact ⟨hact,by decide,by decide⟩

theorem Sound.proceed (h : Sound c) {outcome : Outcome}
    (houtcome : c.serve.outcome = some outcome) (hsent : c.serve.sent = sent) (serve : Serving σ)
    (houtcome' : serve.outcome = some outcome) (hsent' : serve.sent = sent)
    (hreleased : serve.released = true) (result : Option Outcome)
    (hresult : c.handler.pending = true → result = some outcome) (startedTx3 : Bool)
    (hstarted : c.startedTx3 = false → startedTx3 = false) :
    Sound { c with result, startedTx3, serve } := by
  have hle : Serving.Le c.serve serve := by
    refine ⟨fun m hm => ?_,fun h => ?_,fun hidle => ?_⟩
    · exact houtcome'.trans (houtcome.symm.trans hm)
    · exact hsent'.trans (hsent.symm.trans h)
    · rw [hidle] at houtcome
      cases houtcome
  exact { h with
    sent := fun hor => hle.sent (h.sent hor)
    failed := fun code msg hfailed => by
      have hbefore := houtcome.trans (houtcome'.symm.trans hfailed)
      obtain ⟨hfalse,hcode⟩ := h.failed code msg hbefore
      exact ⟨hsent'.trans (hsent.symm.trans hfalse),hcode⟩
    msgTx := fun _ => by rw [houtcome']; simp
    startedTx3 := fun _ => hreleased
    result := fun hpending _ => (hresult hpending).trans houtcome'.symm
    exited := fun _ => .inl (by rw [houtcome']; simp)
    handler := h.handler.mono rfl le_rfl hstarted hle
    received := h.received.mono rfl hle (expired_mono rfl le_rfl) }

theorem Sound.serveStep (h : Sound c) (hcandid : Candid service c .serve) :
    Sound (c.serveStep service) := by
  rw [Call.serveStep]
  cases hserve : c.serve with
  | idle => exact h
  | running s sent => exact h.serviceStep hserve hcandid
  | reporting outcome sent =>
    exact h.proceed (by rw [hserve]; rfl) (by rw [hserve]; rfl) (.releasing outcome sent) rfl rfl rfl
      (some outcome) (fun _ => rfl) _ id
  | releasing outcome sent =>
    refine h.proceed (by rw [hserve]; rfl) (by rw [hserve]; rfl) (.ending outcome sent) rfl rfl rfl
      _ (fun hpending => ?_) false fun _ => rfl
    have hresult := h.result hpending (by rw [hserve]; rfl)
    rwa [hserve] at hresult
  | ending outcome sent => exact h

theorem Sound.step (h : Sound c) {event : Event} (hcandid : Candid service c event) :
    Sound (c.step service event) := by
  cases event with
  | serve => exact h.serveStep hcandid
  | frame => exact h.frameStep
  | handle => exact h.handleStep
  | transport => exact h.transportStep
  | tick elapsed => exact h.tick elapsed
  | drop owned => exact h.drop owned
  | disconnect => exact h.disconnect

end Call

/-! ### Calls that are refused -/

open Deflate (Rejects)

theorem rejects_readFrameHeader (buf : List UInt8) (max : ℕ) : Rejects (readFrameHeader buf max) := by
  have hflag : Rejects (compressedFlag (buf.getD 0 0)) := by
    rw [compressedFlag]
    split_ifs <;> simp
  rw [readFrameHeader]
  split_ifs with hshort
  · exact .protocol _
  generalize compressedFlag (buf.getD 0 0) = flag at hflag ⊢
  cases flag with
  | error e => exact hflag.error
  | ok compressed =>
    dsimp only
    split_ifs <;> simp

theorem rejects_decodePayload (compressed : Bool) (payload : List UInt8) (max : ℕ) :
    Rejects (decodePayload compressed payload max) := by
  rw [decodePayload]
  split_ifs
  · exact Deflate.rejects_gunzip payload max
  · exact .ok _

theorem rejects_decodeMessages (raw : List UInt8) (max : ℕ) : Rejects (decodeMessages raw max) := by
  fun_induction decodeMessages raw max with
  | case1 => exact .ok _
  | case2 raw _ e hheader =>
    exact (rejects_readFrameHeader raw max).of_eq hheader
  | case3 => exact .protocol _
  | case4 raw _ compressed len hheader _ e hpayload =>
    exact (rejects_decodePayload compressed ((raw.drop 5).take len) max).of_eq hpayload
  | case5 raw _ compressed len hheader _ plain hpayload ih => exact ih.map _

variable {e : Error}

theorem sound_fresh {serve : Serving σ} (houtcome : serve.outcome = none)
    (hreleased : serve.released = false) (now : ℕ) (deadline : Option ℕ) (acceptGzip : Bool)
    (maxMessageSize : ℕ) (requests : List (Except Error (List UInt8)))
    (hknows : Call.Knows { now, deadline, acceptGzip, maxMessageSize, requests, serve } handler) :
    Call.Sound { now, deadline, acceptGzip, maxMessageSize, requests, serve, handler } where
  sent := by simp [Framing.active]
  failed := fun code msg hfailed => by
    rw [houtcome] at hfailed
    cases hfailed
  msgTx := by simp
  startedTx3 := by simp
  result := fun _ hnow => by
    rw [hreleased] at hnow
    cases hnow
  cancelled := by simp
  exited := by simp
  abandoning := by simp
  msgRx := by simp
  bodyTx := by simp
  handler := hknows.mono rfl le_rfl id (.refl _)
  received := fun code hstatus => by cases hstatus

theorem sound_answered (hresp : Answers (.idle : Serving σ) false resp) (now : ℕ) :
    Call.Sound (answered now (.responded resp) : Call σ) :=
  sound_fresh rfl rfl _ _ _ _ _ hresp

theorem sound_refused (hcode : code ≠ Status.ok.code) (hlt : code < 2^32) (msg : Text)
    (now : ℕ) : Call.Sound (answered now (.responded (grpcErrorResponse code msg)) : Call σ) :=
  sound_answered (.error code msg hcode hlt (.inr (.inr rfl))) now

theorem sound_dispatch (service : Service σ) (max : ℕ) (req : Request) (now elapsed : ℕ) :
    (dispatch service max req now elapsed).Sound := by
  rw [dispatch]
  split
  · exact sound_answered .unsupported _
  split
  · exact sound_fresh rfl rfl _ _ _ _ _ trivial
  · next e hinvalid =>
    have hcode : e.grpcCode = some Status.invalidArgument.code := by
      rw [parseDeadline] at hinvalid
      dsimp only at hinvalid
      repeat' split at hinvalid
      all_goals cases hinvalid
      all_goals rfl
    rw [hcode]
    exact sound_refused (by decide) (by decide) _ _
  · next deadline hdeadline =>
    split
    · exact sound_refused (by decide) (by decide) _ _
    split
    · exact sound_refused (by decide) (by decide) _ _
    · next raw hbody =>
      have hdecode := rejects_decodeMessages raw max
      split
      · next e herror =>
        have hnone : e.grpcCode = none := by
          rw [Error.grpcCode]
          obtain hkind | hkind := hdecode e herror <;> rw [hkind]
        rw [hnone]
        exact sound_refused (by decide) (by decide) _ _
      · exact sound_fresh rfl rfl _ _ _ _ _ trivial

/-! ### Fidelity -/

/-- For every service, every request and every schedule whose steps of the service are candid, the
status that the peer receives is the one of the service. -/
theorem status_faithful (service : Service σ) (max : ℕ) (req : Request) (now elapsed : ℕ)
    (schedule : List Call.Event)
    (hcandid : Run.Along (Call.step service) (Candid service)
      (dispatch service max req now elapsed) schedule) :
    (Run.run (Call.step service) (dispatch service max req now elapsed) schedule).Faithful := by
  have hsound := Run.invariant (I := Call.Sound) (fun _ _ h => Call.Sound.step h)
    (sound_dispatch service max req now elapsed) hcandid
  exact hsound.received

end

def emptyRequest : Request where
  uri := "/pkg.Svc/Method".toList
  headers := ({} : HeaderMap).insert "content-type".toList (.text contentType)
  body := .ok []

theorem dispatch_emptyRequest {σ : Type} (service : Service σ) :
    dispatch service 1024 emptyRequest 0 0 =
      { now := 0, deadline := none, acceptGzip := false, maxMessageSize := 1024, requests := []
        serve := .running (service.start emptyRequest.uri) false } := by
  have hgrpc : isGrpc emptyRequest.headers = true := by decide
  have htimeout : emptyRequest.headers.get "grpc-timeout".toList = none := by decide
  have hdeadline : parseDeadline emptyRequest.headers 0 = .deadline none := by
    simp only [parseDeadline,htimeout]
  have hgzip : acceptsGzip emptyRequest.headers = false := by decide
  have hmessages : decodeMessages [] 1024 = .ok [] := by rw [decodeMessages,if_pos rfl]
  have hbody : emptyRequest.body = .ok [] := rfl
  rw [dispatch,hgrpc,hdeadline,hgzip,hbody]
  dsimp only
  rw [hmessages,if_neg (by decide),if_neg (by decide)]

def notFound : Service Unit where
  start _ := ()
  act _ := .finish (.error (Error.grpc 5 "no such thing"))
  code_lt := by
    rintro s e code ⟨⟩ ⟨⟩
    decide

def oneFound : Service Bool where
  start _ := false
  act found :=
    if found then .finish (.error (Error.grpc 5 "no such thing")) else .send (.ok [1]) fun _ => true
  code_lt := by
    intro s e code h hcode
    cases s
    · cases h
    · cases h
      cases hcode
      decide

def finishedSchedule : List Call.Event :=
  [.serve, .serve, .serve, .drop .msgTx, .frame, .drop .startedTx2, .handle, .handle, .handle,
    .transport]

theorem status_faithful_notFound :
    let c := Run.run (Call.step notFound) (dispatch notFound 1024 emptyRequest 0 0) finishedSchedule
    c.status = some 5 ∧ c.Faithful := by
  refine ⟨?_,status_faithful notFound 1024 emptyRequest 0 0 finishedSchedule ?_⟩
  · rw [dispatch_emptyRequest]
    decide
  · rw [dispatch_emptyRequest]
    refine ⟨?_,?_,?_,trivial,trivial,trivial,trivial,trivial,trivial,trivial,trivial⟩
    · rintro s sent ⟨⟩
      exact ⟨rfl,by decide⟩
    · rintro s sent ⟨⟩
    · rintro s sent ⟨⟩

def startedSchedule : List Call.Event :=
  [.serve, .frame, .frame, .frame, .handle, .handle, .transport, .serve, .serve, .serve,
    .drop .msgTx, .frame, .drop .bodyTx, .transport]

/-- The service returned an error, and the peer received `OK`. -/
theorem status_not_faithful :
    let c := Run.run (Call.step oneFound) (dispatch oneFound 1024 emptyRequest 0 0) startedSchedule
    c.status = some Status.ok.code ∧
      c.serve.outcome = some (.error (5, (Error.grpc 5 "no such thing").display.toList)) ∧
      ¬ c.Faithful := by
  have houtcome : (Run.run (Call.step oneFound) (dispatch oneFound 1024 emptyRequest 0 0)
      startedSchedule).serve.outcome =
      some (.error (5,(Error.grpc 5 "no such thing").display.toList)) := by
    rw [dispatch_emptyRequest]
    rfl
  have hstatus : (Run.run (Call.step oneFound) (dispatch oneFound 1024 emptyRequest 0 0)
      startedSchedule).status = some Status.ok.code := by
    rw [dispatch_emptyRequest]
    decide
  refine ⟨hstatus,houtcome,fun hfaithful => ?_⟩
  have hok := (hfaithful _ hstatus).1 rfl
  rw [houtcome] at hok
  cases hok

end Courierust.Grpc
