import Mathlib.Logic.Relation
import Courierust.H2.Outcome

/-!
# An abstract endpoint

An HTTP/2 endpoint as its streams, its queues, and what it sent and delivered: no scheduler,
no receive windows, no decoder, and tables that are functions of the stream id. `Change`
lists what can happen to it, each change with its guard. A connection refines it
(`H2.Refine`), so an invariant of all changes is one of every run of the code.
-/

namespace Courierust.H2

open Hpack (HeaderField)

structure StreamView where
  state : StreamState
  sendWindow : ℤ
  sendBuffered : ℕ
  sendDone : Bool
  recvEnded : Bool
  headersDelivered : Bool

namespace StreamView

def canRecv (v : StreamView) : Bool :=
  (v.state = .open || v.state = .halfClosedLocal) && !v.recvEnded

def canSend (v : StreamView) : Bool :=
  (v.state = .open || v.state = .halfClosedRemote) && !v.sendDone

def endRecv (v : StreamView) : StreamView := { v with recvEnded := true, state := v.state.recvEnd }

/-- The peer ended the stream, if `endStream` is set. -/
def endIf (v : StreamView) (endStream : Bool) : StreamView := if endStream then v.endRecv else v

def pay (v : StreamView) (n : ℕ) : StreamView :=
  { v with sendWindow := v.sendWindow - n, sendBuffered := v.sendBuffered - n }

end StreamView

structure Endpoint where
  client : Bool
  encoder : Hpack.Encoder
  peer : Settings
  window : FlowWindow
  credited : ℕ
  goawaySent : Bool
  next : ℕ
  last : ℕ
  stream : ℕ → Option StreamView
  queue : ℕ → List Chunk
  queued : List Frame
  pending : List Frame
  written : List Frame
  encoded : List (List UInt8)
  delivered : List Event
  accepted : List (ℕ × List UInt8)

namespace Endpoint

def push (e : Endpoint) (fs : List Frame) : Endpoint :=
  { e with queued := e.queued ++ fs, pending := e.pending ++ fs }

def deliver (e : Endpoint) (ev : Event) : Endpoint := { e with delivered := e.delivered ++ [ev] }

def set (e : Endpoint) (id : ℕ) (v : StreamView) : Endpoint :=
  { e with stream := Function.update e.stream id (some v) }

def drop (e : Endpoint) (id : ℕ) : Endpoint :=
  { e with stream := Function.update e.stream id none, queue := Function.update e.queue id [] }

theorem drop_set (e : Endpoint) (id : ℕ) (v : StreamView) : (e.set id v).drop id = e.drop id := by
  simp [drop,set]

def sendBlock (e : Endpoint) (id : ℕ) (fields : List HeaderField) (endStream : Bool) : Endpoint :=
  { e with
    encoder := (e.encoder.encode fields).2
    encoded := e.encoded ++ [(e.encoder.encode fields).1] }.push
    (headerFrames id (e.encoder.encode fields).1 endStream e.peer.maxFrameSize)

theorem sendBlock_eq {e : Endpoint} {fields : List HeaderField} {block : List UInt8}
    {encoder : Hpack.Encoder} (h : e.encoder.encode fields = (block,encoder)) (id : ℕ)
    (endStream : Bool) : e.sendBlock id fields endStream =
      { e with encoder := encoder, encoded := e.encoded ++ [block] }.push
        (headerFrames id block endStream e.peer.maxFrameSize) := by
  rw [sendBlock,h]

def sendable (e : Endpoint) (v : StreamView) : ℕ :=
  (min (min v.sendWindow e.window.available) e.peer.maxFrameSize).toNat

def emit (e : Endpoint) (id : ℕ) (v : StreamView) (t : Conn.Taken) : Endpoint :=
  let e :=
    { e.set id (v.pay t.payload.length) with
      queue := Function.update e.queue id t.queue
      window := e.window.consume t.payload.length }
  match t.trailers with
  | some fields => e.sendBlock id fields true
  | none => e.push [.data id t.payload t.endStream 0]

def enqueue (e : Endpoint) (id : ℕ) (v : StreamView) (chunk : Chunk) : Endpoint :=
  { e.set id { v with
      sendBuffered := v.sendBuffered + chunk.data.length
      sendDone := v.sendDone || chunk.endStream } with
    queue := Function.update e.queue id (e.queue id ++ [chunk])
    accepted := e.accepted ++ [(id, chunk.data)] }

def adopt (e : Endpoint) (settings : Settings) : Endpoint :=
  let delta : ℤ := settings.initialWindowSize - e.peer.initialWindowSize
  { e with
    peer := settings
    stream := fun id => (e.stream id).map fun v =>
      { v with sendWindow := if delta = 0 then v.sendWindow else satI64 (v.sendWindow + delta) } }

end Endpoint

def Frame.isControl : Frame → Bool
  | .rstStream .. => true
  | .settings .. => true
  | .ping .. => true
  | .windowUpdate .. => true
  | .priorityUpdate .. => true
  | _ => false

def Frame.isBlock : Frame → Bool
  | .headers .. => true
  | .continuation .. => true
  | _ => false

def Event.isNotice : Event → Bool
  | .goAway .. => true
  | .peerSettings .. => true
  | .ping .. => true
  | .priorityUpdate .. => true
  | _ => false

def Event.terminal : Event → Option ℕ
  | .rst id _ => some id
  | .streamError id _ _ => some id
  | .streamClosed id => some id
  | _ => none

/-- Guards of a user of the connection: on the header blocks sent, on the streams on which a
    trailing header block or DATA is received, and whether the body is emitted and settings
    are taken over at all. -/
structure Permits where
  head : Endpoint → ℕ → Bool → Prop := fun _ _ _ => True
  trailers : StreamView → Prop := fun _ => True
  data : StreamView → Prop := fun _ => True
  emit : Prop := True
  settings : Prop := True

def Permits.any : Permits := {}

open Endpoint in
inductive Change (P : Permits) : Endpoint → Endpoint → Prop
  | accept {e : Endpoint} {n : ℕ} (hlast : e.last ≤ n) : Change P e { e with last := n }
  | frame {e : Endpoint} {f : Frame} (hf : f.isControl = true) : Change P e (e.push [f])
  | goaway {e : Endpoint} (hsent : e.goawaySent = false) (code : ErrorCode) (debug : List UInt8) :
    Change P e { e.push [.goAway e.last code debug] with goawaySent := true }
  | notice {e : Endpoint} {ev : Event} (hev : ev.isNotice = true) : Change P e (e.deliver ev)
  | flushed {e : Endpoint} :
    Change P e { e with pending := [], written := e.written ++ e.pending }
  -- Streams come and go.
  | request {e : Endpoint} (hclient : e.client = true) :
    Change P e { e.set e.next ⟨.idle, e.peer.initialWindowSize, 0, false, false, false⟩ with
      next := e.next + 2 }
  | opened {e : Endpoint} {id : ℕ} {fields : List HeaderField} {endStream : Bool}
      {priority : Priority} (hserver : e.client = false) (hsent : e.goawaySent = false)
      (hlast : e.last < id) (hnew : e.stream id = none) :
    Change P e ({ e.set id ⟨if endStream then .halfClosedRemote else .open,
      e.peer.initialWindowSize, 0, false, endStream, true⟩ with last := id }.deliver
        (.headers id fields endStream priority))
  | refused {e : Endpoint} {id : ℕ} {ev : Event} (hserver : e.client = false)
      (hlast : e.last < id) (hnew : e.stream id = none) (hev : ev.terminal = some id) :
    Change P e ({ e with last := id }.deliver ev)
  | close {e : Endpoint} (id : ℕ) : Change P e (e.drop id)
  | finish {e : Endpoint} {id : ℕ} {ev : Event} (hev : ev.terminal = some id)
      (hsome : (e.stream id).isSome = true) : Change P e ((e.deliver ev).drop id)
  -- Messages received.
  | responded {e : Endpoint} {id : ℕ} {v : StreamView} {fields : List HeaderField}
      {endStream : Bool} {priority : Priority} (hclient : e.client = true)
      (hv : e.stream id = some v) (hdelivered : v.headersDelivered = false)
      (hstate : v.state = .open ∨ v.state = .halfClosedLocal) :
    Change P e ((e.set id ({ v with headersDelivered := true }.endIf endStream)).deliver
      (.headers id fields endStream priority))
  | data {e : Endpoint} {id : ℕ} {v : StreamView} {octets : List UInt8} {endStream : Bool}
      (hv : e.stream id = some v) (hrecv : v.canRecv = true) (hdata : P.data v) :
    Change P e ((e.set id (v.endIf endStream)).deliver (.data id octets endStream))
  | trailers {e : Endpoint} {id : ℕ} {v : StreamView} {fields : List HeaderField}
      (hv : e.stream id = some v) (hdelivered : v.headersDelivered = true)
      (hstate : v.state ≠ .closed) (htrailers : P.trailers v) :
    Change P e ((e.set id v.endRecv).deliver (.trailers id fields))
  | swallowed {e : Endpoint} {id : ℕ} {v : StreamView} (hv : e.stream id = some v)
      (hrecv : v.canRecv = true) (endStream : Bool) : Change P e (e.set id (v.endIf endStream))
  -- Messages sent.
  | head {e : Endpoint} {id : ℕ} {v : StreamView} {fields : List HeaderField} {endStream : Bool}
      (hv : e.stream id = some v) (hstate : v.state.sendHead endStream ≠ .closed)
      (hhead : P.head e id endStream) :
    Change P e ((e.set id { v with
      state := v.state.sendHead endStream, sendDone := endStream }).sendBlock id fields endStream)
  | headClosed {e : Endpoint} {id : ℕ} {v : StreamView} {fields : List HeaderField}
      {endStream : Bool} {fs : List Frame} (hv : e.stream id = some v)
      (hstate : v.state.sendHead endStream = .closed) (hhead : P.head e id endStream)
      (hfs : ∀ f ∈ fs, f.isControl = true) :
    Change P e ((((e.deliver (.streamClosed id)).drop id).push fs).sendBlock id fields endStream)
  | enqueue {e : Endpoint} {id : ℕ} {v : StreamView} {chunk : Chunk} (hv : e.stream id = some v)
      (hsend : v.canSend = true) (htrailers : chunk.trailers.isSome → chunk.endStream = true) :
    Change P e (e.enqueue id v chunk)
  | emit {e : Endpoint} {id : ℕ} {v : StreamView} {chunk : Chunk} {rest : List Chunk}
      (hv : e.stream id = some v) (hqueue : e.queue id = chunk :: rest)
      (hsendable : 0 < e.sendable v) (hemit : P.emit) :
    Change P e (e.emit id v (Conn.take (e.sendable v) chunk rest))
  | localEnd {e : Endpoint} {id : ℕ} {v : StreamView} (hv : e.stream id = some v)
      (hstate : v.state = .open) : Change P e (e.set id { v with state := .halfClosedLocal })
  -- Credit and settings.
  | connCredit {e : Endpoint} {n : ℕ} {w : FlowWindow} (hw : e.window.increase n = some w) :
    Change P e { e with window := w, credited := e.credited + n }
  | streamCredit {e : Endpoint} {id n : ℕ} {v : StreamView} (hv : e.stream id = some v)
      (hn : satI64 (v.sendWindow + n) ≤ MAX_FLOW_WINDOW) :
    Change P e (e.set id { v with sendWindow := satI64 (v.sendWindow + n) })
  | tableSize {e : Endpoint} (n : ℕ) :
    Change P e { e with encoder := e.encoder.setPeerTableSize n }
  | settings {e : Endpoint} {entries : List Setting} {settings : Settings}
      (happly : e.peer.apply entries = .ok settings)
      (hfits : (settings.initialWindowSize : ℤ) - e.peer.initialWindowSize ≠ 0 →
        ∀ id v, e.stream id = some v → satI64 (v.sendWindow +
          (settings.initialWindowSize - e.peer.initialWindowSize)) ≤ MAX_FLOW_WINDOW)
      (hsettings : P.settings) : Change P e (e.adopt settings)

theorem Change.client_eq {P : Permits} {e e' : Endpoint} (h : Change P e e') :
    e'.client = e.client := by
  cases h with
  | @emit id v chunk rest =>
    generalize Conn.take (e.sendable v) chunk rest = t
    unfold Endpoint.emit
    cases t.trailers <;> rfl
  | _ => rfl

def Changes (P : Permits) : Endpoint → Endpoint → Prop := Relation.ReflTransGen (Change P)

namespace Changes

variable {P : Permits} {e e' e'' : Endpoint}

theorem refl (e : Endpoint) : Changes P e e := Relation.ReflTransGen.refl

theorem of_eq (h : e' = e) : Changes P e e' := h ▸ refl e'

theorem single (h : Change P e e') : Changes P e e' := Relation.ReflTransGen.single h

theorem trans (h : Changes P e e') (h' : Changes P e' e'') : Changes P e e'' :=
  Relation.ReflTransGen.trans h h'

theorem tail (h : Changes P e e') (h' : Change P e' e'') : Changes P e e'' :=
  Relation.ReflTransGen.tail h h'

theorem invariant {I : Endpoint → Prop} (hI : ∀ {e e'}, I e → Change P e e' → I e')
    (h : Changes P e e') (he : I e) : I e' := by
  induction h with
  | refl => exact he
  | tail _ hchange ih => exact hI ih hchange

theorem related {R : Endpoint → Endpoint → Prop} (hrefl : ∀ e, R e e)
    (htrans : ∀ {a b c}, R a b → R b c → R a c) (hR : ∀ {e e'}, Change P e e' → R e e')
    (h : Changes P e e') : R e e' := by
  induction h with
  | refl => exact hrefl e
  | tail _ hchange ih => exact htrans ih (hR hchange)

end Changes

end Courierust.H2
