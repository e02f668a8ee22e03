import Courierust.H2.Endpoint
import Courierust.H2.Ids

/-!
# A connection refines the abstract endpoint

Every operation of a connection is a sequence of changes of its endpoint. What the endpoint
leaves out (the scheduler, the receive windows, the decoder, remembered priorities) changes
nothing on it.
-/

namespace Courierust.H2

open List
open Function
open StreamMap
open Hpack (HeaderField)

def Stream.view (s : Stream) : StreamView :=
  ⟨s.state, s.sendWindow, s.sendBuffered, s.sendDone, s.recvEnded, s.headersDelivered⟩

variable {p : PendingHeaders} {fs : List Frame} {endStream : Bool} {f : Frame}

namespace Conn

def endpoint (c : Conn) : Endpoint where
  client := c.config.client
  encoder := c.encoder
  peer := c.peer
  window := c.connSendWindow
  credited := c.hist.credited
  goawaySent := c.goawaySent
  next := c.streams.nextClientId
  last := c.streams.lastPeerId
  stream := fun id => (c.streams.get id).map Stream.view
  queue := c.queue
  queued := c.hist.queued
  pending := c.pendingFrames
  written := c.hist.written
  encoded := c.hist.encoded
  delivered := c.hist.delivered
  accepted := c.hist.accepted

variable {P : Permits} {c c' : Conn} {id : ℕ}

variable {s : Stream}

theorem stream_endpoint (h : c.streams.get id = some s) : c.endpoint.stream id = some s.view := by
  simp [endpoint,h]

theorem stream_endpoint_none (h : c.streams.get id = none) : c.endpoint.stream id = none := by
  simp [endpoint,h]

/-! ### Primitives -/

theorem endpoint_updateStream (hs : c.streams.get id = some s) (f : Stream → Stream) :
    (c.updateStream id f).endpoint = c.endpoint.set id (f s).view := by
  have hstream : (c.updateStream id f).endpoint.stream =
      Function.update c.endpoint.stream id (some (f s).view) := by
    funext x
    simp only [endpoint,updateStream,get_update,update_apply]
    split_ifs
    · simp [hs]
    · rfl
  obtain ⟨hnext,hlast⟩ := ids_update c.streams id f
  simp only [Endpoint.set,← hstream]
  simp only [endpoint,updateStream,hnext,hlast]
  rfl

theorem endpoint_updateStream_of_view {f : Stream → Stream} (hf : ∀ s, (f s).view = s.view) :
    (c.updateStream id f).endpoint = c.endpoint := by
  cases hs : c.streams.get id with
  | none =>
    have : c.updateStream id f = c := by simp [updateStream,StreamMap.update,hs]
    rw [this]
  | some s =>
    rw [endpoint_updateStream hs,hf,Endpoint.set,← stream_endpoint hs,update_eq_self]

theorem changes_pushFrames (hfs : ∀ f ∈ fs, f.isControl = true) (e : Endpoint) :
    Changes P e (e.push fs) := by
  induction fs generalizing e with
  | nil =>
    refine .of_eq ?_
    simp [Endpoint.push]
  | cons f fs ih =>
    have hrest := ih (fun g hg => hfs g (by simp [hg])) (e.push [f])
    have heq : (e.push [f]).push fs = e.push (f :: fs) := by simp [Endpoint.push]
    rw [heq] at hrest
    exact (Changes.single (.frame (hfs f (by simp)))).trans hrest

theorem isControl_windowUpdate (h : ∀ f ∈ fs, ∃ x n, f = Frame.windowUpdate x n) :
    ∀ f ∈ fs, f.isControl = true := by
  intro f hf
  obtain ⟨x,n,rfl⟩ := h f hf
  rfl

theorem endpoint_closeStream (c : Conn) (id : ℕ) : ∃ fs : List Frame,
    (∀ f ∈ fs, f.isControl = true) ∧ (c.closeStream id).endpoint = (c.endpoint.push fs).drop id := by
  have hget : ∀ x, (c.closeStream id).endpoint.stream x =
      Function.update c.endpoint.stream id none x := by
    intro x
    simp only [endpoint,get_closeStream,update_apply]
    split_ifs <;> rfl
  have hqueue : ∀ x, (c.closeStream id).endpoint.queue x =
      Function.update c.endpoint.queue id [] x := by
    intro x
    simp only [endpoint,queue_closeStream,update_apply]
  obtain ⟨window,pending,fs,hfs,heq⟩ := c.closeStream_shape id
  obtain ⟨hnext,hlast⟩ := ids_remove c.streams id
  refine ⟨fs,isControl_windowUpdate fun f hf => ⟨0,hfs f hf⟩,?_⟩
  simp only [Endpoint.drop,Endpoint.push]
  have hstream := funext hget
  have hqueues := funext hqueue
  rw [heq] at hstream hqueues ⊢
  simp only [endpoint] at hstream hqueues ⊢
  simp only [hstream,hqueues]
  simp only [forget,unschedule,pushFrames,hnext,hlast]

theorem changes_closeStream (c : Conn) (id : ℕ) :
    Changes P c.endpoint (c.closeStream id).endpoint := by
  obtain ⟨fs,hfs,heq⟩ := c.endpoint_closeStream id
  rw [heq]
  exact (changes_pushFrames hfs _).tail (.close id)

theorem changes_finish {ev : Event} (hev : ev.terminal = some id)
    (hsome : (c.streams.get id).isSome = true) :
    Changes P c.endpoint ((c.pushEvent ev).closeStream id).endpoint := by
  obtain ⟨fs,hfs,heq⟩ := (c.pushEvent ev).endpoint_closeStream id
  rw [heq]
  refine (changes_pushFrames hfs c.endpoint).tail (.finish hev ?_)
  simpa [endpoint,Endpoint.push] using hsome

theorem changes_pushFrame (hf : f.isControl = true) (c : Conn) :
    Changes P c.endpoint (c.pushFrame f).endpoint := Changes.single (.frame hf)

theorem endpoint_streamError (c : Conn) (id : ℕ) (hopen : c.closed = false)
    (hsome : (c.streams.get id).isSome = true)
    (code : ErrorCode) (msg : String) : ∃ fs : List Frame, (∀ f ∈ fs, f.isControl = true) ∧
      (c.streamError id code msg).endpoint =
        ((c.endpoint.push fs).deliver (.streamError id code msg)).drop id := by
  obtain ⟨fs,hfs,heq⟩ := ((c.pushEvent (.streamError id code msg)).pushFrame
    (.rstStream id code)).endpoint_closeStream id
  have herror : c.streamError id code msg = ((c.pushEvent (.streamError id code msg)).pushFrame
      (.rstStream id code)).closeStream id := by
    simp [streamError,reportStreamError,hopen,StreamMap.contains,hsome]
  refine ⟨.rstStream id code :: fs,?_,?_⟩
  · intro f hf
    rcases mem_cons.1 hf with rfl | hf
    · rfl
    · exact hfs f hf
  · rw [herror,heq]
    simp only [Endpoint.push,Endpoint.deliver,endpoint,pushFrame,pushFrames,pushEvent,
      append_assoc,singleton_append]
    rfl

theorem changes_streamError (c : Conn) (id : ℕ) (code : ErrorCode) (msg : String) :
    Changes P c.endpoint (c.streamError id code msg).endpoint := by
  cases hopen : c.closed with
  | true =>
    refine .of_eq ?_
    simp [streamError,hopen]
  | false =>
    cases hs : c.streams.get id with
    | none =>
      have herror : c.streamError id code msg = (c.pushFrame (.rstStream id code)).closeStream id := by
        simp [streamError,reportStreamError,hopen,StreamMap.contains,hs]
      rw [herror]
      exact (changes_pushFrame rfl c).trans (changes_closeStream _ _)
    | some s =>
      obtain ⟨fs,hfs,heq⟩ := c.endpoint_streamError id hopen (by simp [hs]) code msg
      rw [heq]
      refine (changes_pushFrames hfs _).tail (.finish rfl ?_)
      exact Option.isSome_iff_exists.2 ⟨_,stream_endpoint hs⟩

theorem changes_updateStream_streamError (hopen : c.closed = false)
    (hs : c.streams.get id = some s) (f : Stream → Stream) (code : ErrorCode) (msg : String) :
    Changes P c.endpoint ((c.updateStream id f).streamError id code msg).endpoint := by
  have hsome : ((c.updateStream id f).streams.get id).isSome = true := by
    simp [updateStream,get_update,hs]
  obtain ⟨fs,hfs,heq⟩ :=
    (c.updateStream id f).endpoint_streamError id hopen hsome code msg
  have hdrop := ((c.endpoint.push fs).deliver (.streamError id code msg)).drop_set id (f s).view
  rw [heq,endpoint_updateStream hs]
  refine (changes_pushFrames hfs _).trans ?_
  refine (Changes.single (.finish rfl ?_)).trans (Changes.of_eq hdrop)
  exact Option.isSome_iff_exists.2 ⟨_,stream_endpoint hs⟩

theorem changes_sendGoaway (c : Conn) (code : ErrorCode) (debug : List UInt8) :
    Changes P c.endpoint (c.sendGoaway code debug).endpoint := by
  unfold sendGoaway
  split_ifs with hsent
  · exact .refl _
  · refine .single (.goaway ?_ code debug)
    simp only [Bool.or_eq_true,not_or,Bool.not_eq_true] at hsent
    exact hsent.1

theorem changes_connError (c : Conn) (code : ErrorCode) (msg : String) :
    Changes P c.endpoint (c.connError code msg).2.endpoint := changes_sendGoaway c code _

theorem changes_closeIfClosed (c : Conn) (id : ℕ) :
    Changes P c.endpoint (c.closeIfClosed id).endpoint := by
  unfold closeIfClosed
  split_ifs with hclosed
  · refine changes_finish rfl ?_
    cases hs : c.streams.get id with
    | none => simp [hs] at hclosed
    | some s => rfl
  · exact .refl _

theorem endpoint_maybeSchedule (c : Conn) (id : ℕ) : (c.maybeSchedule id).endpoint = c.endpoint := by
  obtain ⟨scheduler,scheduled,heq⟩ := c.maybeSchedule_shape id
  rw [heq]
  rfl

theorem endpoint_foldl_maybeSchedule (ids : List ℕ) (c : Conn) :
    (ids.foldl maybeSchedule c).endpoint = c.endpoint := by
  induction ids generalizing c with
  | nil => rfl
  | cons id ids ih => exact (ih _).trans (endpoint_maybeSchedule c id)

theorem changes_releaseData (c : Conn) (id n : ℕ) :
    Changes P c.endpoint (c.releaseData id n).endpoint := by
  obtain ⟨window,pending,fs,f,hfs,hf,heq⟩ := c.releaseData_shape id n
  have hview : (c.updateStream id f).endpoint = c.endpoint := by
    refine endpoint_updateStream_of_view fun s => ?_
    rw [hf s]
    rfl
  rw [heq]
  change Changes P c.endpoint ((c.updateStream id f).endpoint.push fs)
  rw [hview]
  exact changes_pushFrames (isControl_windowUpdate hfs) _

theorem changes_autoRelease (c : Conn) (id n : ℕ) :
    Changes P c.endpoint (c.autoRelease id n).endpoint := by
  unfold autoRelease
  split_ifs
  · exact changes_releaseData c id n
  · exact .refl _

theorem endpoint_of_alike (h : Alike c c') : c.streams.lastPeerId ≤ c'.streams.lastPeerId ∧
    c'.endpoint = { c.endpoint with last := c'.streams.lastPeerId } := by
  obtain ⟨pendingPriority,streams,rfl,hget,hlast,hnext,-⟩ := h
  refine ⟨hlast,?_⟩
  simp only [endpoint,hget,hnext]
  rfl

theorem changes_alike (h : Alike c c') : Changes P c.endpoint c'.endpoint := by
  obtain ⟨hlast,heq⟩ := endpoint_of_alike h
  rw [heq]
  exact .single (.accept hlast)

theorem closed_alike (h : Alike c c') : c'.closed = c.closed := by
  obtain ⟨pendingPriority,streams,rfl,-⟩ := h
  rfl

theorem get_alike (h : Alike c c') (x : ℕ) : c'.streams.get x = c.streams.get x := by
  obtain ⟨pendingPriority,streams,rfl,hget,-⟩ := h
  exact hget x

/-! ### Inbound messages -/

theorem endpoint_enroll {c₁ : Conn} (h : Alike c c₁)
    (hfresh : Fresh c c₁ p.streamId) (hs : Requested s p)
    (hwindow : s.sendWindow = c.peer.initialWindowSize) :
    (c₁.enroll s).endpoint =
      { c.endpoint.set p.streamId ⟨if p.endStream then .halfClosedRemote else .open,
          c.peer.initialWindowSize,0,false,p.endStream,true⟩ with last := p.streamId } := by
  have hview : s.view = ⟨if p.endStream then .halfClosedRemote else .open,
      c.peer.initialWindowSize,0,false,p.endStream,true⟩ := by
    simp only [Stream.view,hs.state,hwindow,hs.buffered,hs.done,hs.ended,hs.delivered]
  have hstream : (c₁.enroll s).endpoint.stream =
      Function.update c.endpoint.stream p.streamId (some s.view) := by
    funext x
    simp only [endpoint,enroll,get_insert,update_apply,hs.id,get_alike h]
    split_ifs <;> rfl
  have hlast := hfresh.last
  obtain ⟨-,heq⟩ := endpoint_of_alike h
  rw [hlast] at heq
  have henroll : (c₁.enroll s).endpoint =
      { c₁.endpoint with stream := (c₁.enroll s).endpoint.stream } := rfl
  rw [henroll,hstream,heq,hview]
  rfl

theorem changes_headerOutcome {fields : List HeaderField}
    (hopen : c.closed = false) (hout : HeaderOutcome c p fields c') (hP : ∀ s, c.streams.get p.streamId = some s →
      s.headersDelivered = true → P.trailers s.view) : Changes P c.endpoint c'.endpoint := by
  cases hout with
  | ignored => exact .refl _
  | replied code => exact changes_pushFrame rfl c
  | failed h code msg => exact (changes_alike h).trans (changes_connError _ _ _)
  | @stuck c₁ h length code msg =>
    have hview : (c₁.updateStream p.streamId (·.declare fields length)).endpoint = c₁.endpoint :=
      endpoint_updateStream_of_view fun _ => rfl
    refine (changes_alike h).trans ?_
    rw [← hview]
    exact changes_connError _ _ _
  | reset h hclosed code msg => exact (changes_alike h).trans (changes_streamError _ _ _ _)
  | @refused c₁ h hfresh =>
    obtain ⟨-,heq⟩ := endpoint_of_alike h
    rw [hfresh.last] at heq
    have hrefused : Changes P c.endpoint ({ c.endpoint with last := p.streamId }.deliver
        (.streamClosed p.streamId)) := .single
      (.refused hfresh.server hfresh.above (stream_endpoint_none hfresh.absent) rfl)
    rw [← heq] at hrefused
    exact hrefused.tail (.frame rfl)
  | @opened c₁ h hfresh s hs hwindow =>
    change Changes P c.endpoint ((c₁.enroll s).endpoint.deliver _)
    rw [endpoint_enroll h hfresh hs hwindow]
    exact .single (.opened hfresh.server hfresh.quiet hfresh.above
      (stream_endpoint_none hfresh.absent))
  | @openedReset c₁ h hfresh s hs hwindow hended code msg =>
    have hsome : ((c₁.enroll s).streams.get p.streamId).isSome = true := by
      simp [enroll,get_insert,hs.id]
    obtain ⟨fs,hfs,heq⟩ := (c₁.enroll s).endpoint_streamError p.streamId
      ((closed_alike h).trans hopen) hsome code msg
    rw [heq,endpoint_enroll h hfresh hs hwindow]
    have hrefused : Changes P c.endpoint ({ c.endpoint with last := p.streamId }.deliver
        (.streamError p.streamId code msg)) := .single
      (.refused hfresh.server hfresh.above (stream_endpoint_none hfresh.absent) rfl)
    have hdrop := (({ c.endpoint with last := p.streamId }.deliver
      (.streamError p.streamId code msg)).push fs).drop_set p.streamId
        ⟨if p.endStream then .halfClosedRemote else .open,c.peer.initialWindowSize,0,false,
          p.endStream,true⟩
    refine hrefused.trans ((changes_pushFrames hfs _).trans ?_)
    exact (Changes.single (.close p.streamId)).trans (Changes.of_eq hdrop)
  | @trailers s hs hdelivered hclosed hstate =>
    have htrailers : Changes P c.endpoint ((c.endpoint.set p.streamId s.view.endRecv).deliver
        (.trailers p.streamId fields)) :=
      Changes.single (.trailers (stream_endpoint hs) hdelivered hstate (hP s hs hdelivered))
    have heq : ((c.pushEvent (.trailers p.streamId fields)).updateStream p.streamId
        Stream.endRecv).endpoint = (c.endpoint.set p.streamId s.view.endRecv).deliver
          (.trailers p.streamId fields) :=
      endpoint_updateStream (c := c.pushEvent (.trailers p.streamId fields)) hs _
    rw [← heq] at htrailers
    exact htrailers.trans (changes_closeIfClosed _ _)
  | @responded c₁ h hclient s hs hdelivered hstate hclosed length priority =>
    have hs₁ := (get_alike h p.streamId).trans hs
    have hview : (s.respond p.endStream fields length priority).view =
        { s.view with headersDelivered := true }.endIf p.endStream := by
      cases hended : p.endStream <;>
        simp [Stream.view,Stream.respond,Stream.declare,StreamView.endIf,StreamView.endRecv]
    have hclient₁ : c₁.endpoint.client = true := by
      rw [(endpoint_of_alike h).2]
      exact hclient
    have hresponded : Changes P c₁.endpoint ((c₁.endpoint.set p.streamId
        ({ s.view with headersDelivered := true }.endIf p.endStream)).deliver
          (.headers p.streamId fields p.endStream priority)) :=
      Changes.single (.responded hclient₁ (stream_endpoint hs₁) hdelivered hstate)
    rw [← hview,← endpoint_updateStream hs₁ (·.respond p.endStream fields length priority)]
      at hresponded
    exact (changes_alike h).trans (hresponded.trans (changes_closeIfClosed
      ((c₁.updateStream p.streamId (·.respond p.endStream fields length priority)).pushEvent
        (.headers p.streamId fields p.endStream priority)) p.streamId))
  | @respondedReset c₁ h s hs hdelivered hclosed hended length priority code msg =>
    exact (changes_alike h).trans (changes_updateStream_streamError
      ((closed_alike h).trans hopen) ((get_alike h _).trans hs) _ code msg)

theorem endpoint_receive (hs : c.streams.get id = some s) (octets : List UInt8) (padding : ℕ) :
    (c.updateStream id (·.receive octets endStream padding)).endpoint =
      c.endpoint.set id (s.view.endIf endStream) := by
  rw [endpoint_updateStream hs]
  cases endStream <;> rfl

theorem changes_dataOutcome {octets : List UInt8} {padding : ℕ}
    (hopen : c.closed = false) (hout : DataOutcome c id octets endStream padding c')
    (hP : ∀ s, c.streams.get id = some s → s.canRecv = true → P.data s.view) :
    Changes P c.endpoint c'.endpoint := by
  cases hout with
  | replied habsent code => exact changes_pushFrame rfl c
  | failed code msg => exact changes_connError c code msg
  | reset hs hwhy code msg => exact changes_streamError c id code msg
  | @overrun s hs hrecv code msg =>
    have hswallowed : Changes P c.endpoint (c.endpoint.set id (s.view.endIf endStream)) :=
      Changes.single (.swallowed (stream_endpoint hs) hrecv endStream)
    rw [← endpoint_receive hs octets padding] at hswallowed
    exact hswallowed.trans (changes_connError _ _ _)
  | overflowed hs hbody hrecv hover code msg =>
    exact changes_updateStream_streamError hopen hs _ code msg
  | mismatched hs hrecv hfits hended hbad code msg =>
    exact changes_updateStream_streamError (c := c.charge (octets.length+padding)) hopen hs _
      code msg
  | @accepted s hs hrecv hfits hgood =>
    have hdata : Changes P c.endpoint ((c.endpoint.set id (s.view.endIf endStream)).deliver
        (.data id octets endStream)) :=
      Changes.single (.data (stream_endpoint hs) hrecv.recv (hP s hs hrecv.recv))
    rw [← endpoint_receive hs octets padding] at hdata
    have hrelease := hdata.trans (changes_autoRelease (((c.updateStream id
      (·.receive octets endStream padding)).charge (octets.length+padding)).pushEvent
        (.data id octets endStream)) id (octets.length+padding))
    unfold deliverData
    split_ifs
    · exact hrelease.trans (changes_closeIfClosed _ _)
    · exact hrelease

/-! ### Messages sent -/

theorem queue_insert (c : Conn) (id : ℕ) (q : List Chunk) :
    { c with sendQueue := c.sendQueue.insert id q }.queue = Function.update c.queue id q := by
  funext x
  simp only [queue,OrderedMap.get_insert,update_apply]
  split_ifs <;> rfl

theorem endpoint_emit (hs : c.streams.get id = some s) (t : Taken) :
    (c.emit id t).endpoint = c.endpoint.emit id s.view t := by
  have hpaid : { c.updateStream id (·.pay t.payload.length) with
      sendQueue := c.sendQueue.insert id t.queue
      connSendWindow := c.connSendWindow.consume t.payload.length }.endpoint =
      { c.endpoint.set id (s.view.pay t.payload.length) with
        queue := Function.update c.endpoint.queue id t.queue
        window := c.endpoint.window.consume t.payload.length } := by
    have hset := endpoint_updateStream hs (·.pay t.payload.length)
    have hqueue := queue_insert c id t.queue
    change { (c.updateStream id (·.pay t.payload.length)).endpoint with
      queue := { c with sendQueue := c.sendQueue.insert id t.queue }.queue
      window := c.connSendWindow.consume t.payload.length } = _
    rw [hset,hqueue]
    rfl
  unfold emit Endpoint.emit
  cases t.trailers with
  | some fields => exact congrArg (·.sendBlock id fields true) hpaid
  | none => exact congrArg (·.push [.data id t.payload t.endStream 0]) hpaid

theorem endpoint_reschedule (c : Conn) (id : ℕ) : (c.reschedule id).endpoint = c.endpoint := by
  obtain ⟨scheduler,scheduled,heq⟩ := c.reschedule_shape id
  rw [heq]
  rfl

theorem changes_serve (hP : P.emit) (c : Conn) (id : ℕ) :
    Changes P c.endpoint (c.serve id).endpoint := by
  rcases c.serve_cases id with ⟨heq,-⟩ | ⟨s,chunk,rest,hs,hsendable,hqueue,heq⟩
  · rw [heq]
    exact .refl _
  have hemit := Changes.single (.emit (stream_endpoint hs) hqueue hsendable hP)
  have hs₁ : { c with scheduled := c.scheduled.erase id }.streams.get id = some s := hs
  generalize ht : take (c.sendable s) chunk rest = t at heq
  have hpaid : ({ c with scheduled := c.scheduled.erase id }.emit id t).streams.get id =
      some (s.pay t.payload.length) := by
    rw [get_emit,if_pos rfl,hs₁,Option.map_some]
  rw [heq]
  change Changes P c.endpoint (c.endpoint.emit id s.view (take (c.sendable s) chunk rest)) at hemit
  rw [ht] at hemit
  have hemitted := endpoint_emit hs₁ t
  change _ = c.endpoint.emit id s.view t at hemitted
  rw [← hemitted] at hemit
  refine hemit.trans ?_
  rcases settle_cases ({ c with scheduled := c.scheduled.erase id }.emit id t) id s t.endStream with
    ⟨-,-,hsettle⟩ | ⟨f,hsettle,hf⟩
  · rw [hsettle]
    exact changes_finish rfl (by rw [hpaid]; rfl)
  rw [hsettle,endpoint_reschedule]
  rcases hf with hf | ⟨hstate,-,hf⟩
  · exact .of_eq (endpoint_updateStream_of_view fun s => by rw [hf])
  · rw [endpoint_updateStream hpaid,hf]
    exact .single (.localEnd (stream_endpoint hpaid) hstate)

theorem changes_emitLoop (hP : P.emit) (n : ℕ) (c : Conn) :
    Changes P c.endpoint (emitLoop n c).endpoint := by
  induction n generalizing c with
  | zero => exact .refl _
  | succ n ih =>
    unfold emitLoop
    split
    · exact .refl _
    · next id scheduler _ =>
      have hserve := changes_serve hP { c with scheduler := scheduler } id
      exact hserve.trans (ih _)

theorem changes_emitDataFrames (hP : P.emit) (c : Conn) :
    Changes P c.endpoint c.emitDataFrames.endpoint := by
  unfold emitDataFrames
  split_ifs
  · exact .refl _
  · exact changes_emitLoop hP 64 c

theorem changes_flush (hP : P.emit) (c : Conn) :
    Changes P c.endpoint c.flushOutbound.2.endpoint := by
  unfold flushOutbound
  split_ifs
  · exact .refl _
  · exact (changes_emitDataFrames hP c).tail .flushed
  · have hsettings : Changes P c.endpoint { c.queueSettings with settingsSent := true }.endpoint :=
      changes_pushFrame rfl c
    exact (hsettings.trans (changes_emitDataFrames hP _)).tail .flushed

theorem changes_sendHeaders (c : Conn) (id : ℕ) (fields : List HeaderField) (endStream : Bool)
    (hP : P.head c.endpoint id endStream) :
    Changes P c.endpoint (c.sendHeaders id fields endStream).2.endpoint := by
  rcases c.sendHeaders_cases id fields endStream with ⟨e,heq⟩ | ⟨s,hs,heq⟩
  · rw [heq]
    exact .refl _
  rw [heq]
  obtain ⟨block,encoder,hencode,hcases⟩ := c.sendHead_cases id s fields endStream
  have hset : ((c.produce block encoder).updateStream id (headUpdate s fields endStream)).endpoint
      = { c.endpoint with
        encoder := encoder, encoded := c.endpoint.encoded ++ [block] }.set id { s.view with
        state := s.view.state.sendHead endStream, sendDone := endStream } :=
    endpoint_updateStream (c := c.produce block encoder) hs _
  rcases hcases with ⟨hstate,heq⟩ | ⟨hstate,heq⟩
  · obtain ⟨fs,hfs,hclose⟩ := (((c.produce block encoder).updateStream id
      (headUpdate s fields endStream)).pushEvent (.streamClosed id)).endpoint_closeStream id
    have hhead : Changes P c.endpoint ((((c.endpoint.deliver (.streamClosed id)).drop id).push
        fs).sendBlock id fields endStream) :=
      Changes.single (.headClosed (stream_endpoint hs) hstate hP hfs)
    refine hhead.trans (Changes.of_eq ?_)
    have hdrop := (({ c.endpoint with
        encoder := encoder, encoded := c.endpoint.encoded ++ [block] }.deliver (.streamClosed id)).push
      fs).drop_set id { s.view with
        state := s.view.state.sendHead endStream, sendDone := endStream }
    rw [heq,Endpoint.sendBlock_eq hencode]
    change ((((c.produce block encoder).updateStream id
      (headUpdate s fields endStream)).pushEvent (.streamClosed id)).closeStream id).endpoint.push
        _ = _
    rw [hclose]
    change ((((c.produce block encoder).updateStream id (headUpdate s fields
      endStream)).endpoint.deliver (.streamClosed id)).push fs |>.drop id).push _ = _
    rw [hset]
    exact congrArg
      (fun e : Endpoint => e.push (headerFrames id block endStream c.peer.maxFrameSize)) hdrop
  · have hhead : Changes P c.endpoint ((c.endpoint.set id { s.view with
        state := s.view.state.sendHead endStream, sendDone := endStream }).sendBlock id fields
          endStream) := .single (.head (stream_endpoint hs) hstate hP)
    refine hhead.trans (Changes.of_eq ?_)
    rw [heq,Endpoint.sendBlock_eq hencode]
    change ((c.produce block encoder).updateStream id
      (headUpdate s fields endStream)).endpoint.push _ = _
    rw [hset]
    rfl

theorem endpoint_enqueue (hs : c.streams.get id = some s) (chunk : Chunk) :
    (c.enqueue id chunk).endpoint = c.endpoint.enqueue id s.view chunk := by
  have hset := endpoint_updateStream hs fun s =>
    { s with
      sendBuffered := s.sendBuffered+chunk.data.length
      sendDone := s.sendDone || chunk.endStream }
  have hqueue := queue_insert c id (c.queue id ++ [chunk])
  unfold enqueue
  rw [endpoint_maybeSchedule]
  change { (c.updateStream id fun s =>
      { s with
        sendBuffered := s.sendBuffered+chunk.data.length
        sendDone := s.sendDone || chunk.endStream }).endpoint with
    queue := { c with sendQueue := c.sendQueue.insert id (c.queue id ++ [chunk]) }.queue
    accepted := c.hist.accepted ++ [(id,chunk.data)] } = _
  rw [hset,hqueue]
  rfl

theorem changes_openRequest (c : Conn) (priority : Priority) :
    Changes P c.endpoint (c.openRequest priority).2.endpoint := by
  rcases c.openRequest_cases priority with heq | ⟨hclient,-,heq⟩
  · rw [heq]
    exact .refl _
  have hrequest : Changes P c.endpoint { c.endpoint.set c.endpoint.next
      ⟨.idle,c.endpoint.peer.initialWindowSize,0,false,false,false⟩ with
        next := c.endpoint.next+2 } := .single (.request hclient)
  refine hrequest.trans (Changes.of_eq ?_)
  rw [heq]
  simp only [Endpoint.set,endpoint]
  congr 1
  funext x
  simp only [get_insert,update_apply]
  split_ifs <;> rfl

/-! ### Other frames -/

theorem get_foldl_updateStream (f : Stream → Stream) {ids : List ℕ} (hids : ids.Nodup) (c : Conn)
    (x : ℕ) : (ids.foldl (fun c id => c.updateStream id f) c).streams.get x =
      if x ∈ ids then (c.streams.get x).map f else c.streams.get x := by
  induction ids generalizing c with
  | nil => simp
  | cons id ids ih =>
    rw [nodup_cons] at hids
    rw [foldl_cons,ih hids.2,updateStream,get_update]
    by_cases hx : x = id
    · subst hx
      simp [hids.1]
    · simp [hx]

theorem endpoint_foldl_updateStream (f : Stream → Stream) (ids : List ℕ) (c : Conn) :
    ∃ stream, (ids.foldl (fun c id => c.updateStream id f) c).endpoint =
      { c.endpoint with stream := stream } := by
  induction ids generalizing c with
  | nil => exact ⟨_,rfl⟩
  | cons id ids ih =>
    obtain ⟨stream,heq⟩ := ih (c.updateStream id f)
    refine ⟨stream,?_⟩
    obtain ⟨hnext,hlast⟩ := ids_update c.streams id f
    rw [foldl_cons,heq]
    simp only [endpoint,updateStream,hnext,hlast]
    rfl

theorem endpoint_shiftWindows (c : Conn) (delta : ℤ) : (c.shiftWindows delta).endpoint =
    { c.endpoint with stream := fun id => (c.endpoint.stream id).map fun v =>
      { v with sendWindow := satI64 (v.sendWindow+delta) } } := by
  have hstream : (c.shiftWindows delta).endpoint.stream = fun id =>
      (c.endpoint.stream id).map fun v => { v with sendWindow := satI64 (v.sendWindow+delta) } := by
    funext x
    have hids : c.streams.ids.Nodup := c.streams.streams.nodup_keys
    simp only [endpoint,shiftWindows,get_foldl_updateStream _ hids]
    split_ifs with hx
    · cases c.streams.get x <;> rfl
    · have hnone : c.streams.get x = none := by
        simpa [mem_ids] using hx
      simp [hnone]
  obtain ⟨stream,heq⟩ := endpoint_foldl_updateStream
    (fun s => { s with sendWindow := satI64 (s.sendWindow+delta) }) c.streams.ids c
  change (c.shiftWindows delta).endpoint = _ at heq
  rw [← hstream,heq]

theorem endpoint_wakeBuffered (c : Conn) : c.wakeBuffered.endpoint = c.endpoint :=
  endpoint_foldl_maybeSchedule _ _

theorem endpoint_adoptPeer (c : Conn) (settings : Settings) :
    let delta : ℤ := settings.initialWindowSize-c.peer.initialWindowSize
    { (if delta ≠ 0 then c.shiftWindows delta else c) with peer := settings }.endpoint =
      c.endpoint.adopt settings := by
  intro delta
  by_cases hdelta : delta = 0
  · rw [if_neg (not_not.2 hdelta)]
    change { c.endpoint with peer := settings } = { c.endpoint with
      peer := settings
      stream := fun id => (c.endpoint.stream id).map fun v =>
        { v with sendWindow := if delta = 0 then v.sendWindow else satI64 (v.sendWindow+delta) } }
    simp only [if_pos hdelta,Option.map_id']
  · rw [if_pos hdelta]
    change { (c.shiftWindows delta).endpoint with peer := settings } = { c.endpoint with
      peer := settings
      stream := fun id => (c.endpoint.stream id).map fun v =>
        { v with sendWindow := if delta = 0 then v.sendWindow else satI64 (v.sendWindow+delta) } }
    simp only [if_neg hdelta,endpoint_shiftWindows]

theorem changes_onSettings (hP : P.settings) (c : Conn) (entries : List Setting) :
    Changes P c.endpoint (c.onSettings entries).2.endpoint := by
  rcases c.onSettings_cases entries with
    ⟨encoder,code,msg,hencoder,heq⟩ | ⟨encoder,settings,rfl,happly,hfits,heq⟩
  · have htable : Changes P c.endpoint { c with encoder := encoder }.endpoint := by
      rcases hencoder with rfl | ⟨n,rfl⟩
      · exact .refl _
      · exact .single (.tableSize n)
    rw [heq]
    exact htable.trans (changes_connError _ _ _)
  generalize hsized : { c with
    encoder := c.encoder.setPeerTableSize settings.headerTableSize } = c₁ at heq
  have htable : Changes P c.endpoint c₁.endpoint := by
    rw [← hsized]
    exact .single (.tableSize _)
  have hpeer : c₁.peer = c.peer := by rw [← hsized]
  have hadopt : Changes P c₁.endpoint (c₁.endpoint.adopt settings) := by
    have happly₁ : c₁.endpoint.peer.apply entries = .ok settings := by
      rw [← happly,← hpeer]
      rfl
    refine .single (.settings happly₁ (fun hdelta id v hv => ?_) hP)
    change (settings.initialWindowSize : ℤ)-c₁.peer.initialWindowSize ≠ 0 at hdelta
    change satI64 (v.sendWindow+(settings.initialWindowSize-c₁.peer.initialWindowSize)) ≤ _
    rw [hpeer] at hdelta ⊢
    obtain ⟨s,hs,rfl⟩ := Option.map_eq_some_iff.1 hv
    rw [← hsized] at hs
    exact hfits hdelta id s hs
  have hdelta : (settings.initialWindowSize : ℤ)-c.peer.initialWindowSize =
      settings.initialWindowSize-c₁.peer.initialWindowSize := by rw [hpeer]
  have hadopted := c₁.endpoint_adoptPeer settings
  rw [heq]
  refine htable.trans (hadopt.trans ?_)
  unfold adoptSettings
  rw [endpoint_wakeBuffered,hdelta,← hadopted]
  exact (changes_pushFrame rfl _).tail (.notice rfl)

theorem changes_onWindowUpdate (c : Conn) (id increment : ℕ) :
    Changes P c.endpoint (c.onWindowUpdate id increment).2.endpoint := by
  rcases c.onWindowUpdate_cases id increment with
    heq | ⟨code,msg,heq⟩ | ⟨window,-,hwindow,heq⟩ | ⟨s,-,hs,hfits,heq⟩
  · rw [heq]
    exact .refl _
  · rw [heq]
    exact changes_connError _ _ _
  · rw [heq,endpoint_wakeBuffered]
    exact .single (.connCredit hwindow)
  · rw [heq,endpoint_maybeSchedule,endpoint_updateStream hs]
    exact .single (.streamCredit (stream_endpoint hs) hfits)

theorem changes_onGoAway (c : Conn) (last : ℕ) (code : ErrorCode) (debug : List UInt8) :
    Changes P c.endpoint (c.onGoAway last code debug).endpoint := by
  have hfold : ∀ (ids : List ℕ) (c : Conn), ids.Nodup →
      (∀ id ∈ ids, (c.streams.get id).isSome = true) →
        Changes P c.endpoint (ids.foldl refuse c).endpoint := by
    intro ids
    induction ids with
    | nil => exact fun c _ _ => .refl _
    | cons id ids ih =>
      intro c hnodup hsome
      rw [nodup_cons] at hnodup
      refine (changes_finish rfl (hsome id (by simp))).trans (ih _ hnodup.2 fun x hx => ?_)
      have hne : x ≠ id := by
        rintro rfl
        exact hnodup.1 hx
      rw [get_closeStream,if_neg hne]
      exact hsome x (by simp [hx])
  have hnotice : Changes P c.endpoint ({ c with
      goawayReceived := true, peerLastStream := last }.pushEvent (.goAway code last debug)).endpoint :=
    Changes.single (.notice rfl)
  refine hnotice.trans (hfold _ _ (c.streams.streams.nodup_keys.filter _) fun id hid => ?_)
  exact mem_ids.1 (mem_filter.1 hid).1

theorem endpoint_setPriority (c : Conn) (id : ℕ) (priority : Priority) :
    (c.setPriority id priority).endpoint = c.endpoint := by
  unfold setPriority
  split
  · have hview : (c.updateStream id fun s => { s with priority := priority }).endpoint =
        c.endpoint := endpoint_updateStream_of_view fun _ => rfl
    exact hview
  · split_ifs <;> rfl

theorem changes_plain (hP : P.settings) (hplain : f.isPlain = true) (c : Conn) :
    Changes P c.endpoint (c.dispatch f).2.endpoint := by
  cases f with
  | data | headers | continuation => cases hplain
  | priority | unknown => exact .refl _
  | pushPromise => exact changes_connError _ _ _
  | settings ack entries =>
    simp only [dispatch]
    split_ifs
    · exact changes_connError _ _ _
    · exact .refl _
    · exact changes_onSettings hP c entries
  | ping ack octets =>
    simp only [dispatch]
    split_ifs
    · exact .refl _
    · exact (changes_pushFrame rfl c).tail (.notice rfl)
  | windowUpdate id increment => exact changes_onWindowUpdate c id increment
  | goAway last code debug => exact changes_onGoAway c last code debug
  | priorityUpdate id field =>
    simp only [dispatch,onPriorityUpdate]
    split_ifs
    · exact changes_connError _ _ _
    · change Changes P c.endpoint ((c.setPriority id _).endpoint.deliver _)
      rw [endpoint_setPriority]
      exact .single (.notice rfl)
  | rstStream id code =>
    simp only [dispatch,onRstStream]
    split_ifs with hin
    · exact changes_finish rfl hin
    · exact .refl _
    · exact changes_connError _ _ _
    · exact .refl _

end Conn

def Permits.allows (P : Permits) (c : Conn) (op : Op) : Prop :=
  (∀ id fields endStream, op = .sendHeaders id fields endStream → P.head c.endpoint id endStream) ∧
    (∀ p fields, c.blockIn op = some (p, fields) → ∀ s, c.streams.get p.streamId = some s →
      s.headersDelivered = true → P.trailers s.view) ∧
    (∀ d, c.dataOf op = some d → ∀ s, c.streams.get d.id = some s → s.canRecv = true →
      P.data s.view) ∧
    (op = .flush → P.emit) ∧ ∀ r, op = .receive r → P.settings

variable {ops : List Op}

theorem Permits.any_allows (c : Conn) (op : Op) : Permits.any.allows c op :=
  ⟨fun _ _ _ _ => trivial,fun _ _ _ _ _ _ => trivial,fun _ _ _ _ _ => trivial,
    fun _ => trivial,fun _ _ => trivial⟩

namespace Conn

variable {P : Permits} {c : Conn}

theorem changes_receive (r : RawFrame) (hP : P.allows c (.receive r)) :
    Changes P c.endpoint (c.receive r).2.endpoint := by
  by_cases hopen : c.closed = false
  swap
  · refine .of_eq ?_
    simp [receive,hopen]
  obtain ⟨-,htrailers,hdata,-,hsettings⟩ := hP
  have hout := c.receive_outcome r hopen
  generalize (c.receive r).2 = c' at hout
  cases hout with
  | failed pendingHeaders log code debug =>
    exact changes_sendGoaway { c with
      pendingHeaders := pendingHeaders
      hist := { c.hist with inbound := log } } code debug
  | streamScoped hscoped code msg => exact changes_streamError c r.streamId code msg
  | pending => exact .refl _
  | @block f hscoped hparse hplain p fields hblock decoder c' hout =>
    refine changes_headerOutcome (c := { c.logInbound f with
      pendingHeaders := none, decoder := decoder }) hopen hout fun s hs => htrailers p fields ?_ s hs
    simp [blockIn,hopen,hscoped,hparse,hblock]
  | @data id octets endStream padding hscoped hparse hpending c' hout =>
    refine changes_dataOutcome (c := c.logInbound (.data id octets endStream padding)) hopen hout
      fun s hs => hdata ⟨id,octets,endStream,padding⟩ ?_ s hs
    simp [dataOf,hopen,hscoped,hpending,hparse]
  | @plain f hscoped hparse hpending hplain => exact changes_plain (hsettings r rfl) hplain (c.logInbound f)

theorem changes_step {op : Op} (hP : P.allows c op) :
    Changes P c.endpoint (c.step op).endpoint := by
  cases op with
  | openRequest priority => exact changes_openRequest c priority
  | sendHeaders id fields endStream =>
    exact changes_sendHeaders c id fields endStream (hP.1 id fields endStream rfl)
  | sendData id octets endStream =>
    rcases c.sendData_cases id octets endStream with heq | ⟨s,hs,hsend,heq⟩
    · exact .of_eq (congrArg endpoint heq)
    · change Changes P c.endpoint (c.sendData id octets endStream).2.endpoint
      rw [heq,endpoint_enqueue hs]
      exact .single (.enqueue (stream_endpoint hs) hsend nofun)
  | sendTrailers id fields =>
    rcases c.sendTrailers_cases id fields with ⟨e,heq⟩ | ⟨s,hs,hsend,heq⟩
    · exact .of_eq (congrArg (·.2.endpoint) heq)
    · change Changes P c.endpoint (c.sendTrailers id fields).2.endpoint
      rw [heq,endpoint_enqueue hs]
      exact .single (.enqueue (stream_endpoint hs) hsend fun _ => rfl)
  | sendRst id code =>
    simp only [step,sendRst]
    split_ifs
    · exact .refl _
    · exact (changes_pushFrame rfl c).trans (changes_closeStream _ _)
  | sendPing octets =>
    simp only [step,sendPing]
    split_ifs
    · exact .refl _
    · exact changes_pushFrame rfl c
  | sendGoaway code debug => exact changes_sendGoaway c code debug
  | sendPriorityUpdate id priority =>
    simp only [step,sendPriorityUpdate]
    split_ifs
    · exact .refl _
    · exact .refl _
    have hview : ((c.pushFrame (.priorityUpdate id priority.text)).updateStream id fun s =>
        { s with priority := priority }).endpoint =
        (c.pushFrame (.priorityUpdate id priority.text)).endpoint :=
      endpoint_updateStream_of_view fun _ => rfl
    rw [hview]
    exact changes_pushFrame rfl c
  | releaseData id n => exact changes_releaseData c id n
  | nextEvent => exact .refl _
  | flush => exact changes_flush (hP.2.2.2.1 rfl) c
  | flushFinal => exact .single .flushed
  | receive r => exact changes_receive r hP

theorem invariant_run {I : Endpoint → Prop} (hI : ∀ {e e'}, I e → Change P e e' → I e')
    (hops : Run.Along Conn.step P.allows c ops) (h : I c.endpoint) :
    I (Run.run Conn.step c ops).endpoint := by
  refine Run.invariant (I := fun c : Conn => I c.endpoint) (fun c op hc hop => ?_) h hops
  exact (changes_step hop).invariant hI hc

theorem changes_run (hops : Run.Along Conn.step P.allows c ops) :
    Changes P c.endpoint (Run.run Conn.step c ops).endpoint := by
  induction ops generalizing c with
  | nil => exact .refl _
  | cons op ops ih => exact (changes_step hops.1).trans (ih hops.2)

/-! ### DATA and the connection credit -/

def dataOctets (frames : List Frame) : ℕ := (frames.map Frame.flowControlled).sum

theorem dataOctets_push {fs : List Frame} (h : ∀ f ∈ fs, f.flowControlled = 0)
    (frames : List Frame) : dataOctets (frames ++ fs) = dataOctets frames := by
  have hzero : (fs.map Frame.flowControlled).sum = 0 := by
    rw [sum_eq_zero_iff]
    simpa using h
  rw [dataOctets,map_append,sum_append,hzero,Nat.add_zero,dataOctets]

/-- What is left of the window, with the DATA queued, is covered by the credit. -/
def WithinCredit (e : Endpoint) : Prop :=
  0 ≤ e.window.available ∧ dataOctets e.queued + e.window.available ≤ 65535 + e.credited

theorem flowControlled_of_isControl {f : Frame} (hf : f.isControl = true) :
    f.flowControlled = 0 := by
  cases f <;> first | rfl | cases hf

variable {e e' : Endpoint}

theorem WithinCredit.push {fs : List Frame} (h : WithinCredit e)
    (hfs : ∀ f ∈ fs, f.flowControlled = 0) : WithinCredit (e.push fs) := by
  rw [WithinCredit,Endpoint.push,dataOctets_push hfs]
  exact h

theorem WithinCredit.sendBlock (h : WithinCredit e) (id fields endStream) :
    WithinCredit (e.sendBlock id fields endStream) :=
  WithinCredit.push h (forall_headerFrames (fun _ _ _ => rfl) fun _ _ _ => rfl)

theorem WithinCredit.change (h : WithinCredit e) (hchange : Change P e e') :
    WithinCredit e' := by
  cases hchange with
  | frame hf => exact h.push (forall_mem_singleton.2 (flowControlled_of_isControl hf))
  | goaway => exact h.push (forall_mem_singleton.2 rfl)
  | head => exact h.sendBlock _ _ _
  | headClosed _ _ _ hfs =>
    exact (h.push fun f hf => flowControlled_of_isControl (hfs f hf)).sendBlock _ _ _
  | @emit id v chunk rest =>
    have hlen : (take (e.sendable v) chunk rest).payload.length ≤ e.sendable v := by grind [take]
    generalize take (e.sendable v) chunk rest = t at hlen
    have hleft : 0 ≤ (e.window.consume t.payload.length).available ∧
        t.payload.length+(e.window.consume t.payload.length).available ≤ e.window.available := by
      have hnonneg := h.1
      grind [Endpoint.sendable,FlowWindow.consume,FlowWindow.available,satI64]
    unfold Endpoint.emit
    cases t.trailers with
    | some fields =>
      refine WithinCredit.sendBlock ⟨hleft.1,?_⟩ _ _ _
      have := h.2
      dsimp only [Endpoint.set]
      omega
    | none =>
      refine ⟨hleft.1,?_⟩
      have := h.2
      simp only [Endpoint.push,Endpoint.set,dataOctets,map_append,sum_append,map_singleton,
        sum_singleton,Frame.flowControlled] at this ⊢
      omega
  | connCredit hw =>
    obtain ⟨hnonneg,hwithin⟩ := h
    rw [WithinCredit]
    grind [FlowWindow.increase,FlowWindow.available,satI64]
  | _ => exact h

/-- In every run, whatever the peer does, the DATA octets queued are at most the initial window
    and the increments accepted on stream 0. -/
theorem data_within_conn_credit (config : Config) (upgrade : Bool) (ops : List Op) :
    let c := Run.run step (start config upgrade) ops
    dataOctets c.hist.queued ≤ 65535 + c.hist.credited := by
  have hstart : WithinCredit (start config upgrade).endpoint := by
    obtain ⟨hqueued,hwindow⟩ : (start config upgrade).endpoint.queued = [] ∧
        (start config upgrade).endpoint.window.available = 65535 := by
      cases upgrade <;> exact ⟨rfl,rfl⟩
    rw [WithinCredit,hqueued,hwindow]
    exact ⟨by decide,by simp [dataOctets]⟩
  have hrun := invariant_run (fun h hchange => h.change hchange)
    (Run.along_of_forall Permits.any_allows _ ops) hstart
  have := hrun.1
  have := hrun.2
  dsimp only [endpoint] at *
  omega

end Conn

end Courierust.H2
