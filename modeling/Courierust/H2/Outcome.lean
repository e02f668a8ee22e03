import Courierust.H2.Inbound

/-!
# What an inbound frame can do

The outcomes of a header block and of a DATA frame, each with the state it leaves and the
facts that lead to it. Every invariant of a connection is proved from these, so the code of
the two functions is looked at only here.
-/

namespace Courierust.H2

open StreamMap
open Hpack (HeaderField)

/-- Whether a header block closes the stream it is for. A trailing block does when it is
    malformed, the length is wrong or our side has ended; a response when it is malformed
    or ends the stream. -/
def Stream.closedBy (s : Stream) (endStream : Bool) (fields : List HeaderField) : Bool :=
  if s.headersDelivered then
    !(checkHeaderBlock fields false true).isOk || s.lengthMismatch || s.state = .halfClosedLocal
  else !(checkHeaderBlock fields false false).isOk || endStream

def Alike (c c₁ : Conn) : Prop :=
  ∃ pendingPriority streams,
    c₁ = { c with pendingPriority := pendingPriority, streams := streams } ∧
      (∀ x, streams.get x = c.streams.get x) ∧ c.streams.lastPeerId ≤ streams.lastPeerId ∧
      streams.nextClientId = c.streams.nextClientId ∧
      (c.pendingPriority = ∅ → pendingPriority = ∅)

theorem Alike.refl (c : Conn) : Alike c c := ⟨_,_,rfl,fun _ => rfl,le_rfl,rfl,id⟩

theorem StreamMap.lastPeerId_acceptPeerId (m : StreamMap) (id : ℕ) :
    m.lastPeerId ≤ (m.acceptPeerId id).2.lastPeerId ∧
      (m.acceptPeerId id).2.nextClientId = m.nextClientId := by
  unfold acceptPeerId
  split_ifs with heven hold
  · exact ⟨le_rfl,rfl⟩
  · exact ⟨le_rfl,rfl⟩
  · exact ⟨(not_le.1 hold).le,rfl⟩

theorem StreamMap.of_acceptPeerId {m m' : StreamMap} {id : ℕ}
    (h : m.acceptPeerId id = (true,m')) : m.lastPeerId < id ∧ m'.lastPeerId = id := by
  unfold acceptPeerId at h
  split_ifs at h with heven hold
  · cases h
  · cases h
  · cases h
    exact ⟨not_le.1 hold,rfl⟩

theorem alike_acceptPeerId (c : Conn) (id : ℕ) :
    Alike c { c with streams := (c.streams.acceptPeerId id).2 } :=
  ⟨_,_,rfl,get_acceptPeerId _ _,(lastPeerId_acceptPeerId _ _).1,
    (lastPeerId_acceptPeerId _ _).2,fun hnone => hnone⟩

structure Requested (s : Stream) (p : PendingHeaders) : Prop where
  id : s.id = p.streamId
  held : s.recvUnreleased = 0
  buffered : s.sendBuffered = 0
  state : s.state = if p.endStream then .halfClosedRemote else .open
  ended : s.recvEnded = p.endStream
  delivered : s.headersDelivered = true
  done : s.sendDone = false

structure Fresh (c c₁ : Conn) (id : ℕ) : Prop where
  server : c.config.client = false
  quiet : c.goawaySent = false
  absent : c.streams.get id = none
  above : c.streams.lastPeerId < id
  last : c₁.streams.lastPeerId = id

inductive HeaderOutcome (c : Conn) (p : PendingHeaders) (fields : List HeaderField) :
    Conn → Prop
  | ignored : HeaderOutcome c p fields c
  | replied (code : ErrorCode) : HeaderOutcome c p fields (c.pushFrame (.rstStream p.streamId code))
  | failed {c₁ : Conn} (h : Alike c c₁) (code : ErrorCode) (msg : String) :
    HeaderOutcome c p fields (c₁.connError code msg).2
  | stuck {c₁ : Conn} (h : Alike c c₁) (length : Option ℕ) (code : ErrorCode) (msg : String) :
    HeaderOutcome c p fields
      ((c₁.updateStream p.streamId (·.declare fields length)).connError code msg).2
  | reset {c₁ : Conn} (h : Alike c c₁)
      (hclosed : ∀ s, c.streams.get p.streamId = some s → s.closedBy p.endStream fields = true)
      (code : ErrorCode) (msg : String) :
    HeaderOutcome c p fields (c₁.streamError p.streamId code msg)
  | refused {c₁ : Conn} (h : Alike c c₁) (hfresh : Fresh c c₁ p.streamId) :
    HeaderOutcome c p fields
      ((c₁.pushFrame (.rstStream p.streamId .refusedStream)).pushEvent (.streamClosed p.streamId))
  | opened {c₁ : Conn} (h : Alike c c₁) (hfresh : Fresh c c₁ p.streamId) {s : Stream}
      (hs : Requested s p) (hwindow : s.sendWindow = c.peer.initialWindowSize) :
    HeaderOutcome c p fields
      ((c₁.enroll s).pushEvent (.headers p.streamId fields p.endStream s.priority))
  | openedReset {c₁ : Conn} (h : Alike c c₁) (hfresh : Fresh c c₁ p.streamId) {s : Stream}
      (hs : Requested s p) (hwindow : s.sendWindow = c.peer.initialWindowSize)
      (hended : p.endStream = true) (code : ErrorCode) (msg : String) :
    HeaderOutcome c p fields ((c₁.enroll s).streamError p.streamId code msg)
  | trailers {s : Stream} (hs : c.streams.get p.streamId = some s)
      (hdelivered : s.headersDelivered = true)
      (hclosed : s.state = .halfClosedLocal → s.closedBy p.endStream fields = true)
      (hopen : s.state ≠ .closed) :
    HeaderOutcome c p fields (c.deliverTrailers p.streamId fields)
  | responded {c₁ : Conn} (h : Alike c c₁) (hclient : c.config.client = true) {s : Stream}
      (hs : c.streams.get p.streamId = some s)
      (hdelivered : s.headersDelivered = false)
      (hstate : s.state = .open ∨ s.state = .halfClosedLocal)
      (hclosed : p.endStream = true → s.closedBy p.endStream fields = true)
      (length : Option ℕ) (priority : Priority)
      (hpriority : c.pendingPriority[p.streamId]?.getD s.priority = priority) :
    HeaderOutcome c p fields
      (((c₁.updateStream p.streamId (·.respond p.endStream fields length priority)).pushEvent
        (.headers p.streamId fields p.endStream priority)).closeIfClosed p.streamId)
  | respondedReset {c₁ : Conn} (h : Alike c c₁) {s : Stream}
      (hs : c.streams.get p.streamId = some s) (hdelivered : s.headersDelivered = false)
      (hclosed : s.closedBy p.endStream fields = true) (hended : p.endStream = true)
      (length : Option ℕ) (priority : Priority) (code : ErrorCode) (msg : String)
      (hclient : c.config.client = true)
      (hpriority : c.pendingPriority[p.streamId]?.getD s.priority = priority) :
    HeaderOutcome c p fields
      ((c₁.updateStream p.streamId (·.respond p.endStream fields length priority)).streamError
        p.streamId code msg)

/-- What DATA needs before anything is written: a body is expected, the stream can receive,
    and the octets are counted. -/
structure Receivable (s : Stream) (octets : List UInt8) : Prop where
  body : s.bodyExpected = true
  recv : s.canRecv = true
  counted : (checkedAdd s.recvBodyLen octets.length).isSome = true

inductive DataOutcome (c : Conn) (id : ℕ) (octets : List UInt8) (endStream : Bool)
    (padding : ℕ) : Conn → Prop
  | replied (habsent : c.streams.get id = none) (code : ErrorCode) :
    DataOutcome c id octets endStream padding (c.pushFrame (.rstStream id code))
  | failed (code : ErrorCode) (msg : String) :
    DataOutcome c id octets endStream padding (c.connError code msg).2
  | reset {s : Stream} (hs : c.streams.get id = some s)
      (hwhy : s.bodyExpected = false ∨ s.canRecv = false) (code : ErrorCode) (msg : String) :
    DataOutcome c id octets endStream padding (c.streamError id code msg)
  | overrun {s : Stream} (hs : c.streams.get id = some s) (hrecv : s.canRecv = true)
      (code : ErrorCode) (msg : String) :
    DataOutcome c id octets endStream padding
      ((c.updateStream id (·.receive octets endStream padding)).connError code msg).2
  | overflowed {s : Stream} (hs : c.streams.get id = some s) (hbody : s.bodyExpected = true)
      (hrecv : s.canRecv = true) (hover : (checkedAdd s.recvBodyLen octets.length).isNone = true)
      (code : ErrorCode) (msg : String) :
    DataOutcome c id octets endStream padding
      ((c.updateStream id (·.receive octets endStream padding)).streamError id code msg)
  | mismatched {s : Stream} (hs : c.streams.get id = some s) (hrecv : Receivable s octets)
      (hfits : (octets.length + padding : ℕ) ≤ c.connRecvWindow.size)
      (hended : endStream = true)
      (hbad : (s.receive octets endStream padding).lengthMismatch = true)
      (code : ErrorCode) (msg : String) :
    DataOutcome c id octets endStream padding
      (((c.updateStream id (·.receive octets endStream padding)).charge
        (octets.length + padding)).streamError id code msg)
  | accepted {s : Stream} (hs : c.streams.get id = some s) (hrecv : Receivable s octets)
      (hfits : (octets.length + padding : ℕ) ≤ c.connRecvWindow.size)
      (hgood : endStream = true → (s.receive octets endStream padding).lengthMismatch = false) :
    DataOutcome c id octets endStream padding
      (((c.updateStream id (·.receive octets endStream padding)).charge
        (octets.length + padding)).deliverData id octets endStream (octets.length + padding))

namespace Conn

variable {c : Conn} {id : ℕ}

variable {s : Stream} (p : PendingHeaders) (fields : List HeaderField)

/-- A message that ended with the wrong length resets its stream; nothing else is done. -/
theorem verifyContentLength_cases (hopen : c.closed = false) (hs : c.streams.get id = some s) :
    (s.lengthMismatch = true ∧
      c.verifyContentLength id =
        c.streamError id .protocolError "content-length does not match body" ∧
      (c.verifyContentLength id).streams.contains id = false) ∨
    s.lengthMismatch = false ∧ c.verifyContentLength id = c ∧ c.streams.contains id = true := by
  unfold verifyContentLength
  cases hbad : s.lengthMismatch with
  | true => simp [hs,hbad,streamError,hopen,StreamMap.contains]
  | false => simp [hs,hbad,StreamMap.contains]

theorem verifyEnd_cases (hopen : c.closed = false) (hs : c.streams.get id = some s)
    (endStream : Bool) :
    (endStream = true ∧ s.lengthMismatch = true ∧
      c.verifyEnd id endStream =
        c.streamError id .protocolError "content-length does not match body" ∧
      (c.verifyEnd id endStream).streams.contains id = false) ∨
    (endStream = true → s.lengthMismatch = false) ∧ c.verifyEnd id endStream = c ∧
      c.streams.contains id = true := by
  unfold verifyEnd
  cases endStream with
  | true =>
    rcases verifyContentLength_cases hopen hs with ⟨hbad,heq,hgone⟩ | ⟨hgood,heq,hin⟩
    · exact .inl ⟨rfl,hbad,heq,hgone⟩
    · exact .inr ⟨fun _ => hgood,heq,hin⟩
  | false => exact .inr ⟨by simp,rfl,by simp [StreamMap.contains,hs]⟩

theorem rejectMalformed_outcome (hclosed : ∀ s, c.streams.get p.streamId = some s →
    s.closedBy p.endStream fields = true) (msg : String) :
    HeaderOutcome c p fields (c.rejectMalformed p.streamId msg) := by
  unfold rejectMalformed
  split_ifs
  · exact .reset (Alike.refl c) hclosed _ _
  · exact .reset (alike_acceptPeerId c _) hclosed _ _

section

variable (hopen : c.closed = false)
include hopen

theorem newHeaderBlock_outcome
    (habsent : c.streams.get p.streamId = none) :
    HeaderOutcome c p fields (c.newHeaderBlock p fields).2 := by
  have hnone : ∀ s, c.streams.get p.streamId = some s → s.closedBy p.endStream fields = true := by
    simp [habsent]
  unfold newHeaderBlock
  cases checkHeaderBlock fields (!c.config.client) false with
  | error msg =>
    exact rejectMalformed_outcome p fields hnone msg
  | ok =>
    simp only
    split_ifs with hclient hrecent hgoaway
    · exact .replied _
    · exact .failed (Alike.refl c) _ _
    · exact .reset (Alike.refl c) hnone _ _
    split
    · next streams haccept =>
      have halike := alike_acceptPeerId c p.streamId
      rw [haccept] at halike
      exact .failed halike _ _
    · next streams haccept =>
      have halike := alike_acceptPeerId c p.streamId
      rw [haccept] at halike
      generalize hc₁ : { c with streams := streams } = c₁ at halike ⊢
      obtain ⟨habove,hlast⟩ := of_acceptPeerId haccept
      have hquiet : c.goawaySent = false := by
        by_contra hsent
        exact hgoaway (by simp [hsent,habove])
      have hfresh : Fresh c c₁ p.streamId :=
        ⟨by simpa using hclient,hquiet,habsent,habove,by rw [← hc₁]; exact hlast⟩
      have hpeer : c₁.peer = c.peer := by rw [← hc₁]
      unfold openStream
      split_ifs
      · exact .refused halike hfresh
      cases contentLength fields with
      | error msg =>
        obtain ⟨pp,m,rfl,hm,hlast,hnext,hnone⟩ := halike
        exact .failed ⟨_,m,rfl,hm,hlast,hnext,fun h => by simp [hnone h]⟩ _ _
      | ok length =>
        simp only
        generalize (c₁.pendingPriority[p.streamId]?).getD _ = priority
        generalize hs : c₁.requestStream p fields length priority = s
        have hrequested : Requested s p := by rw [← hs]; exact ⟨rfl,rfl,rfl,rfl,rfl,rfl,rfl⟩
        have hwindow : s.sendWindow = c.peer.initialWindowSize := by rw [← hs,← hpeer]; rfl
        have hpriority : s.priority = priority := by rw [← hs]; rfl
        have hget : (c₁.enroll s).streams.get p.streamId = some s := by
          simp [enroll,hrequested.id]
        have hopen₁ : (c₁.enroll s).closed = false := by rw [← hc₁]; exact hopen
        rcases verifyEnd_cases hopen₁ hget p.endStream with
          ⟨hended,-,heq,hgone⟩ | ⟨-,heq,hin⟩
        · rw [announce,hgone,heq]
          exact .openedReset halike hfresh hrequested hwindow hended _ _
        · rw [heq,announce,if_pos hin,← hpriority]
          exact .opened halike hfresh hrequested hwindow

theorem trailerBlock_outcome (hs : c.streams.get p.streamId = some s)
    (hdelivered : s.headersDelivered = true) (hstate : s.state ≠ .closed) :
    HeaderOutcome c p fields (c.trailerBlock p fields).2 := by
  unfold trailerBlock
  cases hcheck : checkHeaderBlock fields false true with
  | error msg =>
    refine rejectMalformed_outcome p fields (fun s' hs' => ?_) msg
    cases hs.symm.trans hs'
    simp [Stream.closedBy,hdelivered,hcheck,Except.isOk,Except.toBool]
  | ok =>
    rcases verifyContentLength_cases hopen hs with ⟨hbad,heq,hgone⟩ | ⟨hgood,heq,hin⟩
    · rw [hgone,heq]
      refine .reset (Alike.refl c) (fun s' hs' => ?_) _ _
      cases hs.symm.trans hs'
      simp [Stream.closedBy,hdelivered,hbad]
    · rw [heq,if_pos hin]
      exact .trailers hs hdelivered (fun h => by simp [Stream.closedBy,hdelivered,h]) hstate

theorem responseBlock_outcome (hclient : c.config.client = true)
    (hs : c.streams.get p.streamId = some s) (hdelivered : s.headersDelivered = false) :
    HeaderOutcome c p fields (c.responseBlock p s fields).2 := by
  have hclosed : p.endStream = true → s.closedBy p.endStream fields = true := by
    intro hended
    simp [Stream.closedBy,hdelivered,hended]
  unfold responseBlock
  cases hcheck : checkHeaderBlock fields false false with
  | error msg =>
    refine rejectMalformed_outcome p fields (fun s' hs' => ?_) msg
    cases hs.symm.trans hs'
    simp [Stream.closedBy,hdelivered,hcheck,Except.isOk,Except.toBool]
  | ok =>
    simp only
    cases contentLength fields with
    | error msg => exact .failed (Alike.refl c) _ _
    | ok length =>
      split_ifs with hinfo hended
      · have heq : ((c.pushFrame (.rstStream p.streamId .cancel)).pushEvent (.streamError p.streamId
            .cancel "peer sent only an informational response")).closeStream p.streamId =
            c.streamError p.streamId .cancel "peer sent only an informational response" := by
          simp only [streamError,reportStreamError,hopen,StreamMap.contains,hs,
            Option.isSome_some,if_true,Bool.false_eq_true,if_false]
          rfl
        rw [heq]
        refine .reset (Alike.refl c) (fun s' hs' => ?_) _ _
        cases hs.symm.trans hs'
        exact hclosed hended
      · exact .ignored
      · unfold finalResponse
        simp only
        generalize hpriority : (c.pendingPriority[p.streamId]?).getD _ = priority
        have halike : Alike c { c with pendingPriority := c.pendingPriority.erase p.streamId } :=
          ⟨_,_,rfl,fun _ => rfl,le_rfl,rfl,fun h => by simp [h]⟩
        generalize hc₁ : { c with pendingPriority := c.pendingPriority.erase p.streamId } = c₁
          at halike ⊢
        split_ifs with hstate
        · exact .stuck halike length _ _
        have hopen₁ : c₁.closed = false := by rw [← hc₁]; exact hopen
        have hget : (c₁.updateStream p.streamId
            (·.respond p.endStream fields length priority)).streams.get p.streamId =
            some (s.respond p.endStream fields length priority) := by
          have : c₁.streams = c.streams := by rw [← hc₁]
          simp [updateStream,get_update,this,hs]
        have hstate' : s.state = .open ∨ s.state = .halfClosedLocal := by tauto
        rcases verifyEnd_cases
          (c := c₁.updateStream p.streamId (·.respond p.endStream fields length priority))
          hopen₁ hget p.endStream with ⟨hended,-,heq,hgone⟩ | ⟨-,heq,hin⟩
        · have hclose : ∀ c' : Conn, c'.streams.contains p.streamId = false →
              c'.closeIfClosed p.streamId = c' := by
            intro c' hc'
            have : c'.streams.get p.streamId = none := by simpa [StreamMap.contains] using hc'
            simp [closeIfClosed,this]
          rw [announce,hgone]
          simp only [Bool.false_eq_true,if_false]
          rw [hclose _ hgone,heq]
          exact .respondedReset halike hs hdelivered (hclosed hended) hended length priority _ _
            hclient hpriority
        · rw [heq,announce,if_pos hin]
          exact .responded halike hclient hs hdelivered hstate' hclosed length priority hpriority

theorem headerBlock_outcome :
    HeaderOutcome c p fields (c.headerBlock p fields).2 := by
  unfold headerBlock
  cases hs : c.streams.get p.streamId with
  | none => exact newHeaderBlock_outcome p fields hopen hs
  | some s =>
    simp only
    split_ifs with hclosed hdelivered hserver
    · exact .replied _
    · exact trailerBlock_outcome p fields hopen hs hdelivered (by simpa [Stream.isClosed] using hclosed)
    · exact .failed (Alike.refl c) _ _
    · exact responseBlock_outcome p fields hopen (by simpa using hserver) hs
        (by simpa using hdelivered)

end

theorem onData_outcome (octets : List UInt8) (endStream : Bool) (padding : ℕ)
    (hopen : c.closed = false) :
    DataOutcome c id octets endStream padding (c.onData id octets endStream padding).2 := by
  unfold onData
  cases hs : c.streams.get id with
  | none =>
    split_ifs
    · exact .replied hs _
    · exact .failed _ _
  | some s =>
    simp only
    split_ifs with hbody hrecv hwindow hover hconn
    · exact .reset hs (.inl (by simpa using hbody)) _ _
    · exact .reset hs (.inr (by simpa using hrecv)) _ _
    · exact .failed _ _
    · exact .overflowed hs (by simpa using hbody) (by simpa using hrecv) hover _ _
    · exact .overrun hs (by simpa using hrecv) _ _
    have hreceivable : Receivable s octets :=
      ⟨by simpa using hbody,by simpa using hrecv,by simpa [Option.isSome_iff_ne_none] using hover⟩
    have hfits := not_lt.1 hconn
    have hget : ((c.updateStream id (·.receive octets endStream padding)).charge
        (octets.length+padding)).streams.get id = some (s.receive octets endStream padding) := by
      simp [charge,updateStream,get_update,hs]
    have hopen₁ : ((c.updateStream id (·.receive octets endStream padding)).charge
        (octets.length+padding)).closed = false := hopen
    unfold acceptData
    simp only
    rcases verifyEnd_cases hopen₁ hget endStream with ⟨hended,hbad,heq,hgone⟩ | ⟨hgood,heq,hin⟩
    · rw [hgone,heq]
      exact .mismatched hs hreceivable hfits hended hbad _ _
    · rw [heq,if_pos hin]
      exact .accepted hs hreceivable hfits hgood

/-! ### Rounds of the scheduler -/

end Conn

namespace Conn

variable {c : Conn} {id : ℕ}

theorem settle_cases (c : Conn) (id : ℕ) (s : Stream) (endStream : Bool) :
    (endStream = true ∧ s.state = .halfClosedRemote ∧
      c.settle id s endStream = (c.pushEvent (.streamClosed id)).closeStream id) ∨
    ∃ f : Stream → Stream, c.settle id s endStream = (c.updateStream id f).reschedule id ∧
      ((∀ s, f s = s) ∨
        s.state = .open ∧ endStream = true ∧ ∀ s, f s = { s with state := .halfClosedLocal }) := by
  unfold settle
  by_cases hremote : endStream && s.state = .halfClosedRemote
  · rw [if_pos hremote]
    simp only [Bool.and_eq_true,decide_eq_true_eq] at hremote
    exact .inl ⟨hremote.1,hremote.2,rfl⟩
  refine .inr ?_
  split_ifs with hlocal
  · simp only [Bool.and_eq_true,decide_eq_true_eq] at hlocal
    exact ⟨_,rfl,.inr ⟨hlocal.2,hlocal.1,fun _ => rfl⟩⟩
  · refine ⟨fun s => s,?_,.inl fun _ => rfl⟩
    rw [updateStream,update_id]

theorem get_emit (c : Conn) (id : ℕ) (t : Taken) (x : ℕ) :
    (c.emit id t).streams.get x =
      if x = id then (c.streams.get id).map (·.pay t.payload.length) else c.streams.get x := by
  obtain ⟨fs,encoder,encoded,-,heq⟩ := c.emit_shape id t
  rw [heq]
  exact get_update _ _ _ _

theorem queue_emit (c : Conn) (id : ℕ) (t : Taken) (x : ℕ) :
    (c.emit id t).queue x = if x = id then t.queue else c.queue x := by
  obtain ⟨fs,encoder,encoded,-,heq⟩ := c.emit_shape id t
  rw [heq]
  change ((c.sendQueue.insert id t.queue)[x]?).getD [] = _
  rw [OrderedMap.get_insert]
  split_ifs <;> rfl

theorem get_serve {x : ℕ} (h : c.streams.get x = none) : (c.serve id).streams.get x = none := by
  rcases c.serve_cases id with ⟨heq,-⟩ | ⟨s,chunk,rest,-,-,-,heq⟩
  · rwa [heq]
  generalize take (c.sendable s) chunk rest = t at heq
  have hemit : ({ c with scheduled := c.scheduled.erase id }.emit id t).streams.get x = none := by
    rw [get_emit]
    split_ifs with hx
    · simp [← hx,h]
    · exact h
  rw [heq]
  rcases settle_cases ({ c with scheduled := c.scheduled.erase id }.emit id t) id s t.endStream with
    ⟨-,-,hsettle⟩ | ⟨f,hsettle,-⟩
  · rw [hsettle,get_closeStream]
    split_ifs
    · rfl
    · exact hemit
  · obtain ⟨scheduler,scheduled,hshape⟩ := reschedule_shape _ id
    rw [hsettle,hshape,updateStream,get_update]
    split_ifs with hx
    · rw [hx] at hemit
      rw [hemit]
      rfl
    · exact hemit

/-! ### Frames -/

def completes (c : Conn) (f : Frame) : Option PendingHeaders :=
  match c.pendingHeaders, f with
  | none, .headers id block endStream true _ => some ⟨id, block, endStream⟩
  | some p, .continuation _ true block => some { p with block := p.block ++ block }
  | _, _ => none

def blockOf (c : Conn) (f : Frame) : Option (PendingHeaders × List HeaderField) :=
  (c.completes f).bind fun p => (c.decoder.decode p.block).toOption.map fun d => (p, d.1)

end Conn

def Frame.flowControlled : Frame → ℕ
  | .data _ octets _ padding => octets.length + padding
  | _ => 0

def Frame.isPlain : Frame → Bool
  | .headers .. => false
  | .continuation .. => false
  | .data .. => false
  | _ => true

inductive InboundOutcome (c : Conn) (r : RawFrame) : Conn → Prop
  | failed (pendingHeaders : Option PendingHeaders) (log : List Frame) (code : ErrorCode)
      (debug : List UInt8) :
    InboundOutcome c r
      { { c with
            pendingHeaders := pendingHeaders
            hist := { c.hist with inbound := log } }.sendGoaway code debug with closed := true }
  | streamScoped (hscoped : r.streamScoped.isSome = true) (code : ErrorCode) (msg : String) :
    InboundOutcome c r (c.streamError r.streamId code msg)
  | pending {f : Frame} (hplain : f.flowControlled = 0) (pendingHeaders : Option PendingHeaders) :
    InboundOutcome c r { c.logInbound f with pendingHeaders := pendingHeaders }
  | block {f : Frame} (hscoped : r.streamScoped = none)
      (hparse : r.parse c.localSettings.maxFrameSize = .ok f) (hplain : f.flowControlled = 0)
      {p : PendingHeaders} {fields : List HeaderField} (hblock : c.blockOf f = some (p, fields))
      (decoder : Hpack.Decoder) {c' : Conn}
      (h : HeaderOutcome { c.logInbound f with pendingHeaders := none, decoder := decoder }
        p fields c') : InboundOutcome c r c'
  | data {id : ℕ} {octets : List UInt8} {endStream : Bool} {padding : ℕ}
      (hscoped : r.streamScoped = none)
      (hparse : r.parse c.localSettings.maxFrameSize = .ok (.data id octets endStream padding))
      (hpending : c.pendingHeaders = none) {c' : Conn}
      (h : DataOutcome (c.logInbound (.data id octets endStream padding)) id octets endStream
        padding c') : InboundOutcome c r c'
  | plain {f : Frame} (hscoped : r.streamScoped = none)
      (hparse : r.parse c.localSettings.maxFrameSize = .ok f) (hpending : c.pendingHeaders = none)
      (hplain : f.isPlain = true) : InboundOutcome c r ((c.logInbound f).dispatch f).2

namespace Conn

variable {c : Conn} {id : ℕ}

theorem finishHeaderBlock_outcome {r : RawFrame} {f : Frame} {p : PendingHeaders}
    (hopen : c.closed = false) (hscoped : r.streamScoped = none)
    (hparse : r.parse c.localSettings.maxFrameSize = .ok f) (hplain : f.flowControlled = 0)
    (hcompletes : c.completes f = some p) :
    InboundOutcome c r ({ c.logInbound f with pendingHeaders := none }.finishHeaderBlock p).2 := by
  unfold finishHeaderBlock
  cases hdecode : c.decoder.decode p.block with
  | error e =>
    simp only [logInbound,hdecode]
    exact .failed none _ _ _
  | ok decoded =>
    obtain ⟨fields,decoder⟩ := decoded
    simp only [logInbound,hdecode]
    refine .block hscoped hparse hplain ?_ decoder (headerBlock_outcome p fields hopen)
    simp [blockOf,hcompletes,hdecode,Except.toOption]

theorem receive_outcome (r : RawFrame) (hopen : c.closed = false) :
    InboundOutcome c r (c.receive r).2 := by
  unfold receive
  rw [if_neg (by simp [hopen])]
  by_cases hlarge : c.localSettings.maxFrameSize < r.payload.length
  · rw [if_pos hlarge]
    exact .failed c.pendingHeaders c.hist.inbound _ _
  rw [if_neg hlarge]
  cases hscoped : r.streamScoped with
  | some err =>
    split_ifs
    · exact .failed c.pendingHeaders c.hist.inbound _ _
    · exact .streamScoped (by simp [hscoped]) _ _
  | none =>
    cases hparse : r.parse c.localSettings.maxFrameSize with
    | error e => exact .failed c.pendingHeaders c.hist.inbound _ _
    | ok f =>
      unfold processFrame
      cases hpending : c.pendingHeaders with
      | none =>
        have hpending' : (c.logInbound f).pendingHeaders = none := hpending
        simp only [hpending']
        cases f with
        | headers id block endStream endHeaders priority =>
          simp only [dispatch]
          split_ifs with hend
          · have hcompletes : c.completes (.headers id block endStream endHeaders priority) =
                some ⟨id,block,endStream⟩ := by
              rw [hend]
              simp [completes,hpending]
            have := finishHeaderBlock_outcome hopen hscoped hparse rfl hcompletes
            have heq : { c.logInbound (.headers id block endStream endHeaders priority) with
                pendingHeaders := none } =
                c.logInbound (.headers id block endStream endHeaders priority) := by
              simp only [logInbound,hpending]
            rwa [heq] at this
          · exact .pending rfl _
        | continuation id endHeaders block => exact .failed c.pendingHeaders _ _ _
        | data id octets endStream padding =>
          exact .data hscoped hparse hpending (onData_outcome octets endStream padding hopen)
        | _ => exact .plain hscoped hparse hpending rfl
      | some p =>
        have hpending' : (c.logInbound f).pendingHeaders = some p := hpending
        simp only [hpending']
        split
        · next id endHeaders block =>
          unfold continueBlock
          split_ifs with hid hcap hend
          · exact .failed c.pendingHeaders _ _ _
          · exact .failed c.pendingHeaders _ _ _
          · refine finishHeaderBlock_outcome hopen hscoped hparse rfl ?_
            rw [hend]
            simp [completes,hpending]
          · exact .pending rfl _
        · exact .failed c.pendingHeaders _ _ _

/-! ### Calls of the application, SETTINGS and WINDOW_UPDATE -/

theorem sendHeaders_cases (c : Conn) (id : ℕ) (fields : List HeaderField) (endStream : Bool) :
    (∃ e, c.sendHeaders id fields endStream = (.error e,c)) ∨
    ∃ s, c.streams.get id = some s ∧
      c.sendHeaders id fields endStream = (.ok (),c.sendHead id s fields endStream) := by
  unfold sendHeaders
  split
  · exact .inl ⟨_,rfl⟩
  split
  · exact .inl ⟨_,rfl⟩
  split
  · exact .inl ⟨_,rfl⟩
  · next s hs =>
    split_ifs
    · exact .inl ⟨_,rfl⟩
    · exact .inr ⟨s,hs,rfl⟩

/-- What `send_headers` writes to its stream. -/
def headUpdate (s : Stream) (fields : List HeaderField) (endStream : Bool) (s' : Stream) : Stream :=
  { s' with
    bodyExpected := methodExpectsBody fields
    state := s.state.sendHead endStream
    sendDone := endStream }

theorem sendHead_cases (c : Conn) (id : ℕ) (s : Stream) (fields : List HeaderField)
    (endStream : Bool) : ∃ block encoder, c.encoder.encode fields = (block,encoder) ∧
    ((s.state.sendHead endStream = .closed ∧ c.sendHead id s fields endStream =
      ((((c.produce block encoder).updateStream id (headUpdate s fields endStream)).pushEvent
        (.streamClosed id)).closeStream id).pushFrames
          (headerFrames id block endStream c.peer.maxFrameSize)) ∨
    s.state.sendHead endStream ≠ .closed ∧ c.sendHead id s fields endStream =
      ((c.produce block encoder).updateStream id (headUpdate s fields endStream)).pushFrames
        (headerFrames id block endStream c.peer.maxFrameSize)) := by
  refine ⟨(c.encoder.encode fields).1,(c.encoder.encode fields).2,rfl,?_⟩
  unfold sendHead
  simp only
  by_cases hclosed : s.state.sendHead endStream = .closed
  · refine .inl ⟨hclosed,?_⟩
    rw [if_pos hclosed]
    rfl
  · refine .inr ⟨hclosed,?_⟩
    rw [if_neg hclosed]
    rfl

theorem sendData_cases (c : Conn) (id : ℕ) (octets : List UInt8) (endStream : Bool) :
    (c.sendData id octets endStream).2 = c ∨
    ∃ s, c.streams.get id = some s ∧ s.canSend = true ∧
      (c.sendData id octets endStream).2 = c.enqueue id ⟨octets,endStream,none⟩ := by
  unfold sendData
  split
  · exact .inl rfl
  split
  · exact .inl rfl
  · next s hs =>
    split_ifs with hsend
    · exact .inl rfl
    · exact .inl rfl
    · exact .inr ⟨s,hs,by simpa using hsend,rfl⟩

theorem sendTrailers_cases (c : Conn) (id : ℕ) (fields : List HeaderField) :
    (∃ e, c.sendTrailers id fields = (.error e,c)) ∨
    ∃ s, c.streams.get id = some s ∧ s.canSend = true ∧
      c.sendTrailers id fields = (.ok (),c.enqueue id ⟨[],true,some fields⟩) := by
  unfold sendTrailers
  split
  · exact .inl ⟨_,rfl⟩
  split
  · exact .inl ⟨_,rfl⟩
  split
  · exact .inl ⟨_,rfl⟩
  · next s hs =>
    split_ifs with hsend
    · exact .inl ⟨_,rfl⟩
    · exact .inr ⟨s,hs,by simpa using hsend,rfl⟩

theorem openRequest_cases (c : Conn) (priority : Priority) :
    (c.openRequest priority).2 = c ∨
    c.config.client = true ∧ c.streams.nextClientId ≤ 0x7fffffff ∧
      (c.openRequest priority).2 =
        { c with
          streams := { c.streams with nextClientId := c.streams.nextClientId+2 }.insert
            { id := c.streams.nextClientId
              priority := priority
              sendWindow := c.peer.initialWindowSize
              recvWindow := c.localSettings.initialWindowSize } } := by
  unfold openRequest
  split_ifs with hserver hgoaway
  · exact .inl rfl
  · exact .inl rfl
  unfold StreamMap.allocateClientId
  split_ifs with hmany
  · exact .inl rfl
  · refine .inr ⟨by simpa using hserver,by omega,?_⟩
    rw [Nat.mod_eq_of_lt (by omega)]

theorem onSettings_cases (c : Conn) (entries : List Setting) :
    (∃ encoder code msg, (encoder = c.encoder ∨ ∃ n, encoder = c.encoder.setPeerTableSize n) ∧
      (c.onSettings entries).2 = ({ c with encoder := encoder }.connError code msg).2) ∨
    ∃ encoder settings, encoder = c.encoder.setPeerTableSize settings.headerTableSize ∧
      c.peer.apply entries = .ok settings ∧
      ((settings.initialWindowSize : ℤ)-c.peer.initialWindowSize ≠ 0 →
        ∀ id s, c.streams.get id = some s →
          satI64 (s.sendWindow+(settings.initialWindowSize-c.peer.initialWindowSize)) ≤
            MAX_FLOW_WINDOW) ∧
      (c.onSettings entries).2 = { c with encoder := encoder }.adoptSettings settings
        (settings.initialWindowSize-c.peer.initialWindowSize) := by
  unfold onSettings
  cases happly : c.peer.apply entries with
  | error e => exact .inl ⟨c.encoder,_,_,.inl rfl,rfl⟩
  | ok settings =>
    simp only
    split_ifs with hpush hpriorities hwide
    · exact .inl ⟨c.encoder,_,_,.inl rfl,rfl⟩
    · exact .inl ⟨c.encoder,_,_,.inl rfl,rfl⟩
    · exact .inl ⟨_,_,_,.inr ⟨_,rfl⟩,rfl⟩
    · refine .inr ⟨_,settings,rfl,rfl,fun hdelta id s hs => ?_,rfl⟩
      by_contra hbig
      refine hwide ⟨hdelta,id,mem_ids.2 (by simp [hs]),?_⟩
      simpa [hs] using hbig

theorem onWindowUpdate_cases (c : Conn) (id increment : ℕ) :
    (c.onWindowUpdate id increment).2 = c ∨
    (∃ code msg, (c.onWindowUpdate id increment).2 = (c.connError code msg).2) ∨
    (∃ window, id = 0 ∧ c.connSendWindow.increase increment = some window ∧
      (c.onWindowUpdate id increment).2 = (c.creditConn window increment).wakeBuffered) ∨
    ∃ s, id ≠ 0 ∧ c.streams.get id = some s ∧
      satI64 (s.sendWindow+increment) ≤ MAX_FLOW_WINDOW ∧
      (c.onWindowUpdate id increment).2 = (c.updateStream id fun s' =>
        { s' with sendWindow := satI64 (s.sendWindow+increment) }).maybeSchedule id := by
  unfold onWindowUpdate
  by_cases hid : id = 0
  · rw [if_pos hid]
    cases hincrease : c.connSendWindow.increase increment with
    | none => exact .inr (.inl ⟨_,_,rfl⟩)
    | some window => exact .inr (.inr (.inl ⟨window,hid,rfl,rfl⟩))
  cases hs : c.streams.get id with
  | none =>
    simp only
    generalize (if c.config.client = true then decide (id < c.streams.nextClientId)
      else decide (id ≤ c.streams.lastPeerId)) = opened
    split_ifs
    · exact .inl rfl
    · exact .inr (.inl ⟨_,_,rfl⟩)
  | some s =>
    simp only
    split_ifs with hbig
    · exact .inr (.inl ⟨_,_,rfl⟩)
    · exact .inr (.inr (.inr ⟨s,hid,rfl,not_lt.1 hbig,rfl⟩))

end Conn

/-! ### What an operation processes -/

structure DataFrame where
  id : ℕ
  octets : List UInt8
  endStream : Bool
  padding : ℕ

namespace DataFrame

def len (d : DataFrame) : ℕ := d.octets.length + d.padding

end DataFrame

namespace Conn

variable {c : Conn} {id : ℕ}

def dataOf (c : Conn) : Op → Option DataFrame
  | .receive r =>
    if c.closed || r.streamScoped.isSome || c.pendingHeaders.isSome then none
    else
      match r.parse c.localSettings.maxFrameSize with
      | .ok (.data id octets endStream padding) => some ⟨id, octets, endStream, padding⟩
      | _ => none
  | _ => none

def blockIn (c : Conn) : Op → Option (PendingHeaders × List HeaderField)
  | .receive r =>
    if c.closed || r.streamScoped.isSome then none
    else
      match r.parse c.localSettings.maxFrameSize with
      | .ok f => c.blockOf f
      | .error _ => none
  | _ => none

theorem step_of_dataOf {op : Op} {d : DataFrame} (h : c.dataOf op = some d) :
    c.closed = false ∧ d.id ≠ 0 ∧
      DataOutcome (c.logInbound (.data d.id d.octets d.endStream d.padding)) d.id d.octets
        d.endStream d.padding (c.step op) := by
  cases op with
  | receive r =>
    simp only [dataOf] at h
    split_ifs at h with hnone
    simp only [Bool.or_eq_true,not_or,Bool.not_eq_true] at hnone
    obtain ⟨⟨hopen,hscoped⟩,hpending⟩ := hnone
    split at h
    · next id octets endStream padding hparse =>
      cases h
      obtain ⟨hlen,hpayload⟩ := Frame.parse_ok hparse
      refine ⟨hopen,Frame.parsePayload_data hpayload,?_⟩
      have hscoped' : r.streamScoped = none := by simpa using hscoped
      have hpending' :
          (c.logInbound (.data id octets endStream padding)).pendingHeaders = none := by
        change c.pendingHeaders = none
        simpa using hpending
      have heq : c.step (.receive r) =
          ((c.logInbound (.data id octets endStream padding)).onData id octets endStream padding).2 := by
        have hlen' : ¬ c.localSettings.maxFrameSize < r.payload.length := not_lt.2 hlen
        simp only [step,receive,hopen,Bool.false_eq_true,if_false,if_neg hlen',hscoped',
          hparse,processFrame,hpending',dispatch]
      rw [heq]
      exact onData_outcome octets endStream padding hopen
    · cases h
  | _ => cases h

end Conn

end Courierust.H2
