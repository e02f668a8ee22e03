import Courierust.H2.Refine

/-!
# Flushing does not show

Inbound processing never looks at the scheduler or at the frames that wait to be written. So
on a connection with no body to send, where a flush does nothing else, it does not matter
between which frames of the peer a flush happens.
-/

namespace Courierust.H2

open Hpack (HeaderField)

def Conn.mask (c : Conn) (scheduler : Scheduler) (scheduled : Finset ℕ)
    (pending written : List Frame) : Conn :=
  { c with
    scheduler := scheduler
    scheduled := scheduled
    pendingFrames := pending
    hist := { c.hist with written := written } }

def Conn.Idle (c : Conn) : Prop := c.settingsSent = true ∧ ∀ id, c.queue id = []

def Twin (c c' : Conn) : Prop :=
  c.Idle ∧ ∃ scheduler scheduled pending written,
    c' = c.mask scheduler scheduled pending written

/-- The same result on twins; an error is one of the connection. -/
def Twins (r r' : Except Error Unit × Conn) : Prop :=
  r.1 = r'.1 ∧ Twin r.2 r'.2 ∧ ∀ e, r.1 = .error e → ∃ code, e.kind = .h2 code

namespace Twin

variable {c c' c'' : Conn} {id : ℕ}

theorem refl (h : c.Idle) : Twin c c :=
  ⟨h,c.scheduler,c.scheduled,c.pendingFrames,c.hist.written,rfl⟩

theorem trans (h : Twin c c') (h' : Twin c' c'') : Twin c c'' := by
  obtain ⟨hq,_,_,_,_,rfl⟩ := h
  obtain ⟨_,s,sd,p,w,rfl⟩ := h'
  exact ⟨hq,s,sd,p,w,rfl⟩

theorem symm (h : Twin c c') : Twin c' c := by
  obtain ⟨hq,s,sd,p,w,rfl⟩ := h
  exact ⟨hq,c.scheduler,c.scheduled,c.pendingFrames,c.hist.written,rfl⟩

theorem ok (h : Twin c c') : Twins (.ok (),c) (.ok (),c') :=
  ⟨rfl,h,fun _ he => by cases he⟩

/-! ### Primitives -/

section

variable (h : Twin c c')
include h

theorem pushFrame (f : Frame) : Twin (c.pushFrame f) (c'.pushFrame f) := by
  obtain ⟨hq,s,sd,p,w,rfl⟩ := h
  exact ⟨hq,s,sd,p ++ [f],w,rfl⟩

theorem pushEvent (e : Event) : Twin (c.pushEvent e) (c'.pushEvent e) := by
  obtain ⟨hq,s,sd,p,w,rfl⟩ := h
  exact ⟨hq,s,sd,p,w,rfl⟩

theorem updateStream (id : ℕ) (f : Stream → Stream) :
    Twin (c.updateStream id f) (c'.updateStream id f) := by
  obtain ⟨hq,s,sd,p,w,rfl⟩ := h
  exact ⟨hq,s,sd,p,w,rfl⟩

theorem sendGoaway (code : ErrorCode) (debug : List UInt8) :
    Twin (c.sendGoaway code debug) (c'.sendGoaway code debug) := by
  obtain ⟨hq,s,sd,p,w,rfl⟩ := h
  unfold Conn.sendGoaway
  change Twin _ (if c.goawaySent || c.closed then _ else _)
  split_ifs
  · exact ⟨hq,s,sd,p,w,rfl⟩
  · exact ⟨hq,s,sd,p ++ [.goAway c.streams.lastPeerId code debug],w,rfl⟩

theorem close : Twin { c with closed := true } { c' with closed := true } := by
  obtain ⟨hq,s,sd,p,w,rfl⟩ := h
  exact ⟨hq,s,sd,p,w,rfl⟩

theorem fails (code : ErrorCode) (debug : List UInt8) (msg : String) :
    Twins (.error (h2Error code msg),{ c.sendGoaway code debug with closed := true })
      (.error (h2Error code msg),{ c'.sendGoaway code debug with closed := true }) := by
  refine ⟨rfl,(h.sendGoaway code debug).close,?_⟩
  rintro _ ⟨⟩
  exact ⟨_,rfl⟩

theorem connError (code : ErrorCode) (msg : String) :
    Twins (c.connError code msg) (c'.connError code msg) :=
  h.fails code (textBytes msg) msg

theorem closeStream (id : ℕ) : Twin (c.closeStream id) (c'.closeStream id) := by
  obtain ⟨hq,s,sd,p,w,rfl⟩ := h
  have hreturn : (c.mask s sd p w).returnCredit id = (c.returnCredit id).mask s sd p w := by
    unfold Conn.returnCredit
    have hget : (c.mask s sd p w).streams.get id = c.streams.get id := rfl
    rw [hget]
    cases c.streams.get id with
    | none => rfl
    | some s =>
      simp only
      split_ifs <;> rfl
  have hgrant : ∃ p', ((c.returnCredit id).mask s sd p w).grantReturned =
      (c.returnCredit id).grantReturned.mask s sd p' w := by
    unfold Conn.grantReturned
    change ∃ p', (if CONN_THRESHOLD ≤ (c.returnCredit id).connPendingRelease then _ else _) = _
    split_ifs
    · exact ⟨p ++ [_],rfl⟩
    · exact ⟨p,rfl⟩
  obtain ⟨p',hgrant⟩ := hgrant
  refine ⟨⟨?_,fun x => ?_⟩,s.remove id,sd.erase id,p',w,?_⟩
  · obtain ⟨window,pending,fs,-,heq⟩ := c.closeStream_shape id
    rw [heq]
    exact hq.1
  · rw [Conn.queue_closeStream,hq.2]
    exact ite_self _
  · unfold Conn.closeStream
    rw [hreturn,hgrant]
    rfl

theorem streamError (id : ℕ) (code : ErrorCode) (msg : String) :
    Twin (c.streamError id code msg) (c'.streamError id code msg) := by
  have hclosed : c'.closed = c.closed := by
    obtain ⟨-,s,sd,p,w,rfl⟩ := h
    rfl
  have hstreams : c'.streams = c.streams := by
    obtain ⟨-,s,sd,p,w,rfl⟩ := h
    rfl
  unfold Conn.streamError Conn.reportStreamError
  rw [hclosed,hstreams]
  split_ifs
  · exact h
  · exact ((h.pushEvent _).pushFrame _).closeStream id
  · exact (h.pushFrame _).closeStream id

end

theorem maybeSchedule_eq (hq : c.Idle) (id : ℕ) : c.maybeSchedule id = c := by
  unfold Conn.maybeSchedule
  rw [if_pos (hq.2 id),ite_self]

theorem wakeBuffered_eq (hq : c.Idle) : c.wakeBuffered = c := by
  unfold Conn.wakeBuffered
  generalize c.streams.ids.filter _ = ids
  induction ids with
  | nil => rfl
  | cons id ids ih => rw [List.foldl_cons,maybeSchedule_eq hq,ih]

theorem releaseData (h : Twin c c') (id n : ℕ) : Twin (c.releaseData id n) (c'.releaseData id n) := by
  have hstream : Twin (c.releaseStream id) (c'.releaseStream id) := by
    obtain ⟨hq,s,sd,p,w,rfl⟩ := h
    unfold Conn.releaseStream
    have hget : (c.mask s sd p w).streams.get id = c.streams.get id := rfl
    rw [hget]
    cases c.streams.get id with
    | none => exact ⟨hq,s,sd,p,w,rfl⟩
    | some st =>
      simp only
      change Twin _ (if c.streamThreshold ≤ st.recvUnreleased then _ else _)
      split_ifs
      · exact ⟨hq,s,sd,p ++ [_],w,rfl⟩
      · exact ⟨hq,s,sd,p,w,rfl⟩
  unfold Conn.releaseData
  generalize c.releaseStream id = a at hstream
  generalize c'.releaseStream id = b at hstream
  obtain ⟨hq,s,sd,p,w,rfl⟩ := hstream
  unfold Conn.releaseConn
  change Twin _ (if CONN_THRESHOLD ≤ a.connPendingRelease+n then _ else _)
  simp only
  split_ifs
  · exact ⟨hq,s,sd,p ++ [_],w,rfl⟩
  · exact ⟨hq,s,sd,p,w,rfl⟩

/-! ### What inbound processing looks at -/

section
variable (h : Twin c c')
include h

theorem same : c'.config = c.config ∧ c'.decoder = c.decoder ∧
    c'.localSettings = c.localSettings ∧ c'.peer = c.peer ∧
    c'.encoder = c.encoder ∧ c'.pendingHeaders = c.pendingHeaders ∧
    c'.streams = c.streams ∧ c'.pendingPriority = c.pendingPriority ∧
    c'.connSendWindow = c.connSendWindow ∧ c'.connRecvWindow = c.connRecvWindow ∧
    c'.recentlyClosed = c.recentlyClosed ∧ c'.localHeaderCap = c.localHeaderCap ∧
    c'.goawaySent = c.goawaySent ∧ c'.closed = c.closed := by
  obtain ⟨-,s,sd,p,w,rfl⟩ := h
  exact ⟨rfl,rfl,rfl,rfl,rfl,rfl,rfl,rfl,rfl,rfl,rfl,rfl,rfl,rfl⟩

/-- The same frames were processed, the same events delivered and the same frames queued. -/
theorem hist : c'.hist.inbound = c.hist.inbound ∧ c'.hist.delivered = c.hist.delivered ∧
    c'.hist.queued = c.hist.queued := by
  obtain ⟨-,s,sd,p,w,rfl⟩ := h
  exact ⟨rfl,rfl,rfl⟩

theorem write {f : Conn → Conn} (hidle : c.Idle → (f c).Idle)
    (hf : ∀ s sd p w, f (c.mask s sd p w) = (f c).mask s sd p w) : Twin (f c) (f c') := by
  obtain ⟨hq,s,sd,p,w,rfl⟩ := h
  exact ⟨hidle hq,s,sd,p,w,hf s sd p w⟩

/-! ### Header blocks -/

theorem setStreams (streams : StreamMap) :
    Twin { c with streams := streams } { c' with streams := streams } :=
  h.write (f := fun c => { c with streams := streams }) (fun hq => hq) fun _ _ _ _ => rfl

theorem setPendingPriority (priority : Std.ExtTreeMap ℕ Priority) :
    Twin { c with pendingPriority := priority } { c' with pendingPriority := priority } :=
  h.write (f := fun c => { c with pendingPriority := priority }) (fun hq => hq) fun _ _ _ _ => rfl

theorem setPendingHeaders (p : Option PendingHeaders) :
    Twin { c with pendingHeaders := p } { c' with pendingHeaders := p } :=
  h.write (f := fun c => { c with pendingHeaders := p }) (fun hq => hq) fun _ _ _ _ => rfl

theorem rejectMalformed (id : ℕ) (msg : String) :
    Twin (c.rejectMalformed id msg) (c'.rejectMalformed id msg) := by
  obtain ⟨_,_,_,_,rfl⟩ := h.2
  unfold Conn.rejectMalformed
  simp only [h.same]
  by_cases hclient : c.config.client
  · rw [if_pos hclient,if_pos hclient]
    exact h.streamError _ _ _
  · rw [if_neg hclient,if_neg hclient]
    exact (h.setStreams _).streamError _ _ _

theorem verifyContentLength (id : ℕ) :
    Twin (c.verifyContentLength id) (c'.verifyContentLength id) := by
  unfold Conn.verifyContentLength
  simp only [h.same]
  split_ifs
  · exact h.streamError _ _ _
  · exact h

theorem verifyEnd (id : ℕ) (endStream : Bool) :
    Twin (c.verifyEnd id endStream) (c'.verifyEnd id endStream) := by
  unfold Conn.verifyEnd
  split_ifs
  · exact h.verifyContentLength id
  · exact h

theorem closeIfClosed (id : ℕ) : Twin (c.closeIfClosed id) (c'.closeIfClosed id) := by
  unfold Conn.closeIfClosed
  simp only [h.same]
  split_ifs
  · exact (h.pushEvent _).closeStream id
  · exact h

theorem announce (id : ℕ) (e : Event) : Twin (c.announce id e) (c'.announce id e) := by
  unfold Conn.announce
  simp only [h.same]
  split_ifs
  · exact h.pushEvent e
  · exact h

variable (p : PendingHeaders) (s : Stream) (fields : List HeaderField)

theorem enroll : Twin (c.enroll s) (c'.enroll s) := by
  obtain ⟨_,_,_,_,rfl⟩ := h.2
  exact (h.setPendingPriority (c.pendingPriority.erase s.id)).setStreams (c.streams.insert s)

theorem openStream : Twins (c.openStream p fields) (c'.openStream p fields) := by
  obtain ⟨_,_,_,_,rfl⟩ := h.2
  unfold Conn.openStream
  simp only [h.same]
  split_ifs
  · exact ((h.pushFrame _).pushEvent _).ok
  · cases contentLength fields with
    | error msg => exact (h.setPendingPriority _).connError _ _
    | ok length => exact (((h.enroll _).verifyEnd _ _).announce _ _).ok

theorem newHeaderBlock : Twins (c.newHeaderBlock p fields) (c'.newHeaderBlock p fields) := by
  obtain ⟨_,_,_,_,rfl⟩ := h.2
  unfold Conn.newHeaderBlock
  simp only [h.same]
  cases checkHeaderBlock fields (!c.config.client) false with
  | error msg => exact (h.rejectMalformed _ _).ok
  | ok _ =>
    simp only
    split_ifs
    · exact (h.pushFrame _).ok
    · exact h.connError _ _
    · exact (h.streamError _ _ _).ok
    · rcases c.streams.acceptPeerId p.streamId with ⟨accepted,streams⟩
      cases accepted with
      | false => exact (h.setStreams streams).connError _ _
      | true => exact (h.setStreams streams).openStream p fields

theorem trailerBlock : Twins (c.trailerBlock p fields) (c'.trailerBlock p fields) := by
  have hverify := h.verifyContentLength p.streamId
  unfold Conn.trailerBlock
  simp only [hverify.same]
  cases checkHeaderBlock fields false true with
  | error msg => exact (h.rejectMalformed _ _).ok
  | ok _ =>
    simp only
    split_ifs
    · exact (((hverify.pushEvent _).updateStream _ _).closeIfClosed _).ok
    · exact hverify.ok

theorem finalResponse (length : Option ℕ) :
    Twins (c.finalResponse p s fields length) (c'.finalResponse p s fields length) := by
  obtain ⟨_,_,_,_,rfl⟩ := h.2
  unfold Conn.finalResponse
  split_ifs
  · exact ((h.setPendingPriority _).updateStream _ _).connError _ _
  · exact (((((h.setPendingPriority _).updateStream _ _).verifyEnd _ _).announce _ _).closeIfClosed
      _).ok

theorem responseBlock : Twins (c.responseBlock p s fields) (c'.responseBlock p s fields) := by
  unfold Conn.responseBlock
  simp only
  cases checkHeaderBlock fields false false with
  | error msg => exact (h.rejectMalformed _ _).ok
  | ok _ =>
    cases contentLength fields with
    | error msg => exact h.connError _ _
    | ok length =>
      simp only
      split_ifs
      · exact (((h.pushFrame _).pushEvent _).closeStream _).ok
      · exact h.ok
      · exact h.finalResponse p s fields length

theorem headerBlock : Twins (c.headerBlock p fields) (c'.headerBlock p fields) := by
  unfold Conn.headerBlock
  simp only [h.same]
  cases c.streams.get p.streamId with
  | none => exact h.newHeaderBlock p fields
  | some s =>
    simp only
    split_ifs
    · exact (h.pushFrame _).ok
    · exact h.trailerBlock p fields
    · exact h.connError _ _
    · exact h.responseBlock p s fields

theorem finishHeaderBlock : Twins (c.finishHeaderBlock p) (c'.finishHeaderBlock p) := by
  obtain ⟨_,_,_,_,rfl⟩ := h.2
  unfold Conn.finishHeaderBlock
  simp only [h.same]
  cases c.decoder.decode p.block with
  | error e => exact h.connError _ _
  | ok r =>
    exact (h.write (f := fun c => { c with decoder := r.2 }) (fun hq => hq)
      fun _ _ _ _ => rfl).headerBlock p r.1

/-! ### DATA, SETTINGS and WINDOW_UPDATE -/

theorem acceptData (id : ℕ) (octets : List UInt8) (endStream : Bool) (padding : ℕ) :
    Twin (c.acceptData id octets endStream padding) (c'.acceptData id octets endStream padding) := by
  have hcharge :=
    h.write (f := fun c => c.charge (octets.length+padding)) (fun hq => hq) fun _ _ _ _ => rfl
  have hverify := hcharge.verifyEnd id endStream
  unfold Conn.acceptData
  simp only
  simp only [hverify.same]
  split_ifs
  · have hevent := hverify.pushEvent (.data id octets endStream)
    have hrelease := hevent.releaseData id (octets.length+padding)
    unfold Conn.deliverData Conn.autoRelease
    simp only [hevent.same]
    by_cases hauto : (((c.charge (octets.length+padding)).verifyEnd id endStream).pushEvent
        (.data id octets endStream)).config.autoReleaseCredit
    · rw [if_pos hauto,if_pos hauto]
      cases endStream with
      | true => exact hrelease.closeIfClosed id
      | false => exact hrelease
    · rw [if_neg hauto,if_neg hauto]
      cases endStream with
      | true => exact hevent.closeIfClosed id
      | false => exact hevent
  · exact hverify

theorem onData (id : ℕ) (octets : List UInt8) (endStream : Bool) (padding : ℕ) :
    Twins (c.onData id octets endStream padding) (c'.onData id octets endStream padding) := by
  have hstream := h.updateStream id (·.receive octets endStream padding)
  unfold Conn.onData
  simp only [h.same]
  cases c.streams.get id with
  | none =>
    simp only
    split_ifs
    · exact (h.pushFrame _).ok
    · exact h.connError _ _
  | some s =>
    simp only
    simp only [hstream.same]
    split_ifs
    · exact (h.streamError _ _ _).ok
    · exact (h.streamError _ _ _).ok
    · exact h.connError _ _
    · exact (hstream.streamError _ _ _).ok
    · exact hstream.connError _ _
    · exact (hstream.acceptData _ _ _ _).ok

theorem shiftWindows (delta : ℤ) : Twin (c.shiftWindows delta) (c'.shiftWindows delta) := by
  unfold Conn.shiftWindows
  simp only [h.same]
  generalize c.streams.ids = ids
  induction ids generalizing c c' with
  | nil => exact h
  | cons id ids ih => exact ih (h.updateStream _ _)

theorem wakeBuffered : Twin c.wakeBuffered c'.wakeBuffered := by
  rw [wakeBuffered_eq h.1,wakeBuffered_eq h.symm.1]
  exact h

theorem adoptSettings (settings : Settings) (delta : ℤ) :
    Twin (c.adoptSettings settings delta) (c'.adoptSettings settings delta) := by
  have hshift : Twin (if delta ≠ 0 then c.shiftWindows delta else c)
      (if delta ≠ 0 then c'.shiftWindows delta else c') := by
    split_ifs
    · exact h.shiftWindows delta
    · exact h
  have hpeer := hshift.write (f := fun c => { c with peer := settings }) (fun hq => hq)
    fun _ _ _ _ => rfl
  exact ((hpeer.pushFrame _).pushEvent _).wakeBuffered

theorem onSettings (entries : List Setting) :
    Twins (c.onSettings entries) (c'.onSettings entries) := by
  obtain ⟨_,_,_,_,rfl⟩ := h.2
  unfold Conn.onSettings
  simp only [h.same]
  cases c.peer.apply entries with
  | error e => exact h.connError _ _
  | ok settings =>
    have htable := h.write (f := fun x => { x with
      encoder := c.encoder.setPeerTableSize settings.headerTableSize }) (fun hq => hq)
      fun _ _ _ _ => rfl
    simp only
    split_ifs
    · exact h.connError _ _
    · exact h.connError _ _
    · exact htable.connError _ _
    · exact (htable.adoptSettings _ _).ok

theorem onWindowUpdate (id increment : ℕ) :
    Twins (c.onWindowUpdate id increment) (c'.onWindowUpdate id increment) := by
  obtain ⟨_,_,_,_,rfl⟩ := h.2
  unfold Conn.onWindowUpdate
  simp only [h.same]
  split_ifs
  · cases c.connSendWindow.increase increment with
    | none => exact h.connError _ _
    | some window =>
      exact (h.write (f := fun c => c.creditConn window increment) (fun hq => hq)
        fun _ _ _ _ => rfl).wakeBuffered.ok
  all_goals
    cases c.streams.get id with
    | none => first | exact h.ok | exact h.connError _ _
    | some s =>
      simp only
      split_ifs
      · exact h.connError _ _
      · have hstream := h.updateStream id fun x => { x with
          sendWindow := satI64 (s.sendWindow+increment) }
        rw [maybeSchedule_eq hstream.1,maybeSchedule_eq hstream.symm.1]
        exact hstream.ok

/-! ### Frames -/

theorem onRstStream (id : ℕ) (code : ErrorCode) :
    Twins (c.onRstStream id code) (c'.onRstStream id code) := by
  unfold Conn.onRstStream
  simp only [h.same]
  split_ifs
  · exact ((h.pushEvent _).closeStream id).ok
  · exact h.ok
  · exact h.connError _ _
  · exact h.ok

theorem onGoAway (last : ℕ) (code : ErrorCode) (debug : List UInt8) :
    Twin (c.onGoAway last code debug) (c'.onGoAway last code debug) := by
  have hevent := (h.write (f := fun c => { c with goawayReceived := true, peerLastStream := last })
    (fun hq => hq) fun _ _ _ _ => rfl).pushEvent (.goAway code last debug)
  unfold Conn.onGoAway
  simp only
  simp only [hevent.same]
  generalize List.filter _ _ = ids
  revert hevent
  generalize Conn.pushEvent _ _ = a
  generalize Conn.pushEvent _ _ = b
  intro hevent
  induction ids generalizing a b with
  | nil => exact hevent
  | cons id ids ih => exact ih _ _ ((hevent.pushEvent _).closeStream id)

theorem setPriority (id : ℕ) (priority : Priority) :
    Twin (c.setPriority id priority) (c'.setPriority id priority) := by
  obtain ⟨sch,sd,p,w,rfl⟩ := h.2
  unfold Conn.setPriority
  simp only [h.same]
  cases c.streams.get id with
  | none =>
    simp only
    split_ifs
    · exact h.setPendingPriority _
    · exact h.setPendingPriority _
  | some s => exact ⟨h.1,sch.update id s.priority priority,sd,p,w,rfl⟩

theorem dispatch (f : Frame) : Twins (c.dispatch f) (c'.dispatch f) := by
  cases f with
  | headers id block endStream endHeaders priority =>
    simp only [Conn.dispatch]
    split_ifs
    · exact h.finishHeaderBlock _
    · exact (h.setPendingHeaders _).ok
  | data id octets endStream padding => exact h.onData _ _ _ _
  | rstStream id code => exact h.onRstStream id code
  | settings ack entries =>
    simp only [Conn.dispatch]
    split_ifs
    · exact h.connError _ _
    · exact (h.write (f := fun c => { c with settingsAckPending := false }) (fun hq => hq)
        fun _ _ _ _ => rfl).ok
    · exact h.onSettings entries
  | ping ack octets =>
    simp only [Conn.dispatch]
    split_ifs
    · exact h.ok
    · exact ((h.pushFrame _).pushEvent _).ok
  | goAway last code debug => exact (h.onGoAway last code debug).ok
  | windowUpdate id increment => exact h.onWindowUpdate id increment
  | priority id priority => exact h.ok
  | priorityUpdate id field =>
    unfold Conn.dispatch Conn.onPriorityUpdate
    simp only [h.same]
    split_ifs
    · exact h.connError _ _
    · exact ((h.setPriority _ _).pushEvent _).ok
  | pushPromise | continuation => exact h.connError _ _
  | unknown kind flags id payload => exact h.ok

theorem processFrame (f : Frame) : Twins (c.processFrame f) (c'.processFrame f) := by
  obtain ⟨_,_,_,_,rfl⟩ := h.2
  unfold Conn.processFrame
  simp only [h.same]
  cases c.pendingHeaders with
  | none => exact h.dispatch f
  | some p =>
    cases f with
    | continuation id endHeaders block =>
      simp only
      unfold Conn.continueBlock
      simp only [h.same]
      split_ifs
      · exact h.connError _ _
      · exact h.connError _ _
      · exact (h.setPendingHeaders none).finishHeaderBlock _
      · exact (h.setPendingHeaders _).ok
    | _ => exact h.connError _ _

theorem receive (r : RawFrame) : Twins (c.receive r) (c'.receive r) := by
  unfold Conn.receive
  simp only [h.same]
  by_cases hclosed : c.closed
  · rw [if_pos hclosed,if_pos hclosed]
    exact h.ok
  rw [if_neg hclosed,if_neg hclosed]
  by_cases hlarge : c.localSettings.maxFrameSize < r.payload.length
  · rw [if_pos hlarge,if_pos hlarge]
    exact h.fails _ _ _
  rw [if_neg hlarge,if_neg hlarge]
  cases r.streamScoped with
  | some e =>
    simp only
    split_ifs
    · exact h.connError _ _
    · exact (h.streamError _ _ _).ok
  | none =>
    cases r.parse c.localSettings.maxFrameSize with
    | error e => exact h.connError _ _
    | ok f =>
      exact (h.write (f := fun c => c.logInbound f) (fun hq => hq)
        fun _ _ _ _ => rfl).processFrame f

end

/-! ### Flushing -/

theorem emitLoop (hq : c.Idle) (n : ℕ) : Twin c (Conn.emitLoop n c) := by
  induction n generalizing c with
  | zero => exact refl hq
  | succ n ih =>
    simp only [Conn.emitLoop]
    rcases c.scheduler.next c.peer.maxFrameSize with ⟨next,scheduler⟩
    cases next with
    | none => exact ⟨hq,scheduler,c.scheduled,c.pendingFrames,c.hist.written,rfl⟩
    | some id =>
      have hserve : ({ c with scheduler := scheduler }.serve id) =
          { c with scheduler := scheduler }.unschedule id := by
        rcases Conn.serve_cases { c with scheduler := scheduler } id with ⟨heq,-⟩ |
          ⟨s,chunk,rest,-,-,hcons,-⟩
        · exact heq
        · exact absurd ((hq.2 id).symm.trans hcons) (List.cons_ne_nil _ _).symm
      simp only
      rw [hserve]
      have hstep : Twin c ({ c with scheduler := scheduler }.unschedule id) :=
        ⟨hq,scheduler.remove id,c.scheduled.erase id,c.pendingFrames,c.hist.written,rfl⟩
      exact hstep.trans (ih hstep.symm.1)

theorem flush (hq : c.Idle) : Twin c c.flushOutbound.2 := by
  have hemit : Twin c c.emitDataFrames := by
    unfold Conn.emitDataFrames
    split_ifs
    · exact refl hq
    · exact emitLoop hq 64
  unfold Conn.flushOutbound
  rw [hq.1,if_pos rfl]
  split_ifs
  · exact refl hq
  · obtain ⟨s,sd,p,w,heq⟩ := hemit.2
    simp only
    rw [heq]
    exact ⟨hq,s,sd,[],w ++ p,rfl⟩

theorem flushFinal (hq : c.Idle) : Twin c c.flushFinal.2 :=
  ⟨hq,c.scheduler,c.scheduled,[],c.hist.written ++ c.pendingFrames,rfl⟩

theorem flush_open (hclosed : c.closed = false) (hq : ∀ id, c.queue id = []) :
    c.flushOutbound.2.Idle ∧ c.flushOutbound.2.localSettings = c.localSettings := by
  by_cases hsent : c.settingsSent = true
  · have hflush := flush ⟨hsent,hq⟩
    exact ⟨hflush.symm.1,hflush.same.2.2.1⟩
  have hopen : ¬c.closed = true := by simp [hclosed]
  have hflush : c.flushOutbound = { c.queueSettings with settingsSent := true }.flushOutbound := by
    unfold Conn.flushOutbound
    rw [if_neg hopen,if_neg hsent]
    exact (if_neg hopen).symm
  have htwin := flush (c := { c.queueSettings with settingsSent := true }) ⟨rfl,hq⟩
  rw [hflush]
  exact ⟨htwin.symm.1,htwin.same.2.2.1⟩

end Twin

end Courierust.H2
