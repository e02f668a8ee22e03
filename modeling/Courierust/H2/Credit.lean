import Courierust.H2.Ids
import Courierust.H2.Ledger

/-!
# Receive credit of a connection

A connection refines the receive ledger: its window, its pending credit, the increments of
the WINDOW_UPDATE frames it queued for stream 0, the octets it charged, and what each stream
holds are the columns of a `Ledger`, and every operation is a charge, a release, or the
closing of streams.

`Conn.closes` says from the state before a step which streams the step closes: a flush closes
those that are gone after it.
-/

namespace Courierust.H2

open Hpack (HeaderField)

def Frame.grants : Frame → ℕ
  | .windowUpdate 0 n => n
  | _ => 0

def granted (fs : List Frame) : ℕ := (fs.map Frame.grants).sum

variable {s : Stream} {f : Frame} {c₀ : Conn}

theorem granted_append (fs gs : List Frame) : granted (fs ++ gs) = granted fs+granted gs := by
  simp [granted]

theorem granted_headerFrames (id : ℕ) (block : List UInt8) (endStream : Bool) (max : ℕ) :
    granted (headerFrames id block endStream max) = 0 := by
  rw [granted,List.sum_eq_zero_iff,List.forall_mem_map]
  exact forall_headerFrames (fun _ _ _ => rfl) fun _ _ _ => rfl

namespace Conn

def held (c : Conn) (id : ℕ) : ℤ := ((c.streams.get id).map (·.recvUnreleased)).getD 0

def ledger (c : Conn) : Ledger where
  window := c.connRecvWindow
  pending := c.connPendingRelease
  granted := granted c.hist.queued
  received := (c.hist.inbound.map Frame.flowControlled).sum
  charged := c.hist.charged
  held := c.held

theorem held_eq {c : Conn} {id : ℕ} (h : c.streams.get id = some s) :
    c.held id = s.recvUnreleased := by
  simp [held,h]

theorem held_eq_zero {c : Conn} {id : ℕ} (h : c.streams.get id = none) : c.held id = 0 := by
  simp [held,h]

/-! ### The ledger under the primitives -/

section
variable (c : Conn) (id : ℕ)

theorem ledger_pushFrames {fs : List Frame} (h : H2.granted fs = 0) :
    (c.pushFrames fs).ledger = c.ledger := by
  simp only [ledger,pushFrames,granted_append,h,add_zero]
  rfl

theorem ledger_pushFrame (h : f.grants = 0) : (c.pushFrame f).ledger = c.ledger :=
  c.ledger_pushFrames (by simp [H2.granted,h])

@[simp] theorem ledger_pushEvent (e : Event) : (c.pushEvent e).ledger = c.ledger := rfl

theorem held_updateStream (f : Stream → Stream) (x : ℕ) :
    (c.updateStream id f).held x =
      if x = id then ((c.streams.get id).map fun s => (f s).recvUnreleased).getD 0
      else c.held x := by
  unfold held updateStream
  rw [StreamMap.get_update]
  split_ifs
  · rw [Option.map_map]
    rfl
  · rfl

theorem ledger_updateStream {f : Stream → Stream}
    (h : ∀ s, (f s).recvUnreleased = s.recvUnreleased) :
    (c.updateStream id f).ledger = c.ledger := by
  have hheld : (c.updateStream id f).held = c.held := by
    funext x
    rw [held_updateStream]
    split_ifs with hx
    · simp only [h,hx]
      rfl
    · rfl
  simp only [ledger,hheld]
  rfl

theorem ledger_insert (hs : s.recvUnreleased = 0) {m : StreamMap}
    (hm : ∀ x, m.get x = c.streams.get x) (hnew : c.streams.get s.id = none) :
    { c with streams := m.insert s }.ledger = c.ledger := by
  have hheld : { c with streams := m.insert s }.held = c.held := by
    funext x
    simp only [held,StreamMap.get_insert,hm]
    split_ifs with hx
    · simp [hx,hnew,hs]
    · rfl
  simp only [ledger,hheld]

theorem ledger_sendGoaway (code : ErrorCode) (debug : List UInt8) :
    (c.sendGoaway code debug).ledger = c.ledger := by
  unfold sendGoaway
  split_ifs
  · rfl
  · exact c.ledger_pushFrame rfl

theorem ledger_connError (code : ErrorCode) (msg : String) :
    (c.connError code msg).2.ledger = c.ledger := c.ledger_sendGoaway code _

theorem ledger_maybeSchedule : (c.maybeSchedule id).ledger = c.ledger := by
  unfold maybeSchedule
  split_ifs
  · rfl
  · rfl
  · split
    · split_ifs <;> rfl
    · rfl

theorem ledger_closeStream : (c.closeStream id).ledger = c.ledger.close id := by
  have hgive : (c.returnCredit id).ledger = c.ledger.giveBack id := by
    unfold returnCredit Ledger.giveBack
    change _ = if 0 < c.held id then _ else _
    split
    · next s hs =>
      rw [held_eq hs]
      split_ifs
      · simp only [ledger,held_eq hs]
        rfl
      · rfl
    · next hs => rw [held_eq_zero hs,if_neg (lt_irrefl _)]
  have hgrant : ∀ c : Conn, c.grantReturned.ledger = c.ledger.grant := by
    intro c
    unfold grantReturned Ledger.grant
    change _ = if CONN_THRESHOLD ≤ c.connPendingRelease then _ else _
    split_ifs
    · simp only [ledger,pushFrame,pushFrames,granted_append]
      congr 1
    · rfl
  have hheld : (c.closeStream id).held = Function.update c.held id 0 := by
    funext x
    rw [held,get_closeStream,Function.update_apply]
    split_ifs <;> rfl
  have hrest : (c.closeStream id).ledger =
      { (c.returnCredit id).grantReturned.ledger with held := (c.closeStream id).held } := rfl
  rw [hrest,hgrant,hgive,hheld]
  rfl

theorem ledger_releaseConn (n : ℕ) : (c.releaseConn n).ledger = c.ledger.credit n := by
  unfold releaseConn Ledger.credit
  simp only
  change _ = if CONN_THRESHOLD ≤ c.connPendingRelease+n then _ else _
  split_ifs
  · simp only [ledger,pushFrame,pushFrames,granted_append]
    congr 1
  · rfl

theorem ledger_releaseStream (hid : id ≠ 0) :
    (c.releaseStream id).ledger = c.ledger.letGo c.streamThreshold id := by
  unfold releaseStream Ledger.letGo
  change _ = if c.streamThreshold ≤ c.held id then _ else _
  split
  · next s hs =>
    rw [held_eq hs]
    split_ifs
    · rw [ledger_pushFrame]
      · simp only [ledger]
        congr 1
        funext x
        rw [held_updateStream,Function.update_apply]
        split_ifs with hx
        · simp [hs]
        · rfl
      · unfold Frame.grants
        split
        · next heq => exact absurd (by cases heq; rfl) hid
        · rfl
    · rfl
  · next hs =>
    have hpos : 0 < c.streamThreshold := lt_max_of_lt_right (by norm_num)
    rw [held_eq_zero hs,if_neg (by omega)]

end

/-! ### What a step closes -/

def frameCloses (c : Conn) (f : Frame) (id : ℕ) : Bool :=
  match f with
  | .rstStream x _ => id = x
  | .goAway last _ _ => last < id
  | f => (c.blockOf f).any fun (p, fields) =>
    id = p.streamId && (c.streams.get id).any (·.closedBy p.endStream fields)

def closes (c : Conn) (op : Op) (id : ℕ) : Bool :=
  match op with
  | .sendRst x _ => id = x
  | .sendHeaders x _ endStream =>
    id = x && (c.streams.get id).any (·.state.sendHead endStream = .closed)
  | .flush => (c.flushOutbound.2.streams.get id).isNone
  | .receive r =>
    if r.streamScoped.isSome then id = r.streamId
    else
      match r.parse c.localSettings.maxFrameSize with
      | .ok f => c.frameCloses f id
      | .error _ => false
  | _ => false

open Ledger (ClosedIn)

variable {S : ℕ → Prop} {c c' : Conn} {id : ℕ}

theorem closedIn_of_eq (h : c'.ledger = c.ledger) : ClosedIn S c.ledger c'.ledger := by
  rw [h]
  exact ⟨[],by simp,rfl⟩

theorem closedIn_closeStream (hS : S id) (h : c'.ledger = c.ledger) :
    ClosedIn S c.ledger (c'.closeStream id).ledger := by
  rw [ledger_closeStream,h]
  exact ⟨[id],by simpa using hS,rfl⟩

theorem closedIn_streamError (hS : S id) (h : c'.ledger = c.ledger) (code : ErrorCode)
    (msg : String) : ClosedIn S c.ledger (c'.streamError id code msg).ledger := by
  unfold streamError
  split_ifs
  · exact closedIn_of_eq h
  · refine closedIn_closeStream hS ?_
    rw [ledger_pushFrame _ rfl,← h]
    unfold reportStreamError
    split_ifs <;> rfl

theorem closedIn_closeIfClosed (hS : (c'.streams.get id).any (·.isClosed) = true → S id)
    (h : c'.ledger = c.ledger) : ClosedIn S c.ledger (c'.closeIfClosed id).ledger := by
  unfold closeIfClosed
  split_ifs with hclosed
  · exact closedIn_closeStream (hS hclosed) h
  · exact closedIn_of_eq h

theorem ledger_of_alike (h : Alike c c') : c'.ledger = c.ledger := by
  obtain ⟨pendingPriority,streams,rfl,hget,-⟩ := h
  have hheld : { c with pendingPriority := pendingPriority, streams := streams }.held = c.held := by
    funext x
    simp only [held,hget]
  simp only [ledger,hheld]

theorem ledger_enroll {c₁ : Conn} (h : Alike c c₁) (hs : s.recvUnreleased = 0)
    (habsent : c.streams.get s.id = none) : (c₁.enroll s).ledger = c.ledger := by
  obtain ⟨pendingPriority,streams,rfl,hget,-⟩ := h
  exact ledger_insert c hs hget habsent

theorem closedIn_headerOutcome {p : PendingHeaders} {fields : List HeaderField}
    (h : HeaderOutcome c p fields c')
    (hS : (∀ s, c.streams.get p.streamId = some s → s.closedBy p.endStream fields = true) →
      S p.streamId) : ClosedIn S c.ledger c'.ledger := by
  have hS' : ∀ {s}, c.streams.get p.streamId = some s → s.closedBy p.endStream fields = true →
      S p.streamId := fun hs hclosed => hS fun s' hs' => by
    cases hs.symm.trans hs'
    exact hclosed
  cases h with
  | ignored => exact closedIn_of_eq rfl
  | replied => exact closedIn_of_eq (c.ledger_pushFrame rfl)
  | failed h => exact closedIn_of_eq ((ledger_connError _ _ _).trans (ledger_of_alike h))
  | stuck h length =>
    refine closedIn_of_eq ?_
    rw [ledger_connError,ledger_updateStream,ledger_of_alike h]
    exact fun _ => rfl
  | reset h hclosed => exact closedIn_streamError (hS hclosed) (ledger_of_alike h) _ _
  | refused h =>
    refine closedIn_of_eq ?_
    rw [ledger_pushEvent,ledger_pushFrame _ rfl,ledger_of_alike h]
  | opened h hfresh hs =>
    exact closedIn_of_eq (ledger_enroll h hs.held (by rw [hs.id]; exact hfresh.absent))
  | openedReset h hfresh hs =>
    exact closedIn_streamError (hS (by simp [hfresh.absent]))
      (ledger_enroll h hs.held (by rw [hs.id]; exact hfresh.absent)) _ _
  | @trailers s hs hdelivered hclosed hopen =>
    refine closedIn_closeIfClosed (fun hany => ?_) ?_
    · refine hS' hs (hclosed ?_)
      have hstate : s.state.recvEnd = .closed := by
        simpa [updateStream,pushEvent,StreamMap.get_update,hs,Stream.isClosed,Stream.endRecv]
          using hany
      cases hst : s.state <;> simp_all [StreamState.recvEnd]
    · rw [ledger_updateStream,ledger_pushEvent]
      exact fun _ => rfl
  | @responded c₁ h _ s hs hdelivered hstate hclosed length priority =>
    refine closedIn_closeIfClosed (fun hany => ?_) ?_
    · obtain ⟨pp,m,rfl,hget,-⟩ := h
      have hclosed' : (if p.endStream then s.state.recvEnd else s.state) = .closed := by
        simpa [updateStream,pushEvent,StreamMap.get_update,hget,hs,Stream.isClosed,
          Stream.respond] using hany
      cases hended : p.endStream with
      | true => exact hS' hs (hclosed hended)
      | false =>
        rw [hended] at hclosed'
        rcases hstate with hstate | hstate <;> simp [hstate] at hclosed'
    · rw [ledger_pushEvent,ledger_updateStream,ledger_of_alike h]
      exact fun _ => rfl
  | respondedReset h hs hdelivered hclosed =>
    refine closedIn_streamError (hS' hs hclosed) ?_ _ _
    rw [ledger_updateStream,ledger_of_alike h]
    exact fun _ => rfl

/-! ### Flushes -/

theorem ledger_emit (c : Conn) (id : ℕ) (t : Taken) : (c.emit id t).ledger = c.ledger := by
  obtain ⟨fs,encoder,encoded,hfs,heq⟩ := c.emit_shape id t
  have hgranted : H2.granted fs = 0 := by
    rcases hfs with ⟨-,rfl⟩ | ⟨block,rfl⟩
    · rfl
    · exact granted_headerFrames _ _ _ _
  rw [heq]
  change ((c.updateStream id (·.pay t.payload.length)).pushFrames fs).ledger = c.ledger
  rw [ledger_pushFrames _ hgranted,ledger_updateStream]
  exact fun _ => rfl

theorem closedIn_serve (hS : (c.serve id).streams.get id = none → S id) :
    ClosedIn S c.ledger (c.serve id).ledger := by
  rcases c.serve_cases id with ⟨heq,-⟩ | ⟨s,chunk,rest,-,-,-,heq⟩
  · rw [heq]
    exact closedIn_of_eq rfl
  generalize take (c.sendable s) chunk rest = t at heq
  have hemit : ({ c with scheduled := c.scheduled.erase id }.emit id t).ledger = c.ledger :=
    ledger_emit _ id t
  rw [heq] at hS ⊢
  rcases settle_cases ({ c with scheduled := c.scheduled.erase id }.emit id t) id s t.endStream with
    ⟨-,-,hsettle⟩ | ⟨f,hsettle,hf⟩
  · rw [hsettle] at hS ⊢
    exact closedIn_closeStream (hS (by simp)) hemit
  obtain ⟨scheduler,scheduled,hshape⟩ := reschedule_shape _ id
  rw [hsettle,hshape]
  refine closedIn_of_eq ((ledger_updateStream _ id ?_).trans hemit)
  rcases hf with hf | ⟨-,-,hf⟩
  · exact fun s => by rw [hf]
  · exact fun s => by rw [hf]

theorem get_emitLoop (n : ℕ) (h : c.streams.get id = none) :
    (emitLoop n c).streams.get id = none := by
  induction n generalizing c with
  | zero => exact h
  | succ n ih =>
    unfold emitLoop
    split
    · exact h
    · exact ih (get_serve h)

theorem closedIn_emitLoop (n : ℕ) (hS : ∀ id, (emitLoop n c).streams.get id = none → S id) :
    ClosedIn S c.ledger (emitLoop n c).ledger := by
  induction n generalizing c with
  | zero => exact closedIn_of_eq rfl
  | succ n ih =>
    unfold emitLoop at hS ⊢
    split at hS
    · exact closedIn_of_eq rfl
    · next id scheduler _ =>
      have hround : ClosedIn S c.ledger ({ c with scheduler := scheduler }.serve id).ledger :=
        closedIn_serve fun hnone => hS id (get_emitLoop n hnone)
      exact hround.trans (ih hS)

theorem closedIn_flush (hS : ∀ id, c.flushOutbound.2.streams.get id = none → S id) :
    ClosedIn S c.ledger c.flushOutbound.2.ledger := by
  have hemit : ∀ {c₁ : Conn}, (∀ id, c₁.emitDataFrames.streams.get id = none → S id) →
      c₁.ledger = c.ledger → ClosedIn S c.ledger c₁.emitDataFrames.ledger := by
    intro c₁ hS hledger
    rw [← hledger]
    unfold emitDataFrames at hS ⊢
    split_ifs at hS ⊢
    · exact closedIn_of_eq rfl
    · exact closedIn_emitLoop 64 hS
  unfold flushOutbound at hS ⊢
  split_ifs at hS ⊢
  · exact closedIn_of_eq rfl
  · exact hemit hS rfl
  · exact hemit hS (ledger_pushFrame c rfl)

/-! ### Other operations -/

theorem closedIn_sendHeaders (fields : List HeaderField) (endStream : Bool)
    (hS : ∀ s, c.streams.get id = some s → s.state.sendHead endStream = .closed → S id) :
    ClosedIn S c.ledger (c.sendHeaders id fields endStream).2.ledger := by
  rcases c.sendHeaders_cases id fields endStream with ⟨e,heq⟩ | ⟨s,hs,heq⟩
  · rw [heq]
    exact closedIn_of_eq rfl
  rw [heq]
  obtain ⟨block,encoder,-,hcases⟩ := c.sendHead_cases id s fields endStream
  have hledger : ((c.produce block encoder).updateStream id
      (headUpdate s fields endStream)).ledger = c.ledger := by
    rw [ledger_updateStream]
    · rfl
    · exact fun _ => rfl
  rcases hcases with ⟨hclosed,heq⟩ | ⟨-,heq⟩
  · rw [heq,ledger_pushFrames _ (granted_headerFrames _ _ _ _)]
    exact closedIn_closeStream (hS s hs hclosed) hledger
  · rw [heq,ledger_pushFrames _ (granted_headerFrames _ _ _ _)]
    exact closedIn_of_eq hledger

theorem ledger_enqueue (c : Conn) (id : ℕ) (chunk : Chunk) :
    (c.enqueue id chunk).ledger = c.ledger := by
  unfold enqueue
  rw [ledger_maybeSchedule]
  refine Eq.trans ?_ (ledger_updateStream c id (f := fun s =>
    { s with
      sendBuffered := s.sendBuffered+chunk.data.length
      sendDone := s.sendDone || chunk.endStream }) fun _ => rfl)
  rfl

theorem closedIn_onGoAway (last : ℕ) (code : ErrorCode) (debug : List UInt8)
    (hS : ∀ id, last < id → S id) :
    ClosedIn S c.ledger (c.onGoAway last code debug).ledger := by
  have hfold : ∀ (ids : List ℕ) (c : Conn), (∀ id ∈ ids, last < id) →
      ClosedIn S c.ledger (ids.foldl refuse c).ledger := by
    intro ids
    induction ids with
    | nil => exact fun c _ => closedIn_of_eq rfl
    | cons id ids ih =>
      intro c hids
      have hrefuse : ClosedIn S c.ledger (c.refuse id).ledger :=
        closedIn_closeStream (hS id (hids id (by simp))) rfl
      exact hrefuse.trans (ih (c.refuse id) fun x hx => hids x (by simp [hx]))
  exact hfold _ _ fun id hid => by simpa using (List.mem_filter.1 hid).2

theorem ledger_foldl_maybeSchedule (ids : List ℕ) (c : Conn) :
    (ids.foldl maybeSchedule c).ledger = c.ledger := by
  induction ids generalizing c with
  | nil => rfl
  | cons id ids ih => rw [List.foldl_cons,ih,ledger_maybeSchedule]

theorem ledger_shiftWindows (c : Conn) (delta : ℤ) : (c.shiftWindows delta).ledger = c.ledger := by
  unfold shiftWindows
  generalize c.streams.ids = ids
  induction ids generalizing c with
  | nil => rfl
  | cons id ids ih =>
    rw [List.foldl_cons,ih,ledger_updateStream]
    exact fun _ => rfl

theorem ledger_onSettings (c : Conn) (entries : List Setting) :
    (c.onSettings entries).2.ledger = c.ledger := by
  rcases c.onSettings_cases entries with
    ⟨encoder,code,msg,-,heq⟩ | ⟨encoder,settings,-,-,-,heq⟩
  · rw [heq,ledger_connError]
    rfl
  rw [heq]
  simp only [adoptSettings,wakeBuffered]
  rw [ledger_foldl_maybeSchedule,ledger_pushEvent,ledger_pushFrame _ rfl]
  split_ifs
  · exact ledger_shiftWindows _ _
  · rfl

theorem ledger_onWindowUpdate (c : Conn) (id increment : ℕ) :
    (c.onWindowUpdate id increment).2.ledger = c.ledger := by
  rcases c.onWindowUpdate_cases id increment with
    heq | ⟨code,msg,heq⟩ | ⟨window,-,-,heq⟩ | ⟨s,-,-,-,heq⟩
  · rw [heq]
  · rw [heq,ledger_connError]
  · rw [heq]
    exact ledger_foldl_maybeSchedule _ _
  · rw [heq,ledger_maybeSchedule,ledger_updateStream]
    exact fun _ => rfl

theorem ledger_setPriority (c : Conn) (id : ℕ) (priority : Priority) :
    (c.setPriority id priority).ledger = c.ledger := by
  unfold setPriority
  split
  · refine Eq.trans ?_ (ledger_updateStream c id (f := fun s => { s with priority := priority })
      fun _ => rfl)
    rfl
  · split_ifs <;> rfl

theorem ledger_onPriorityUpdate (c : Conn) (id : ℕ) (field : List UInt8) :
    (c.onPriorityUpdate id field).2.ledger = c.ledger := by
  unfold onPriorityUpdate
  split_ifs
  · exact ledger_connError _ _ _
  · exact ledger_setPriority c id _

theorem ledger_logInbound (c : Conn) (f : Frame) :
    (c.logInbound f).ledger = c.ledger.arrive f.flowControlled := by
  simp [ledger,logInbound,Ledger.arrive]
  rfl

theorem ledger_logInbound_of_zero (c : Conn) (hf : f.flowControlled = 0) :
    (c.logInbound f).ledger = c.ledger := by
  rw [ledger_logInbound,hf]
  simp [Ledger.arrive]

theorem closedIn_plain (hplain : f.isPlain = true) (hS : ∀ id, c.frameCloses f id = true → S id) :
    ClosedIn S c.ledger ((c.logInbound f).dispatch f).2.ledger := by
  have hlog : (c.logInbound f).ledger = c.ledger :=
    ledger_logInbound_of_zero c (by cases f <;> first | rfl | cases hplain)
  rw [← hlog]
  cases f with
  | headers | continuation | data => cases hplain
  | priority | unknown => exact closedIn_of_eq rfl
  | pushPromise => exact closedIn_of_eq (ledger_connError _ _ _)
  | settings ack entries =>
    simp only [dispatch]
    split_ifs
    · exact closedIn_of_eq (ledger_connError _ _ _)
    · exact closedIn_of_eq rfl
    · exact closedIn_of_eq (ledger_onSettings _ _)
  | ping ack octets =>
    simp only [dispatch]
    split_ifs
    · exact closedIn_of_eq rfl
    · refine closedIn_of_eq ?_
      rw [ledger_pushEvent,ledger_pushFrame _ rfl]
  | windowUpdate id increment => exact closedIn_of_eq (ledger_onWindowUpdate _ _ _)
  | priorityUpdate id field => exact closedIn_of_eq (ledger_onPriorityUpdate _ _ _)
  | goAway last code debug =>
    exact closedIn_onGoAway last code debug fun id hid => hS id (by simpa [frameCloses] using hid)
  | rstStream id code =>
    simp only [dispatch,onRstStream]
    split_ifs
    · exact closedIn_closeStream (hS id (by simp [frameCloses])) rfl
    · exact closedIn_of_eq rfl
    · exact closedIn_of_eq (ledger_connError _ _ _)
    · exact closedIn_of_eq rfl

end Conn

def Op.isRelease : Op → Bool
  | .releaseData _ _ => true
  | _ => false

namespace Conn

variable {S : ℕ → Prop} {c c' : Conn} {id : ℕ}

open Ledger (ClosedIn)

/-- The ledger of a frame that is no DATA: it closes streams, or nothing is charged at all. -/
theorem closedIn_receive (r : RawFrame) (hdata : c.dataOf (.receive r) = none)
    (hS : ∀ id, c.closes (.receive r) id = true ∨ c.streams.get id = none → S id) :
    ClosedIn S c.ledger (c.receive r).2.ledger ∨
      (c.receive r).2.closed = true ∧
        ∃ n, (c.receive r).2.ledger = { c.ledger with received := n } := by
  by_cases hopen : c.closed = false
  swap
  · refine .inl (closedIn_of_eq ?_)
    simp [receive,hopen]
  have hout := c.receive_outcome r hopen
  generalize (c.receive r).2 = c' at hout
  cases hout with
  | failed pendingHeaders log code debug =>
    refine .inr ⟨rfl,((log.map Frame.flowControlled).sum : ℕ),?_⟩
    refine (ledger_sendGoaway _ code debug).trans ?_
    rfl
  | streamScoped hscoped code msg =>
    exact .inl (closedIn_streamError (hS _ (.inl (by simp [closes,hscoped]))) rfl _ _)
  | pending hplain pendingHeaders =>
    exact .inl (closedIn_of_eq (ledger_logInbound_of_zero c hplain))
  | @block f hscoped hparse hplain p fields hblock decoder c' hout =>
    have hlog : { c.logInbound f with pendingHeaders := none, decoder := decoder }.ledger =
        c.ledger := ledger_logInbound_of_zero c hplain
    rw [← hlog]
    refine .inl (closedIn_headerOutcome hout fun hclosed => hS _ ?_)
    cases hs : c.streams.get p.streamId with
    | none => exact .inr rfl
    | some s =>
      refine .inl ?_
      have hclosedBy := hclosed s hs
      simp only [closes,hscoped,hparse]
      cases f <;> simp_all [frameCloses,blockOf,completes]
  | data hscoped hparse hpending hout =>
    simp [dataOf,hopen,hscoped,hpending,hparse] at hdata
  | plain hscoped hparse hpending hplain =>
    refine .inl (closedIn_plain hplain fun id hid => hS id (.inl ?_))
    simp [closes,hscoped,hparse,hid]

theorem closedIn_step (hids : c.ClientIds) {op : Op} (hrelease : op.isRelease = false)
    (hdata : c.dataOf op = none)
    (hS : ∀ id, c.closes op id = true ∨ c.streams.get id = none → S id) :
    ClosedIn S c.ledger (c.step op).ledger ∨
      (c.step op).closed = true ∧ ∃ n, (c.step op).ledger = { c.ledger with received := n } := by
  cases op with
  | releaseData => cases hrelease
  | receive r => exact closedIn_receive r hdata hS
  | nextEvent | flushFinal => exact .inl (closedIn_of_eq rfl)
  | sendGoaway code debug => exact .inl (closedIn_of_eq (ledger_sendGoaway _ _ _))
  | sendPing octets =>
    refine .inl (closedIn_of_eq ?_)
    simp only [step,sendPing]
    split_ifs
    · rfl
    · exact ledger_pushFrame _ rfl
  | sendRst id code =>
    refine .inl ?_
    simp only [step,sendRst]
    split_ifs
    · exact closedIn_of_eq rfl
    · exact closedIn_closeStream (hS id (.inl (by simp [closes]))) (ledger_pushFrame _ rfl)
  | sendPriorityUpdate id priority =>
    refine .inl (closedIn_of_eq ?_)
    simp only [step,sendPriorityUpdate]
    split_ifs
    · rfl
    · rfl
    · rw [ledger_updateStream,ledger_pushFrame _ rfl]
      exact fun _ => rfl
  | openRequest priority =>
    refine .inl (closedIn_of_eq ?_)
    change (c.openRequest priority).2.ledger = c.ledger
    rcases c.openRequest_cases priority with heq | ⟨hclient,-,heq⟩
    · rw [heq]
    rw [heq]
    refine ledger_insert c rfl (fun _ => rfl) ?_
    by_contra hsome
    have := hids hclient _ (Option.isSome_iff_ne_none.2 hsome)
    simp at this
  | sendHeaders id fields endStream =>
    refine .inl (closedIn_sendHeaders fields endStream fun s hs hclosed => hS id (.inl ?_))
    simp [closes,hs,hclosed]
  | sendData id octets endStream =>
    refine .inl (closedIn_of_eq ?_)
    rcases c.sendData_cases id octets endStream with heq | ⟨s,-,-,heq⟩
    · exact congrArg ledger heq
    · exact (congrArg ledger heq).trans (ledger_enqueue _ _ _)
  | sendTrailers id fields =>
    refine .inl (closedIn_of_eq ?_)
    rcases c.sendTrailers_cases id fields with ⟨e,heq⟩ | ⟨s,-,-,heq⟩
    · exact congrArg (·.2.ledger) heq
    · exact (congrArg (·.2.ledger) heq).trans (ledger_enqueue _ _ _)
  | flush =>
    exact .inl (closedIn_flush fun id hnone => hS id (.inl (by simp [closes,hnone])))

end Conn

end Courierust.H2
