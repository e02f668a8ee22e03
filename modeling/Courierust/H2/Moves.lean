import Courierust.H2.Outcome

/-!
# The moves a step is made of

Every operation is a sequence of a few moves on the table of streams, the scheduler and the
set of scheduled ids. What holds of these is proved once for each move.
-/

namespace Courierust.H2

open Hpack (HeaderField)

structure Plan where
  config : Config
  streams : StreamMap
  scheduler : Scheduler
  scheduled : Finset ℕ
  pendingPriority : Std.ExtTreeMap ℕ Priority

/-- Which priorities may be written by a client, which by the peer of a server, and which
    rounds of the scheduler may be made. -/
structure Rules where
  rewrite : Plan → ℕ → Priority → Prop
  update : Plan → ℕ → Priority → Prop
  round : Conn → Prop

def Rules.any : Rules := ⟨fun _ _ _ => True, fun _ _ _ => True, fun _ => True⟩

def Conn.plan (c : Conn) : Plan :=
  ⟨c.config, c.streams, c.scheduler, c.scheduled, c.pendingPriority⟩

inductive Move (R : Rules) : Conn → Conn → Prop
  | quiet {c c' : Conn} (hplan : c'.plan = c.plan)
      (hlive : c'.closed = false → c.closed = false) : Move R c c'
  | write (c : Conn) (id : ℕ) {f : Stream → Stream} (hf : ∀ s, (f s).priority = s.priority) :
    Move R c (c.updateStream id f)
  | respond {c c₁ : Conn} (h : Alike c c₁) (hclient : c.config.client = true) {id : ℕ}
      {s : Stream} (hs : c.streams.get id = some s) {f : Stream → Stream}
      (hf : ∀ s', (f s').priority = c.pendingPriority[id]?.getD s.priority) :
    Move R c (c₁.updateStream id f)
  | rewrite (c : Conn) (id : ℕ) (priority : Priority) (h : R.rewrite c.plan id priority) :
    Move R c (c.updateStream id fun s => { s with priority := priority })
  | setPriority (c : Conn) (hserver : c.config.client = false) (id : ℕ) (priority : Priority)
      (h : R.update c.plan id priority) : Move R c (c.setPriority id priority)
  | forget (c : Conn) (id : ℕ) : Move R c (c.forget id)
  | alike {c c₁ : Conn} (h : Alike c c₁) : Move R c c₁
  | enroll {c c₁ : Conn} (h : Alike c c₁) {s : Stream} (hfresh : Fresh c c₁ s.id) :
    Move R c (c₁.enroll s)
  | schedule (c : Conn) (id : ℕ) : Move R c (c.maybeSchedule id)
  | round (c : Conn) (h : R.round c) : Move R c (Conn.emitLoop 1 c)

abbrev Moves (R : Rules) : Conn → Conn → Prop := Relation.ReflTransGen (Move R)

namespace Moves

variable {R : Rules} {c c' c'' : Conn}

theorem of_plan (hplan : c'.plan = c.plan) (hlive : c'.closed = false → c.closed = false) :
    Moves R c c' := .single (.quiet hplan hlive)

theorem postcomp (h : Moves R c c') (hplan : c''.plan = c'.plan)
    (hlive : c''.closed = false → c'.closed = false) : Moves R c c'' := h.tail (.quiet hplan hlive)

theorem precomp (h : Moves R c' c'') (hplan : c'.plan = c.plan)
    (hlive : c'.closed = false → c.closed = false) : Moves R c c'' := h.head (.quiet hplan hlive)

end Moves

def Rules.Admits (R : Rules) (c : Conn) : Op → Prop
  | .sendPriorityUpdate id priority =>
    c.config.client = true → c.closed = false → R.rewrite c.plan id priority
  | .receive r => c.config.client = false → c.closed = false → ∀ id field,
      r.parse c.localSettings.maxFrameSize = .ok (.priorityUpdate id field) →
        R.update c.plan id ((Priority.parse field).getD {})
  | .flush => c.closed = false → 0 < c.connSendWindow.available → ∀ k < 64,
      R.round (Conn.emitLoop k
        (if c.settingsSent then c else { c.queueSettings with settingsSent := true }))
  | _ => True

namespace Conn

variable {R : Rules} {c c₁ : Conn} {id : ℕ}

theorem moves_write (c : Conn) (id : ℕ) {f : Stream → Stream}
    (hf : ∀ s, (f s).priority = s.priority) : Moves R c (c.updateStream id f) :=
  .single (.write c id hf)

theorem moves_closeStream (c : Conn) (id : ℕ) : Moves R c (c.closeStream id) := by
  obtain ⟨window,pending,fs,-,heq⟩ := c.closeStream_shape id
  have hforget : Moves R (c.pushFrames fs) ((c.pushFrames fs).forget id) := .single (.forget _ id)
  rw [heq]
  exact (hforget.precomp (c := c) rfl fun h => h).postcomp rfl fun h => h

theorem moves_streamError (c : Conn) (id : ℕ) (code : ErrorCode) (msg : String) :
    Moves R c (c.streamError id code msg) := by
  unfold streamError
  split_ifs
  · exact .refl
  · unfold reportStreamError
    split_ifs
    · exact (moves_closeStream _ id).precomp rfl fun h => h
    · exact (moves_closeStream _ id).precomp rfl fun h => h

theorem moves_sendGoaway (c : Conn) (code : ErrorCode) (debug : List UInt8) :
    Moves R c (c.sendGoaway code debug) := by
  unfold sendGoaway
  split_ifs
  · exact .refl
  · exact .of_plan rfl fun h => h

theorem moves_connError (c : Conn) (code : ErrorCode) (msg : String) :
    Moves R c (c.connError code msg).2 :=
  (moves_sendGoaway c code _).trans (Moves.of_plan rfl nofun)

theorem moves_closeIfClosed (c : Conn) (id : ℕ) : Moves R c (c.closeIfClosed id) := by
  unfold closeIfClosed
  split_ifs
  · exact (moves_closeStream _ id).precomp rfl fun h => h
  · exact .refl

theorem moves_maybeSchedule (c : Conn) (id : ℕ) : Moves R c (c.maybeSchedule id) :=
  .single (.schedule c id)

theorem moves_foldl {α : Type} {f : Conn → α → Conn} (hf : ∀ c a, Moves R c (f c a)) (l : List α)
    (c : Conn) : Moves R c (l.foldl f c) := by
  induction l generalizing c with
  | nil => exact .refl
  | cons a l ih => exact (hf c a).trans (ih (f c a))

theorem moves_releaseData (c : Conn) (id n : ℕ) : Moves R c (c.releaseData id n) := by
  obtain ⟨window,pending,fs,f,-,hf,heq⟩ := c.releaseData_shape id n
  rw [heq]
  exact (moves_write c id fun s => by rw [hf s]).postcomp rfl fun h => h

theorem moves_headerOutcome {p : PendingHeaders} {fields : List HeaderField} {c' : Conn}
    (h : HeaderOutcome c p fields c') : Moves R c c' := by
  cases h with
  | ignored => exact .refl
  | replied => exact .of_plan rfl fun h => h
  | failed h => exact (moves_connError _ _ _).head (.alike h)
  | stuck h =>
    exact ((moves_write _ _ fun _ => by rfl).trans (moves_connError _ _ _)).head (.alike h)
  | reset h => exact (moves_streamError _ _ _ _).head (.alike h)
  | @refused c₁ h =>
    have halike : Moves R c c₁ := .single (.alike h)
    exact halike.postcomp rfl fun h => h
  | @opened c₁ h hfresh s hs =>
    have henroll : Moves R c (c₁.enroll s) := .single (.enroll h (hs.id ▸ hfresh))
    exact henroll.postcomp rfl fun h => h
  | openedReset h hfresh hs =>
    exact (moves_streamError _ _ _ _).head (.enroll h (hs.id ▸ hfresh))
  | trailers =>
    refine Relation.ReflTransGen.trans ?_ (moves_closeIfClosed _ _)
    exact (moves_write _ _ fun _ => by rfl).precomp rfl fun h => h
  | @responded c₁ h hclient s hs _ _ _ length priority hpriority =>
    have hrespond : Moves R c (c₁.updateStream p.streamId
        (·.respond p.endStream fields length priority)) :=
      .single (.respond h hclient hs fun _ => hpriority.symm)
    exact hrespond.trans ((moves_closeIfClosed _ _).precomp rfl fun h => h)
  | respondedReset h hs _ _ _ _ _ _ _ hclient hpriority =>
    exact (moves_streamError _ _ _ _).head (.respond h hclient hs fun _ => hpriority.symm)

theorem moves_autoRelease (c : Conn) (id len : ℕ) : Moves R c (c.autoRelease id len) := by
  unfold autoRelease
  split_ifs
  · exact moves_releaseData _ _ _
  · exact .refl

theorem moves_deliverData (c : Conn) (id : ℕ) (octets : List UInt8) (endStream : Bool)
    (len : ℕ) : Moves R c (c.deliverData id octets endStream len) := by
  have hrelease : Moves R c ((c.pushEvent (.data id octets endStream)).autoRelease id len) :=
    (moves_autoRelease _ id len).precomp rfl fun h => h
  unfold deliverData
  split_ifs
  · exact hrelease.trans (moves_closeIfClosed _ _)
  · exact hrelease

theorem priority_receive (s : Stream) (octets : List UInt8) (endStream : Bool) (padding : ℕ) :
    (s.receive octets endStream padding).priority = s.priority := by
  cases endStream <;> rfl

theorem moves_dataOutcome {octets : List UInt8} {endStream : Bool} {padding : ℕ} {c' : Conn}
    (h : DataOutcome c id octets endStream padding c') : Moves R c c' := by
  cases h with
  | replied => exact .of_plan rfl fun h => h
  | failed => exact moves_connError _ _ _
  | reset => exact moves_streamError _ _ _ _
  | overrun =>
    exact (moves_write _ _ fun s => priority_receive s _ _ _).trans (moves_connError _ _ _)
  | overflowed =>
    exact (moves_write _ _ fun s => priority_receive s _ _ _).trans (moves_streamError _ _ _ _)
  | mismatched =>
    have hupdate : Moves R c (c.updateStream id (·.receive octets endStream padding)) :=
      moves_write _ _ fun s => priority_receive s octets endStream padding
    exact hupdate.trans ((moves_streamError _ _ _ _).precomp rfl fun h => h)
  | accepted =>
    have hupdate : Moves R c (c.updateStream id (·.receive octets endStream padding)) :=
      moves_write _ _ fun s => priority_receive s octets endStream padding
    exact hupdate.trans ((moves_deliverData _ _ _ _ _).precomp rfl fun h => h)

theorem moves_dispatch {f : Frame} (hplain : f.isPlain = true)
    (hupdate : c.config.client = false → ∀ id field, f = .priorityUpdate id field →
      R.update c.plan id ((Priority.parse field).getD {})) : Moves R c (c.dispatch f).2 := by
  cases f with
  | headers | continuation | data => cases hplain
  | priority | unknown => exact .refl
  | pushPromise => exact moves_connError _ _ _
  | settings ack entries =>
    simp only [dispatch]
    split_ifs
    · exact moves_connError _ _ _
    · exact .of_plan rfl fun h => h
    rcases c.onSettings_cases entries with
      ⟨encoder,code,msg,-,heq⟩ | ⟨encoder,settings,-,-,-,heq⟩
    · rw [heq]
      exact (moves_connError _ _ _).precomp rfl fun h => h
    rw [heq]
    unfold adoptSettings wakeBuffered
    split_ifs
    · have hshift : Moves R c ({ c with encoder := encoder }.shiftWindows
          (settings.initialWindowSize-c.peer.initialWindowSize)) :=
        (moves_foldl (fun c id => moves_write c id fun _ => by rfl) _ _).precomp rfl fun h => h
      exact hshift.trans ((moves_foldl moves_maybeSchedule _ _).precomp rfl fun h => h)
    · exact (moves_foldl moves_maybeSchedule _ _).precomp rfl fun h => h
  | ping ack octets =>
    simp only [dispatch]
    split_ifs
    · exact .refl
    · exact .of_plan rfl fun h => h
  | windowUpdate id increment =>
    simp only [dispatch]
    rcases c.onWindowUpdate_cases id increment with
      heq | ⟨code,msg,heq⟩ | ⟨window,-,-,heq⟩ | ⟨s,-,-,-,heq⟩
    · rw [heq]
    · rw [heq]
      exact moves_connError _ _ _
    · rw [heq]
      exact (moves_foldl moves_maybeSchedule _ _).precomp rfl fun h => h
    · rw [heq]
      exact (moves_write _ _ fun _ => by rfl).trans (moves_maybeSchedule _ _)
  | priorityUpdate id field =>
    simp only [dispatch,onPriorityUpdate]
    split_ifs with hclient
    · exact moves_connError _ _ _
    · have hserver : c.config.client = false := by simpa using hclient
      have hset : Moves R c (c.setPriority id ((Priority.parse field).getD {})) :=
        .single (.setPriority c hserver id _ (hupdate hserver id field rfl))
      exact hset.postcomp rfl fun h => h
  | goAway last code debug =>
    refine (moves_foldl (fun c id => ?_) _ _).precomp rfl fun h => h
    exact (moves_closeStream _ _).precomp rfl fun h => h
  | rstStream id code =>
    simp only [dispatch,onRstStream]
    split_ifs
    · exact (moves_closeStream _ _).precomp rfl fun h => h
    · exact .refl
    · exact moves_connError _ _ _
    · exact .refl

theorem moves_receive (c : Conn) (r : RawFrame) (hop : R.Admits c (.receive r)) :
    Moves R c (c.receive r).2 := by
  by_cases hopen : c.closed = false
  swap
  · rw [show (c.receive r).2 = c by simp [receive,hopen]]
  have hout := c.receive_outcome r hopen
  generalize (c.receive r).2 = c' at hout
  cases hout with
  | failed pendingHeaders log code debug =>
    have hgoaway : Moves R _ _ := moves_sendGoaway { c with
      pendingHeaders := pendingHeaders
      hist := { c.hist with inbound := log } } code debug
    exact (hgoaway.precomp (c := c) rfl fun h => h).postcomp rfl fun h => by cases h
  | streamScoped => exact moves_streamError _ _ _ _
  | pending => exact .of_plan rfl fun h => h
  | block _ _ _ _ _ hout => exact (moves_headerOutcome hout).precomp rfl fun h => h
  | data _ _ _ hout => exact (moves_dataOutcome hout).precomp rfl fun h => h
  | plain _ hparse _ hplain =>
    refine (moves_dispatch hplain fun hserver id field hf => ?_).precomp rfl fun h => h
    exact hop hserver hopen id field (hf ▸ hparse)

theorem moves_emitLoop (n : ℕ) (c : Conn) (hround : ∀ k < n, R.round (emitLoop k c)) :
    Moves R c (emitLoop n c) := by
  induction n generalizing c with
  | zero => exact .refl
  | succ n ih =>
    have hfirst : Move R c (emitLoop 1 c) := .round c (hround 0 n.succ_pos)
    have hrest : ∀ k < n, R.round (emitLoop (k+1) c) := fun k hk => hround (k+1) (by omega)
    simp only [emitLoop] at hfirst hrest ⊢
    rcases hnext : c.scheduler.next c.peer.maxFrameSize with ⟨picked,scheduler⟩
    rw [hnext] at hfirst hrest
    cases picked with
    | none => exact .single hfirst
    | some id => exact (ih _ hrest).head hfirst

theorem moves_flush (c : Conn) (hop : R.Admits c .flush) : Moves R c c.flushOutbound.2 := by
  by_cases hclosed : c.closed = true
  · rw [flushOutbound,if_pos hclosed]
  have hrounds := hop (by simpa using hclosed)
  rw [flushOutbound,if_neg hclosed]
  generalize hc₁ : (if c.settingsSent then c
    else { c.queueSettings with settingsSent := true }) = c₁ at hrounds ⊢
  have hstart : Moves R c c₁ ∧ c₁.connSendWindow = c.connSendWindow := by
    rw [← hc₁]
    split_ifs
    · exact ⟨.refl,rfl⟩
    · exact ⟨Moves.of_plan rfl fun h => h,rfl⟩
  have hemit : Moves R c c₁.emitDataFrames := by
    rw [emitDataFrames,hstart.2]
    split_ifs with hempty
    · exact hstart.1
    · exact hstart.1.trans (moves_emitLoop 64 _ (hrounds (not_le.1 hempty)))
  exact hemit.postcomp rfl fun h => h

theorem moves_sendHeaders (c : Conn) (id : ℕ) (fields : List HeaderField) (endStream : Bool) :
    Moves R c (c.sendHeaders id fields endStream).2 := by
  rcases c.sendHeaders_cases id fields endStream with ⟨e,heq⟩ | ⟨s,hs,heq⟩
  · rw [heq]
  rw [heq]
  obtain ⟨block,encoder,-,hcases⟩ := c.sendHead_cases id s fields endStream
  have hupdate : Moves R c ((c.produce block encoder).updateStream id
      (headUpdate s fields endStream)) :=
    (moves_write _ _ fun _ => by rfl).precomp rfl fun h => h
  rcases hcases with ⟨-,heq⟩ | ⟨-,heq⟩
  · rw [heq]
    have hclose : Moves R _ _ := moves_closeStream (((c.produce block encoder).updateStream id
      (headUpdate s fields endStream)).pushEvent (.streamClosed id)) id
    exact .postcomp (hupdate.trans (hclose.precomp rfl fun h => h)) rfl fun h => h
  · rw [heq]
    exact hupdate.postcomp rfl fun h => h

theorem moves_enqueue (c : Conn) (id : ℕ) (chunk : Chunk) : Moves R c (c.enqueue id chunk) := by
  refine Relation.ReflTransGen.trans ?_ (moves_maybeSchedule _ _)
  exact (moves_write _ _ fun _ => by rfl).trans (Moves.of_plan rfl fun h => h)

theorem moves_step {op : Op} (hop : ∀ priority, op ≠ .openRequest priority)
    (hadmits : R.Admits c op) : Moves R c (c.step op) := by
  cases op with
  | openRequest priority => exact absurd rfl (hop priority)
  | sendHeaders id fields endStream => exact moves_sendHeaders _ _ _ _
  | sendData id octets endStream =>
    simp only [step]
    rcases c.sendData_cases id octets endStream with heq | ⟨s,-,-,heq⟩
    · rw [heq]
    · rw [heq]
      exact moves_enqueue _ _ _
  | sendTrailers id fields =>
    simp only [step]
    rcases c.sendTrailers_cases id fields with ⟨e,heq⟩ | ⟨s,-,-,heq⟩
    · rw [heq]
    · rw [heq]
      exact moves_enqueue _ _ _
  | sendRst id code =>
    simp only [step,sendRst]
    split_ifs
    · exact .refl
    · exact (moves_closeStream _ _).precomp rfl fun h => h
  | sendPing octets =>
    simp only [step,sendPing]
    split_ifs <;> exact .of_plan rfl fun h => h
  | sendGoaway code debug => exact moves_sendGoaway _ _ _
  | sendPriorityUpdate id priority =>
    simp only [step,sendPriorityUpdate]
    split_ifs with hserver hclosed
    · exact .refl
    · exact .refl
    · have hrewrite : Move R (c.pushFrame (.priorityUpdate id priority.text)) _ :=
        .rewrite _ id priority (hadmits (by simpa using hserver) (by simpa using hclosed))
      exact .precomp (.single hrewrite) rfl fun h => h
  | releaseData id n => exact moves_releaseData _ _ _
  | nextEvent | flushFinal => exact .of_plan rfl fun h => h
  | flush => exact moves_flush c hadmits
  | receive r => exact moves_receive c r hadmits

end Conn

end Courierust.H2
