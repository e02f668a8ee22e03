import Courierust.Ws.Poll

/-!
# Receiving octet by octet

A receiver that takes one octet at a time, and the sequence of its results. Whatever pieces the
transport delivers, and whichever path reads them, `poll_message` gives these results; only the
offset in the text of a UTF-8 error is relative to the piece in which the octet was found.
-/

namespace Courierust.Ws

open List Receiver
open Io (BufReader)

variable {S : Type} [FrameSink S]

/-! ### The machine -/

namespace Receiver

def settle (rx : Receiver S) : Except Error (Option Event) × Receiver S :=
  match rx.phase with
  | .payload header got => if header.payloadLen ≤ got then rx.finishFrame header else (.ok none, rx)
  | _ => (.ok none, rx)

def takeHeader (rx : Receiver S) (head : List UInt8) : Except Error (Option Event) × Receiver S :=
  let rx := { rx with phase := .header [] }
  match FrameHeader.parse head with
  | .error e => (.error e, rx)
  | .ok none => (.error (Error.protocol "websocket: truncated frame header"), rx)
  | .ok (some header) =>
    match rx.beginFrame header with
    | (.error e, rx) => (.error e, rx)
    | (.ok (), rx) => rx.settle

def octet (rx : Receiver S) (b : UInt8) : Except Error (Option Event) × Receiver S :=
  match rx.phase with
  | .finished => (.error sessionClosed, rx)
  | .header head =>
    if (head ++ [b]).length < (headerLenHint (head ++ [b])).getD 2 then
      (.ok none, { rx with phase := .header (head ++ [b]) })
    else rx.takeHeader (head ++ [b])
  | .payload header got =>
    match rx.acceptPayload header got [b] with
    | (.error e, rx) => (.error e, rx)
    | (.ok (), rx) => { rx with phase := .payload header (got + 1) }.settle

def isFinished (rx : Receiver S) : Bool :=
  match rx.phase with
  | .finished => true
  | _ => false

def emit (next : Receiver S → List (Except Error Event)) :
    Except Error (Option Event) × Receiver S → List (Except Error Event)
  | (.error e, _) => [.error e]
  | (.ok none, rx) => next rx
  | (.ok (some event), rx) => .ok event :: next rx

/-- The results of a byte string after which the peer closes the connection or not, up to the
first error. -/
def flow (closed : Bool) : List UInt8 → Receiver S → List (Except Error Event)
  | [], rx =>
    if rx.isFinished then [.error sessionClosed] else if closed then [.error Error.eof] else []
  | b :: bs, rx =>
    if rx.isFinished then [.error sessionClosed] else emit (flow closed bs) (rx.octet b)

def flowFrom (closed : Bool) (bs : List UInt8) (rx : Receiver S) : List (Except Error Event) :=
  emit (flow closed bs) rx.settle

end Receiver

/-- The results of `n` successive calls other than `Ok(None)`, up to the first error. -/
def Session.polls : ℕ → Session S → List (Except Error Event)
  | 0, _ => []
  | n + 1, s =>
    match s.pollMessage with
    | (.error e, _) => [.error e]
    | (.ok none, s) => polls n s
    | (.ok (some event), s) => .ok event :: polls n s

def SameError (e e' : Error) : Prop :=
  e = e' ∨ ∃ offset offset' reason,
    e = utf8Failure ⟨offset, reason⟩ ∧ e' = utf8Failure ⟨offset', reason⟩

def SameResult : Except Error Event → Except Error Event → Prop
  | .ok event, .ok event' => event = event'
  | .error e, .error e' => SameError e e'
  | _, _ => False

def SameResults (a b : List (Except Error Event)) : Prop := List.Forall₂ SameResult a b

/-! ### Errors up to an offset -/

variable {offset : ℕ}

variable {piece more bs : List UInt8} {bad : Utf8Error} {rx' : Receiver S} {s' : Session S}

theorem utf8Failure_reason {reason reason' : String}
    (h : utf8Failure ⟨offset,reason⟩ = utf8Failure ⟨offset,reason'⟩) : reason = reason' := by
  have hmsg := Option.some.inj (congrArg Error.message h)
  have hlist := congrArg String.toList hmsg
  simp only [String.toList_append,append_assoc,append_cancel_left_eq,
    append_cancel_right_eq] at hlist
  exact String.toList_inj.1 hlist

/-! ### Pieces and octets -/

namespace Receiver

omit [FrameSink S]

structure Rejects (rx : Receiver S) (header : FrameHeader) (got : ℕ) (piece : List UInt8)
    (bad : Utf8Error) : Prop where
  data : header.opcode.isControl = false
  text : rx.msgOpcode = some .text ∧ rx.msgCompressed = false
  feed : feed rx.utf8 (if header.masked then header.maskKey.apply got piece else piece) =
    .error bad

variable {rx : Receiver S} {got : ℕ} {header : FrameHeader}

theorem acceptPayload_error {e : Error} (h : rx.acceptPayload header got piece = (.error e,rx')) :
    ∃ bad, rx.Rejects header got piece bad ∧ e = utf8Failure bad ∧ rx'.phase = .finished := by
  rw [acceptPayload] at h
  by_cases hcontrol : header.opcode.isControl = true
  · rw [if_pos hcontrol] at h
    cases h
  rw [if_neg hcontrol] at h
  by_cases htext : rx.msgOpcode = some .text ∧ rx.msgCompressed = false
  · rw [if_pos htext] at h
    cases hfeed : Ws.feed rx.utf8
        (if header.masked then header.maskKey.apply got piece else piece) with
    | ok utf8 =>
      rw [hfeed] at h
      cases h
    | error bad =>
      rw [hfeed] at h
      cases h
      exact ⟨bad,⟨Bool.not_eq_true _ ▸ hcontrol,htext,hfeed⟩,rfl,rfl⟩
  · rw [if_neg htext] at h
    cases h

theorem Rejects.acceptPayload (h : rx.Rejects header got piece bad) :
    ∃ rx', rx.acceptPayload header got piece = (.error (utf8Failure bad),rx') := by
  rw [Receiver.acceptPayload,h.data,if_neg (by decide),if_pos h.text,h.feed]
  exact ⟨_,rfl⟩

theorem acceptPayload_park (rx : Receiver S) (phase : Phase) (header : FrameHeader) (got : ℕ)
    (piece : List UInt8) : ({ rx with phase } : Receiver S).acceptPayload header got piece =
      match rx.acceptPayload header got piece with
      | (.ok (),rx') => (.ok (),{ rx' with phase })
      | (.error e,rx') => (.error e,rx') := by
  simp only [acceptPayload]
  generalize (if header.masked then header.maskKey.apply got piece else piece) = data
  split_ifs
  · rfl
  · cases feed rx.utf8 data <;> rfl
  · rfl

theorem unmask_cons (header : FrameHeader) (got : ℕ) (b : UInt8) (bs : List UInt8) :
    ∃ x, (if header.masked then header.maskKey.apply got [b] else [b]) = [x] ∧
      (if header.masked then header.maskKey.apply got (b :: bs) else b :: bs) =
        x :: (if header.masked then header.maskKey.apply (got+1) bs else bs) := by
  cases header.masked with
  | false => exact ⟨b,rfl,rfl⟩
  | true =>
    have happend := header.maskKey.apply_append got [b] bs
    rw [header.maskKey.apply_eq got [b]] at happend
    exact ⟨_,header.maskKey.apply_eq got [b],happend⟩

/-- The first octet of a piece that is rejected, or the rest, is rejected for the same reason. -/
theorem Rejects.cons {b : UInt8} (h : rx.Rejects header got (b :: bs) bad) :
    rx.Rejects header got [b] ⟨0,bad.reason⟩ ∨
      ∃ rx₁ bad', rx.acceptPayload header got [b] = (.ok (),rx₁) ∧
        rx₁.Rejects header (got+1) bs bad' ∧ bad'.reason = bad.reason := by
  obtain ⟨x,hx,hdata⟩ := unmask_cons header got b bs
  have hfeed := h.feed
  rw [hdata,feed_eq,feedAll] at hfeed
  cases hb : feedByte rx.utf8 x 0 with
  | error bad' =>
    rw [hb] at hfeed
    cases hfeed
    refine .inl ⟨h.data,h.text,?_⟩
    rw [hx,feed_eq,feedAll,feedByte_offset _ 0,hb]
    rfl
  | ok utf8 =>
    rw [hb] at hfeed
    obtain ⟨at',hat⟩ := feedAll_error hfeed 0
    refine .inr ⟨{ rx with msg := rx.msg ++ [x], utf8 },⟨at',bad.reason⟩,?_,
      ⟨h.data,h.text,?_⟩,rfl⟩
    · rw [Receiver.acceptPayload,h.data,if_neg (by decide),if_pos h.text,hx,feed_eq,feedAll,
        hb]
      rfl
    · rw [feed_eq]
      exact hat

end Receiver

namespace Receiver

variable {rx : Receiver S} {header : FrameHeader} {got : ℕ} {head : List UInt8}

theorem flowFrom_of_settled (h : rx.settle = (.ok none,rx)) (closed : Bool) (bs : List UInt8) :
    flowFrom closed bs rx = flow closed bs rx := by
  rw [flowFrom,h,emit]

theorem settle_header (h : rx.phase = .header head) : rx.settle = (.ok none,rx) := by
  rw [settle,h]

section

variable (h : rx.phase = .payload header got)
include h

theorem settle_payload (hgot : got < header.payloadLen) :
    rx.settle = (.ok none,rx) := by
  rw [settle,h]
  exact if_neg (Nat.not_le.2 hgot)

theorem flowFrom_payload (hgot : got < header.payloadLen)
    (closed : Bool) (b : UInt8) (bs : List UInt8) : flowFrom closed (b :: bs) rx =
      match rx.acceptPayload header got [b] with
      | (.error e,_) => [.error e]
      | (.ok (),rx) => flowFrom closed bs { rx with phase := .payload header (got+1) } := by
  rw [flowFrom_of_settled (settle_payload h hgot),flow,isFinished,h,octet,h]
  dsimp only
  rcases rx.acceptPayload header got [b] with ⟨e | u,rx₁⟩
  · rfl
  · rfl

theorem flowFrom_piece (hpiece : rx.acceptPayload header got piece = (.ok (),rx'))
    (hle : got+piece.length ≤ max got header.payloadLen) (closed : Bool) (bs : List UInt8) :
    flowFrom closed (piece ++ bs) rx =
      flowFrom closed bs { rx' with phase := .payload header (got+piece.length) } := by
  induction piece generalizing rx rx' got with
  | nil =>
    rw [acceptPayload_nil] at hpiece
    cases hpiece
    rw [nil_append,length_nil,Nat.add_zero,← h]
  | cons b piece ih =>
    obtain ⟨rx₁,hb,hrest⟩ := acceptPayload_append.1 (singleton_append ▸ hpiece)
    rw [length_singleton] at hrest
    rw [length_cons] at hle
    rw [cons_append,flowFrom_payload h (by omega),hb]
    dsimp only
    have hpark := acceptPayload_park rx₁ (.payload header (got+1)) header (got+1) piece
    rw [hrest] at hpark
    rw [ih rfl hpark (by omega),length_cons,Nat.add_assoc,Nat.add_comm 1]

theorem flowFrom_rejected (hpiece : rx.Rejects header got piece bad)
    (hle : got+piece.length ≤ max got header.payloadLen) (closed : Bool) (bs : List UInt8) :
    flowFrom closed (piece ++ bs) rx = [.error (utf8Failure ⟨0,bad.reason⟩)] := by
  induction piece generalizing rx got bad with
  | nil =>
    obtain ⟨rx',haccept⟩ := hpiece.acceptPayload
    rw [acceptPayload_nil] at haccept
    cases haccept
  | cons b piece ih =>
    rw [length_cons] at hle
    rw [cons_append,flowFrom_payload h (by omega)]
    rcases hpiece.cons with hfirst | ⟨rx₁,bad',hb,hrest,hreason⟩
    · obtain ⟨rx',haccept⟩ := hfirst.acceptPayload
      rw [haccept]
    rw [hb]
    have hrest' : ({ rx₁ with phase := .payload header (got+1) } : Receiver S).Rejects header
        (got+1) piece bad' := ⟨hrest.data,hrest.text,hrest.feed⟩
    rw [← hreason]
    exact ih rfl hrest' (by omega)

end

/-! ### Headers and octets -/

theorem flowFrom_partial (h : rx.phase = .header head)
    (hmore : Partial (head ++ more)) (closed : Bool) (bs : List UInt8) :
    flowFrom closed (more ++ bs) rx =
      flowFrom closed bs { rx with phase := .header (head ++ more) } := by
  induction more generalizing rx head with
  | nil => rw [nil_append,append_nil,← h]
  | cons b more ih =>
    rw [append_cons] at hmore ⊢
    have hfirst : Partial (head ++ [b]) := hmore.of_prefix
    have hoctet : rx.octet b = (.ok none,{ rx with phase := .header (head ++ [b]) }) := by
      rw [octet,h]
      exact if_pos hfirst
    rw [cons_append,flowFrom_of_settled (settle_header h),flow,isFinished,h]
    dsimp only
    rw [if_neg (by decide),hoctet,emit,← flowFrom_of_settled (settle_header rfl)]
    exact ih rfl hmore

theorem flowFrom_header (h : rx.phase = .header head)
    (hcomplete : headerLenHint (head ++ more) = some (head ++ more).length) (hmore : more ≠ [])
    (closed : Bool) (bs : List UInt8) :
    flowFrom closed (more ++ bs) rx = emit (flow closed bs) (rx.takeHeader (head ++ more)) := by
  obtain ⟨init,b,rfl⟩ := eq_nil_or_concat' more |>.resolve_left hmore
  have hinit : Partial (head ++ init) := by
    rw [← append_assoc] at hcomplete
    by_cases htwo : 2 ≤ (head ++ init).length
    · have hlen : (head ++ init ++ [b]).length = (head ++ init).length+1 := by
        simp only [length_append,length_singleton]
      rw [hint_append htwo,hlen] at hcomplete
      rw [Partial,hcomplete]
      exact Nat.lt_succ_self _
    · exact .of_short (Nat.lt_of_not_le htwo)
  have hoctet : ({ rx with phase := .header (head ++ init) } : Receiver S).octet b =
      rx.takeHeader (head ++ (init ++ [b])) := by
    rw [octet]
    dsimp only
    rw [append_assoc,if_neg (by rw [hcomplete,Option.getD_some]; exact lt_irrefl _)]
    rfl
  rw [append_assoc, flowFrom_partial h hinit,singleton_append,
    flowFrom_of_settled (settle_header rfl),flow,hoctet]
  rfl

end Receiver

/-! ### Calls and octets -/

namespace Session

def Collecting (s : Session S) : Prop := ∀ head, s.rx.phase = .header head → Partial head

def flow (s : Session S) : List (Except Error Event) :=
  Receiver.flowFrom s.reader.transport.closed s.reader.remaining s.rx

def Fails (s : Session S) (e : Error) : Prop :=
  s.flow = [.error e] ∨ ∃ offset reason, e = utf8Failure ⟨offset, reason⟩ ∧
    s.flow = [.error (utf8Failure ⟨0, reason⟩)]

structure Follows (s s' : Session S) : Prop where
  collecting : s'.Collecting
  timely : s'.reader.transport.Timely
  arrivals : s'.reader.transport.arrivals.length ≤ s.reader.transport.arrivals.length
  weight : s'.weight ≤ s.weight

variable {s : Session S}

omit [FrameSink S] in
theorem Follows.trans {s'' : Session S} (h : s.Follows s') (h' : s'.Follows s'') :
    s.Follows s'' :=
  ⟨h'.collecting,h'.timely,h'.arrivals.trans h.arrivals,h'.weight.trans h.weight⟩

def Outcome (s : Session S) : Option (Except Error (Option Event)) × Session S → Prop
  | (none, s') => s'.flow = s.flow ∧ s.Follows s'
  | (some (.error e), _) => s.Fails e
  | (some (.ok none), s') => s'.flow = s.flow ∧ s.Follows s' ∧
      (s'.reader.transport.arrivals.length < s.reader.transport.arrivals.length ∨ s'.flow = [])
  | (some (.ok (some event)), s') =>
      s.flow = .ok event :: s'.flow ∧ s.Follows s' ∧ s'.weight < s.weight

omit [FrameSink S] in
theorem length_remaining (h : BufReader.Took bs s.reader s'.reader) :
    s.reader.remaining.length = bs.length+s'.reader.remaining.length := by
  rw [h.remaining,length_append]

theorem flowFrom_nil {rx : Receiver S} (hsettled : rx.settle = (.ok none,rx))
    (hrx : rx.isFinished = false) (closed : Bool) :
    Receiver.flowFrom closed [] rx = if closed then [.error Error.eof] else [] := by
  rw [flowFrom_of_settled hsettled,Receiver.flow,hrx,if_neg (by decide)]

theorem iterate_header {head : List UInt8} (hphase : s.rx.phase = .header head)
    (hcollect : Partial head) (htimely : s.reader.transport.Timely) : s.Outcome s.iterate := by
  have hspec := s.readHeader_spec hphase
  have hlt : ∀ s', s.iterate = (none,s') → s'.weight < s.weight := fun s' h => iterate_lt h
  rw [iterate,hphase] at hlt ⊢
  dsimp only at hlt ⊢
  generalize s.readHeader head = r at hspec hlt ⊢
  obtain ⟨e | _ | header,s₁⟩ := r
  · cases hspec with
    | ended he _ htook hended hopen =>
      refine .inl ?_
      have hflow := flowFrom_partial hphase hopen s.reader.transport.closed []
      rw [append_nil] at hflow
      rw [flow,hflow,flowFrom_nil (settle_header rfl) rfl,← htook.closed,
        hended.2.2,he,if_pos rfl]
    | timedOut _ hlate _ => exact absurd htimely hlate
    | buffered need hhead _ htook _ hhint hneed hparse =>
      subst hhead
      refine .inl ?_
      have htwo := (two_le_hint hhint).1
      have hlen : (s₁.reader.buffered.take need).length = need := by
        rw [length_take,min_eq_left hneed]
      have hcomplete : headerLenHint ([] ++ s₁.reader.buffered.take need) =
          some ([] ++ s₁.reader.buffered.take need).length := by
        rw [nil_append,hint_take htwo,hhint,hlen]
      have hne : s₁.reader.buffered.take need ≠ [] := by
        rw [← length_pos_iff,hlen]
        omega
      rw [flow,htook.remaining,nil_append,BufReader.remaining,
        ← take_append_drop need s₁.reader.buffered,append_assoc,
        flowFrom_header hphase hcomplete hne]
      simp [Receiver.takeHeader,hparse,Receiver.emit]
    | collected more need _ htook hcomplete hparse _ =>
      refine .inl ?_
      obtain ⟨hhint,hlen,hne⟩ := hcollect.completes hcomplete
      rw [take_of_length_le hlen.le] at hparse
      rw [flow,htook.remaining,flowFrom_header hphase hhint hne]
      simp only [Receiver.takeHeader,hparse,Receiver.emit]
  · obtain ⟨more,htook,hrx,hmore,hprogress⟩ := hspec
    have hremaining := length_remaining htook
    have hflow : s₁.flow = s.flow := by
      rw [flow,flow,htook.closed,htook.remaining, flowFrom_partial hphase hmore,hrx]
    refine ⟨hflow,⟨?_,htook.timely htimely,htook.arrivals,?_⟩,?_⟩
    · intro head' hhead'
      rw [hrx] at hhead'
      cases hhead'
      exact hmore
    · have hphase₁ : s₁.rx.phase = .header (head ++ more) := by rw [hrx]
      rw [weight,weight,hphase₁,hphase]
      cases more with
      | nil =>
        rw [append_nil]
        omega
      | cons b more =>
        have hrank : rank (.header (head ++ b :: more)) ≤ 2 := by
          cases head <;> exact le_rfl
        rw [length_cons] at hremaining
        omega
    · rcases hprogress with hprogress | ⟨hnone,hopen⟩
      · exact .inl hprogress
      · refine .inr ?_
        rw [flow,hnone,hopen,hrx,flowFrom_nil (settle_header rfl) rfl]
        rfl
  · obtain ⟨more,need,htook,hcomplete,hparse,hrx⟩ := hspec
    obtain ⟨hhint,hlen,hne⟩ := hcollect.completes hcomplete
    rw [take_of_length_le hlen.le] at hparse
    have hflow : s.flow = Receiver.emit (Receiver.flow s.reader.transport.closed
        s₁.reader.remaining) (match s₁.rx.beginFrame header with
          | (.error e,rx) => (.error e,rx)
          | (.ok (),rx) => rx.settle) := by
      rw [flow,htook.remaining,flowFrom_header hphase hhint hne,Receiver.takeHeader,
        hparse,hrx]
    dsimp only at hlt ⊢
    rcases hbegin : s₁.rx.beginFrame header with ⟨result,rx⟩
    rw [hbegin] at hlt hflow
    rcases result with e | u
    · exact .inl hflow
    refine ⟨?_,?_,htook.timely htimely,htook.arrivals,(hlt _ rfl).le⟩
    · rw [hflow,flow,htook.closed]
      rfl
    · intro head' hhead'
      rw [beginFrame_phase hbegin] at hhead'
      cases hhead'

theorem iterate_payload {header : FrameHeader} {got : ℕ}
    (hphase : s.rx.phase = .payload header got) (htimely : s.reader.transport.Timely) :
    s.Outcome s.iterate := by
  have hspec := s.readPayload_spec header got
  rw [iterate,hphase]
  dsimp only
  generalize s.readPayload header got = r at hspec ⊢
  obtain ⟨e | _ | _,s₁⟩ := r
  · cases hspec with
    | ended he htook hended rx haccept hopen _ =>
      refine .inl ?_
      have hflow := flowFrom_piece hphase haccept (hopen.le.trans (le_max_right _ _))
        s.reader.transport.closed []
      rw [append_nil] at hflow
      rw [flow,hflow,flowFrom_nil (settle_payload rfl hopen) rfl,← htook.closed,
        hended.2.2,he,if_pos rfl]
    | timedOut _ hlate _ => exact absurd htimely hlate
    | rejected a b rest hremaining rx ha hb hle =>
      obtain ⟨bad,hrejects,rfl,-⟩ := acceptPayload_error hb
      refine .inr ⟨bad.offset,bad.reason,rfl,?_⟩
      have hparked : ({ rx with phase := .payload header (got+a.length) } : Receiver S).Rejects
          header (got+a.length) b bad := ⟨hrejects.data,hrejects.text,hrejects.feed⟩
      rw [flow,hremaining,flowFrom_piece hphase ha (by omega),
        flowFrom_rejected rfl hparked (by omega)]
  · obtain ⟨⟨piece,rx,htook,haccept,hrx,hless⟩,hprogress⟩ := hspec
    have hremaining := length_remaining htook
    have hphase₁ : s₁.rx.phase = .payload header (got+piece.length) := by rw [hrx]
    have hflow : s₁.flow = s.flow := by
      rw [flow,flow,htook.closed,htook.remaining,hrx,
        flowFrom_piece hphase haccept (hless.le.trans (le_max_right _ _))]
    refine ⟨hflow,⟨?_,htook.timely htimely,htook.arrivals,?_⟩,?_⟩
    · intro head' hhead'
      rw [hphase₁] at hhead'
      cases hhead'
    · simp only [weight,hphase₁,hphase,rank]
      omega
    · rcases hprogress with hprogress | ⟨hnone,hopen⟩
      · exact .inl hprogress
      · refine .inr ?_
        rw [flow,hnone,hopen,flowFrom_nil (settle_payload hphase₁ hless)]
        · rfl
        · rw [Receiver.isFinished,hphase₁]
  · obtain ⟨piece,rx,htook,haccept,hrx,hend⟩ := hspec
    have hremaining := length_remaining htook
    have hphase₁ : s₁.rx.phase = .payload header (got+piece.length) := by rw [hrx]
    have hsettle : s₁.rx.settle = s₁.rx.finishFrame header := by
      rw [Receiver.settle,hphase₁]
      exact if_pos (by omega)
    have hflow : s.flow = Receiver.emit (Receiver.flow s₁.reader.transport.closed
        s₁.reader.remaining) (s₁.rx.finishFrame header) := by
      rw [flow,htook.remaining,flowFrom_piece hphase haccept hend.le,← hrx,
        Receiver.flowFrom,hsettle,htook.closed]
    have hafter := finishFrame_phase s₁.rx header
    have hrank := rank_finishFrame s₁.rx header
    dsimp only
    generalize s₁.rx.finishFrame header = r at hflow hafter hrank ⊢
    obtain ⟨e | event,rx'⟩ := r
    · exact .inl hflow
    have hsettled : rx'.settle = (.ok none,rx') := by
      rcases hafter with hafter | hafter
      · exact settle_header hafter
      · rw [Receiver.settle,hafter]
    have hone : rank s.rx.phase = 1 := by
      rw [hphase]
      rfl
    have hweight : ({ s₁ with rx := rx' } : Session S).weight < s.weight := by
      simp only [weight,hone,hrank]
      omega
    have hfollows : s.Follows { s₁ with rx := rx' } := by
      refine ⟨?_,htook.timely htimely,htook.arrivals,hweight.le⟩
      intro head' hhead'
      rcases hafter with hafter | hafter
      · cases hafter.symm.trans hhead'
        exact Nat.zero_lt_two
      · cases hafter.symm.trans hhead'
    have hflow' : ({ s₁ with rx := rx' } : Session S).flow =
        Receiver.flow s₁.reader.transport.closed s₁.reader.remaining rx' :=
      flowFrom_of_settled hsettled _ _
    cases event with
    | none => exact ⟨hflow'.trans hflow.symm,hfollows⟩
    | some event => exact ⟨by rw [hflow']; exact hflow,hfollows,hweight⟩

theorem iterate_outcome (hs : s.Collecting) (htimely : s.reader.transport.Timely) :
    s.Outcome s.iterate := by
  cases hphase : s.rx.phase with
  | finished =>
    rw [iterate,hphase]
    refine .inl ?_
    have hsettled : s.rx.settle = (.ok none,s.rx) := by rw [Receiver.settle,hphase]
    have hfinished : s.rx.isFinished = true := by rw [Receiver.isFinished,hphase]
    rw [flow,flowFrom_of_settled hsettled]
    cases s.reader.remaining <;> exact if_pos hfinished
  | header head => exact iterate_header hphase (hs head hphase) htimely
  | payload header got => exact iterate_payload hphase htimely

theorem pollMessage_outcome (hs : s.Collecting) (htimely : s.reader.transport.Timely) :
    s.Outcome (some s.pollMessage.1,s.pollMessage.2) := by
  fun_induction pollMessage s with
  | case1 s result s' h =>
    have houtcome := iterate_outcome hs htimely
    rwa [h] at houtcome
  | case2 s s' h _ ih =>
    have houtcome := iterate_outcome hs htimely
    rw [h] at houtcome
    obtain ⟨hflow,hfollows⟩ := houtcome
    have hrest := ih hfollows.collecting hfollows.timely
    generalize s'.pollMessage = r at hrest ⊢
    obtain ⟨e | _ | event,s''⟩ := r
    · rcases hrest with hrest | ⟨offset,reason,he,hrest⟩
      · exact .inl (hflow.symm.trans hrest)
      · exact .inr ⟨offset,reason,he,hflow.symm.trans hrest⟩
    · obtain ⟨hflow',hfollows',hprogress⟩ := hrest
      refine ⟨hflow'.trans hflow,hfollows.trans hfollows',?_⟩
      exact hprogress.imp_left fun h => h.trans_le hfollows.arrivals
    · obtain ⟨hflow',hfollows',hweight⟩ := hrest
      exact ⟨hflow.symm.trans hflow',hfollows.trans hfollows',hweight.trans_le hfollows.weight⟩

theorem polls_of_flow_nil (hs : s.Collecting) (htimely : s.reader.transport.Timely)
    (hflow : s.flow = []) (n : ℕ) : s.polls n = [] := by
  induction n generalizing s with
  | zero => rfl
  | succ n ih =>
    have houtcome := pollMessage_outcome hs htimely
    rw [polls]
    generalize s.pollMessage = r at houtcome ⊢
    obtain ⟨e | _ | event,s'⟩ := r
    · rcases houtcome with h | ⟨_,_,_,h⟩ <;> cases hflow.symm.trans h
    · obtain ⟨hsame,hfollows,-⟩ := houtcome
      exact ih hfollows.collecting hfollows.timely (hsame.trans hflow)
    · cases hflow.symm.trans houtcome.1

def Matches : List (Except Error Event) → List (Except Error Event) → Prop
  | polled, flowed => polled = flowed ∨ ∃ events offset reason,
      polled = events ++ [.error (utf8Failure ⟨offset, reason⟩)] ∧
      flowed = events ++ [.error (utf8Failure ⟨0, reason⟩)]

theorem Matches.cons {a b : List (Except Error Event)} (h : Matches a b)
    (r : Except Error Event) : Matches (r :: a) (r :: b) := by
  rcases h with rfl | ⟨events,offset,reason,rfl,rfl⟩
  · exact .inl rfl
  · exact .inr ⟨r :: events,offset,reason,rfl,rfl⟩

theorem polls_flow (hs : s.Collecting) (htimely : s.reader.transport.Timely) :
    ∃ N, ∀ n, N ≤ n → Matches (s.polls n) s.flow := by
  induction hm : s.weight+s.reader.transport.arrivals.length using Nat.strong_induction_on
    generalizing s with
  | _ m ih =>
    have houtcome := pollMessage_outcome hs htimely
    have hstep : ∀ n, s.polls (n+1) = match s.pollMessage with
        | (.error e,_) => [.error e]
        | (.ok none,s) => polls n s
        | (.ok (some event),s) => .ok event :: polls n s := fun n => rfl
    generalize s.pollMessage = r at houtcome hstep ⊢
    have hsucc : ∀ (P : ℕ → Prop) (N : ℕ), (∀ n, N ≤ n → P (n+1)) → ∀ n, N+1 ≤ n → P n := by
      intro P N h n hn
      obtain ⟨n,rfl⟩ := Nat.exists_eq_add_one_of_ne_zero (by omega : n ≠ 0)
      exact h n (by omega)
    obtain ⟨e | _ | event,s'⟩ := r
    · refine ⟨0+1,hsucc _ 0 ?_⟩
      intro n _
      rw [hstep]
      rcases houtcome with hflow | ⟨offset,reason,rfl,hflow⟩
      · exact .inl hflow.symm
      · exact .inr ⟨[],offset,reason,rfl,hflow⟩
    · obtain ⟨hsame,hfollows,hprogress⟩ := houtcome
      rcases hprogress with hprogress | hnil
      · have hless := hfollows.weight
        obtain ⟨N,hN⟩ := ih _ (by omega) hfollows.collecting hfollows.timely rfl
        refine ⟨N+1,hsucc _ N ?_⟩
        intro n hn
        rw [hstep,← hsame]
        exact hN n hn
      · refine ⟨0+1,hsucc _ 0 ?_⟩
        intro n _
        rw [hstep,← hsame,hnil]
        exact .inl (polls_of_flow_nil hfollows.collecting hfollows.timely hnil n)
    · obtain ⟨hflow,hfollows,hweight⟩ := houtcome
      have hless := hfollows.arrivals
      obtain ⟨N,hN⟩ := ih _ (by omega) hfollows.collecting hfollows.timely rfl
      refine ⟨N+1,hsucc _ N ?_⟩
      intro n hn
      rw [hstep,hflow]
      exact (hN n hn).cons _

end Session

/-! ### Segmentation -/

theorem SameResults.refl (a : List (Except Error Event)) : SameResults a a := by
  refine forall₂_same.2 ?_
  intro r _
  cases r with
  | error e => exact .inl rfl
  | ok event => rfl

theorem SameResults.append_error (events : List (Except Error Event)) {e e' : Error}
    (h : SameError e e') : SameResults (events ++ [.error e]) (events ++ [.error e']) :=
  rel_append (SameResults.refl events) (.cons h .nil)

theorem sameResults_of_matches {a b flowed : List (Except Error Event)}
    (ha : Session.Matches a flowed) (hb : Session.Matches b flowed) : SameResults a b := by
  rcases ha with rfl | ⟨events,offset,reason,rfl,rfl⟩
  · rcases hb with rfl | ⟨events,offset,reason,rfl,rfl⟩
    · exact SameResults.refl _
    · exact SameResults.append_error events (.inr ⟨0,offset,reason,rfl,rfl⟩)
  rcases hb with rfl | ⟨events',offset',reason',rfl,hflow⟩
  · exact SameResults.append_error events (.inr ⟨offset,0,reason,rfl,rfl⟩)
  · obtain ⟨rfl,hlast⟩ := append_inj' hflow rfl
    obtain rfl := utf8Failure_reason (Except.error.inj (List.cons.inj hlast).1)
    exact SameResults.append_error events (.inr ⟨offset,offset',reason,rfl,rfl⟩)

def wholeReader (r : BufReader) : BufReader :=
  { r with buffered := r.remaining, transport := ⟨[], r.transport.closed⟩ }

/-- **Segmentation.** However a byte string is delivered, enough calls of `poll_message` give the
results that they give when the whole string is in the buffer, up to the offset that the text of
a UTF-8 error quotes. -/
theorem segmentation_independent {s : Session S} (hs : s.Collecting)
    (htimely : s.reader.transport.Timely) :
    ∃ N, ∀ n m, N ≤ n → N ≤ m →
      SameResults (s.polls n) (Session.polls m { s with reader := wholeReader s.reader }) := by
  obtain ⟨N,hN⟩ := Session.polls_flow hs htimely
  have hwhole : (wholeReader s.reader).remaining = s.reader.remaining := append_nil _
  obtain ⟨M,hM⟩ := Session.polls_flow (s := { s with reader := wholeReader s.reader }) hs nofun
  have hflow : ({ s with reader := wholeReader s.reader } : Session S).flow = s.flow := by
    rw [Session.flow,Session.flow,hwhole]
    rfl
  rw [hflow] at hM
  refine ⟨max N M,?_⟩
  intro n m hn hm
  exact sameResults_of_matches (hN n ((le_max_left _ _).trans hn))
    (hM m ((le_max_right _ _).trans hm))

theorem readerRoom : 0 < 16*1024 := by decide

def clientReading (arrivals : List Io.Arrival) : Session VecSink where
  reader := ⟨[], 16 * 1024, readerRoom, ⟨arrivals, false⟩⟩
  rx := Receiver.new { role := .client } ⟨{}, {}, false⟩

def invalidText : Session VecSink := clientReading [.bytes 0x81 [0x02, 0x61], .bytes 0xff []]

theorem segmentation_independent_invalidText :
    ∃ N, ∀ n m, N ≤ n → N ≤ m → SameResults (invalidText.polls n)
      (Session.polls m { invalidText with reader := wholeReader invalidText.reader }) := by
  refine segmentation_independent ?_ ?_
  · intro head hhead
    cases hhead
    exact Nat.zero_lt_two
  intro a ha
  rcases mem_cons.1 ha with rfl | ha
  · nofun
  · rw [mem_singleton.1 ha]
    nofun

/-- The error quotes the octet's place in its read: the texts differ. -/
theorem utf8_offset_depends_on_reads :
    invalidText.polls 2 = [.error (utf8Failure ⟨0, "invalid lead byte"⟩)] ∧
      Session.polls 2 { invalidText with reader := wholeReader invalidText.reader } =
        [.error (utf8Failure ⟨1, "invalid lead byte"⟩)] ∧
      utf8Failure ⟨0, "invalid lead byte"⟩ ≠ utf8Failure ⟨1, "invalid lead byte"⟩ := by
  decide +kernel

end Courierust.Ws
