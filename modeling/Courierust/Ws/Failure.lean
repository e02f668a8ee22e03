import Courierust.Ws.Octets

/-!
# After a failure

Once a call has rejected what it read, or has handed out a Close frame, a session is dead: every
later call returns an error. There are two exceptions. A header that the parser rejects after it
was collected over several reads leaves the session where it was before the header, with the
header's octets gone, and what follows is read as a new frame. And an error of the sink, when a
Ping or Close frame is answered, leaves the session ready for the next frame.
-/

namespace Courierust.Ws

open Http (Utf8 isUtf8)
open Io (BufReader)

def Failure : Except Error (Option Event) → Prop
  | .error e => e.kind = .protocol ∨ e.kind = .overflow
  | .ok (some (.close _)) => True
  | .ok _ => False

variable {S : Type}

variable {got need : ℕ} {r' : BufReader}

/-! ### Sound receivers -/

namespace Receiver

structure Sound (rx : Receiver S) : Prop where
  inflater : rx.cfg.compression.isSome = rx.inflater.isSome
  opcode : ∀ op, rx.msgOpcode = some op → op = .text ∨ op = .binary
  compressed : rx.msgCompressed = true → rx.inflater.isSome = true
  utf8 : rx.msgOpcode = some .text → rx.msgCompressed = false →
    feedAll .start 0 rx.msg = .ok rx.utf8
  collecting : ∀ head, rx.phase = .header head → Partial head
  data : ∀ header got, rx.phase = .payload header got → header.opcode.isControl = false →
    rx.msgOpcode.isSome = true

variable {rx rx' : Receiver S} {header : FrameHeader}

/-- What `Sound` says of a message does not depend on the phase. -/
def message (rx : Receiver S) :=
  (rx.cfg, rx.inflater, rx.msgOpcode, rx.msgCompressed, rx.msg, rx.utf8)

theorem Sound.waiting (h : rx.Sound) (hmessage : rx'.message = rx.message)
    (hphase : ∀ head, rx'.phase = .header head → Partial head)
    (hpayload : ∀ header got, rx'.phase ≠ .payload header got) : rx'.Sound := by
  simp only [message,Prod.mk.injEq] at hmessage
  obtain ⟨hcfg,hinflater,hopcode,hcompressed,hmsg,hutf8⟩ := hmessage
  refine ⟨?_,?_,?_,?_,hphase,fun header got h => absurd h (hpayload header got)⟩
  · rw [hcfg,hinflater]
    exact h.inflater
  · rw [hopcode]
    exact h.opcode
  · rw [hcompressed,hinflater]
    exact h.compressed
  · rw [hopcode,hcompressed,hmsg,hutf8]
    exact h.utf8

theorem Sound.between (h : rx.Sound) (hmessage : rx'.message = rx.message)
    (hphase : rx'.Between) : rx'.Sound := by
  refine h.waiting hmessage ?_ ?_
  · intro head hhead
    rcases hphase with hphase | hphase <;> cases hphase.symm.trans hhead
    exact Nat.zero_lt_two
  · intro header got hpayload
    rcases hphase with hphase | hphase <;> cases hphase.symm.trans hpayload

/-- A frame has begun: the conditions are those of its header. -/
theorem Sound.payload (hphase : rx.phase = .payload header got)
    (hinflater : rx.cfg.compression.isSome = rx.inflater.isSome)
    (hopcode : ∀ op, rx.msgOpcode = some op → op = .text ∨ op = .binary)
    (hcompressed : rx.msgCompressed = true → rx.inflater.isSome = true)
    (hutf8 : rx.msgOpcode = some .text → rx.msgCompressed = false →
      feedAll .start 0 rx.msg = .ok rx.utf8)
    (hdata : header.opcode.isControl = false → rx.msgOpcode.isSome = true) : rx.Sound := by
  refine ⟨hinflater,hopcode,hcompressed,hutf8,?_,?_⟩
  · intro head hhead
    cases hphase.symm.trans hhead
  · intro header' got' hpayload
    cases hphase.symm.trans hpayload
    exact hdata

theorem Sound.closed (hinflater : rx.cfg.compression.isSome = rx.inflater.isSome)
    (hopcode : rx.msgOpcode = none) (hcompressed : rx.msgCompressed = false)
    (hphase : rx.Between) : rx.Sound := by
  have hbase : ({ rx with phase := .finished } : Receiver S).Sound := by
    refine ⟨hinflater,?_,?_,?_,fun _ h => (by cases h),fun _ _ h => (by cases h)⟩
    · intro op hop
      cases hopcode.symm.trans hop
    · intro hset
      cases hcompressed.symm.trans hset
    · intro hop
      cases hopcode.symm.trans hop
  exact hbase.between rfl hphase

theorem Sound.acceptPayload (h : rx.Sound) (hphase : rx.phase = .payload header got)
    {piece : List UInt8} (haccept : rx.acceptPayload header got piece = (.ok (),rx')) :
    ({ rx' with phase := .payload header (got+piece.length) } : Receiver S).Sound := by
  have hopen := h.data header got hphase
  rw [Receiver.acceptPayload] at haccept
  generalize (if header.masked then header.maskKey.apply got piece else piece) = data at haccept
  by_cases hcontrol : header.opcode.isControl = true
  · rw [if_pos hcontrol] at haccept
    cases haccept
    exact .payload rfl h.inflater h.opcode h.compressed h.utf8 hopen
  rw [if_neg hcontrol] at haccept
  split_ifs at haccept with htext
  · rw [feed_eq] at haccept
    cases hfeed : feedAll rx.utf8 0 data with
    | error bad =>
      rw [hfeed] at haccept
      cases haccept
    | ok utf8 =>
      rw [hfeed] at haccept
      cases haccept
      refine .payload rfl h.inflater h.opcode h.compressed (fun _ _ => ?_) hopen
      rw [feedAll_append,h.utf8 htext.1 htext.2]
      exact feedAll_ok_offset hfeed _
  · cases haccept
    refine .payload rfl h.inflater h.opcode h.compressed ?_ hopen
    exact fun hop hcomp => absurd ⟨hop,hcomp⟩ htext

theorem Sound.openMessage (h : rx.Sound) (hdata : header.opcode.isControl = false)
    (hreserved : header.checkReserved rx.cfg.compression.isSome = .ok ())
    (hopen : rx.openMessage header = .ok rx') :
    ({ rx' with
      msgOpcode := some (rx'.msgOpcode.getD header.opcode)
      phase := .payload header 0 } : Receiver S).Sound := by
  rw [Receiver.openMessage] at hopen
  cases hmsg : rx.msgOpcode with
  | some op =>
    rw [hmsg] at hopen
    have hkeep : header.opcode = .continuation := by
      generalize header.opcode = opcode at hopen ⊢
      cases opcode with
      | continuation => rfl
      | _ => cases hopen
    rw [hkeep] at hopen
    cases hopen
    refine .payload rfl h.inflater ?_ h.compressed ?_ fun _ => rfl
    · exact fun op' hop' => h.opcode op' (hmsg.trans hop')
    · exact fun hop' => h.utf8 (hmsg.trans hop')
  | none =>
    rw [hmsg] at hopen
    have hstart : header.opcode = .text ∨ header.opcode = .binary := by
      generalize header.opcode = opcode at hdata hopen ⊢
      cases opcode with
      | continuation => cases hopen
      | text => exact .inl rfl
      | binary => exact .inr rfl
      | _ => cases hdata
    have hrx : rx' = { rx with
        msg := [], msgOpcode := none, utf8 := .start, msgCompressed := header.rsv1,
        fragments := 0 } := by
      rcases hstart with hop | hop <;> rw [hop] at hopen <;> cases hopen <;> rfl
    subst hrx
    refine .payload rfl h.inflater ?_ ?_ (fun _ _ => rfl) fun _ => rfl
    · intro op' hop'
      cases hop'
      exact hstart
    intro hrsv1
    dsimp only at hrsv1 ⊢
    rw [FrameHeader.checkReserved,hrsv1] at hreserved
    rw [← h.inflater]
    cases hsome : rx.cfg.compression.isSome with
    | true => rfl
    | false =>
      rw [hsome] at hreserved
      cases hreserved

theorem Sound.beginFrame (h : rx.Sound) (header : FrameHeader) :
    match rx.beginFrame header with
    | (.ok (),rx') => rx'.Sound
    | (.error _,rx') => rx'.phase = .finished := by
  rw [Receiver.beginFrame]
  cases hreserved : header.checkReserved rx.cfg.compression.isSome with
  | error e => rfl
  | ok u =>
    cases checkMask rx.cfg.role header with
    | error e => rfl
    | ok u =>
      by_cases hcontrol : header.opcode.isControl = true
      · split_ifs
        · rfl
        · refine .payload rfl h.inflater h.opcode h.compressed h.utf8 ?_
          intro hdata
          cases hcontrol.symm.trans hdata
      rw [if_neg hcontrol]
      cases hopen : rx.openMessage header with
      | error e => rfl
      | ok rx₁ =>
        have hsound := h.openMessage (Bool.not_eq_true _ ▸ hcontrol) hreserved hopen
        dsimp only [acceptData]
        split_ifs
        · rfl
        · rfl
        · rfl
        · exact hsound

def Finished (r : Except Error (Option Event) × Receiver S) : Prop :=
  r.2.Sound ∧ (Failure r.1 → r.2.phase = .finished)

theorem finished_fatal (h : rx.Sound) (e : Error) : Finished (rx.fatal e) :=
  ⟨h.between rfl (.inr rfl),fun _ => rfl⟩

theorem finished_message (h : rx.Sound) (opcode : OpCode) {compressed : Bool} {bytes : List UInt8}
    (hutf8 : opcode = .text → compressed = false → feedAll .start 0 bytes = .ok rx.utf8) :
    Finished (rx.finishMessage opcode compressed bytes) := by
  cases opcode with
  | text =>
    rw [finishMessage]
    by_cases hinvalid : compressed = true ∧ validate bytes = false
    · rw [if_pos hinvalid]
      exact finished_fatal h _
    rw [if_neg hinvalid]
    by_cases hopen : compressed = false ∧ rx.utf8 ≠ .start
    · rw [if_pos hopen]
      exact finished_fatal h _
    have hvalid : isUtf8 bytes = true := by
      cases compressed with
      | true =>
        rw [← validate_eq]
        exact Bool.not_eq_false _ ▸ fun hfalse => hinvalid ⟨rfl,hfalse⟩
      | false =>
        rw [isUtf8_iff bytes 0,hutf8 rfl rfl]
        exact congrArg _ (not_not.1 fun hne => hopen ⟨rfl,hne⟩)
    rw [if_neg hopen,if_pos hvalid]
    exact ⟨h,False.elim⟩
  | _ => exact ⟨h,False.elim⟩

theorem finished_data (h : rx.Sound) (hphase : rx.phase = .header [])
    (hopen : rx.msgOpcode.isSome = true) (fin : Bool) : Finished (rx.finishData fin) := by
  rw [finishData]
  split_ifs with hfin
  · exact ⟨h,False.elim⟩
  cases hop : rx.msgOpcode with
  | none =>
    rw [hop] at hopen
    cases hopen
  | some opcode =>
    cases hcompressed : rx.msgCompressed with
    | false =>
      refine finished_message ?_ opcode ?_
      · exact Sound.closed h.inflater rfl rfl (.inl hphase)
      · rintro rfl _
        exact h.utf8 hop hcompressed
    | true =>
      cases hinflater : rx.inflater with
      | none =>
        have hsome := h.compressed hcompressed
        rw [hinflater] at hsome
        cases hsome
      | some inflater =>
        have hsome : rx.cfg.compression.isSome = true := by rw [h.inflater,hinflater]; rfl
        dsimp only
        rcases inflater.inflateMessage rx.msg rx.cfg.maxMessage with ⟨e | bytes,inflater'⟩
        · refine finished_fatal ?_ e
          exact Sound.closed hsome rfl rfl (.inl hphase)
        · refine finished_message ?_ opcode ?_
          · exact Sound.closed hsome rfl rfl (.inl hphase)
          · intro _ hfalse
            cases hfalse

variable [FrameSink S]

/-- The writer takes the answer to a Ping or Close frame, or refuses it with an error that is no
`Failure`. -/
def AnswerTaken (rx : Receiver S) (header : FrameHeader) : Prop :=
  rx.closeSent = false → ∀ e,
    (header.opcode = .ping → rx.cfg.autoPong = true →
      (rx.writer.sendPong rx.ctl).1 = .error e → ¬ Failure (.error e)) ∧
    (header.opcode = .close → ∀ frame, Close.parse rx.ctl = .ok frame →
      (rx.writer.sendClose ((frame.map (·.code)).getD Close.normal)
        ((frame.map (·.reason)).getD [])).1 = .error e → ¬ Failure (.error e))

theorem finished_ping (h : rx.Sound) (hphase : rx.phase = .header [])
    (htaken : rx.closeSent = false → ∀ e, rx.cfg.autoPong = true →
      (rx.writer.sendPong rx.ctl).1 = .error e → ¬ Failure (.error e)) :
    Finished rx.finishPing := by
  have hsame : ∀ writer : FrameWriter S, ({ rx with ctl := [], writer } : Receiver S).Sound :=
    fun writer => h.between rfl (.inl hphase)
  simp only [finishPing]
  split_ifs with hanswer
  · have htaken := fun e => htaken hanswer.2.1 e hanswer.1
    generalize rx.writer.sendPong rx.ctl = r at htaken ⊢
    obtain ⟨e | u,writer⟩ := r
    · exact ⟨hsame writer,fun hfail => absurd hfail (htaken e rfl)⟩
    · exact ⟨hsame writer,False.elim⟩
  · exact ⟨hsame rx.writer,False.elim⟩

theorem Sound.close (h : rx.Sound) (hphase : rx.phase = .header []) (code : ℕ)
    (reason : List UInt8) : (rx.close code reason).2.Sound ∧
      ∀ e, (rx.close code reason).1 = .error e →
        rx.closeSent = false ∧ (rx.writer.sendClose code reason).1 = .error e := by
  rw [Receiver.close]
  split_ifs with hsent
  · exact ⟨h,fun _ he => by cases he⟩
  rcases rx.writer.sendClose code reason with ⟨e | u,writer⟩
  · exact ⟨h.between rfl (.inl hphase),fun _ he => ⟨Bool.not_eq_true _ ▸ hsent,he⟩⟩
  refine ⟨?_,fun _ he => by cases he⟩
  dsimp only
  split_ifs
  · exact h.between rfl (.inr rfl)
  · exact h.between rfl (.inl hphase)

theorem finished_close (h : rx.Sound) (hphase : rx.phase = .header [])
    (htaken : rx.closeSent = false → ∀ e frame, Close.parse rx.ctl = .ok frame →
      (rx.writer.sendClose ((frame.map (·.code)).getD Close.normal)
        ((frame.map (·.reason)).getD [])).1 = .error e → ¬ Failure (.error e)) :
    Finished rx.finishClose := by
  have hbase : ∀ received : Bool,
      ({ rx with ctl := [], closeReceived := received } : Receiver S).Sound :=
    fun received => h.between rfl (.inl hphase)
  simp only [finishClose]
  cases hparse : Close.parse rx.ctl with
  | error e =>
    have hclose := ((hbase rx.closeReceived).close hphase (Close.failureCode e) []).1
    exact ⟨hclose.between rfl (.inr rfl),fun _ => rfl⟩
  | ok frame =>
    dsimp only
    split_ifs
    · exact ⟨(hbase true).between rfl (.inr rfl),fun _ => rfl⟩
    have hclose := (hbase true).close hphase ((frame.map (·.code)).getD Close.normal)
      ((frame.map (·.reason)).getD [])
    generalize Receiver.close (S := S) _ _ _ = r at hclose ⊢
    obtain ⟨e | u,rx'⟩ := r
    · obtain ⟨hsent,hsend⟩ := hclose.2 e rfl
      exact ⟨hclose.1,fun hfail => absurd hfail (htaken hsent e frame hparse hsend)⟩
    · exact ⟨hclose.1.between rfl (.inr rfl),fun _ => rfl⟩

theorem Sound.finishFrame (h : rx.Sound) (hphase : rx.phase = .payload header got)
    (htaken : rx.AnswerTaken header) : Finished (rx.finishFrame header) := by
  have hbase : ({ rx with phase := .header [] } : Receiver S).Sound :=
    h.between rfl (.inl rfl)
  have hdata := h.data header got hphase
  rw [Receiver.finishFrame]
  cases hop : header.opcode with
  | ping => exact finished_ping hbase rfl fun hsent e => (htaken hsent e).1 hop
  | pong => exact ⟨hbase.between rfl (.inl rfl),False.elim⟩
  | close => exact finished_close hbase rfl fun hsent e => (htaken hsent e).2 hop
  | continuation | text | binary =>
    exact finished_data hbase rfl (hdata (by rw [hop]; rfl)) header.fin

end Receiver

/-! ### Dead sessions -/

namespace Session

/-- A session from which no event can come any more: it is closed, its buffer starts with a header
that is rejected, or the stream has ended in the middle of a frame. -/
inductive Dead (s : Session S) : Prop
  | finished (hphase : s.rx.phase = .finished)
  | stuck (need : ℕ) (e : Error) (hphase : s.rx.phase = .header [])
      (hhint : headerLenHint s.reader.buffered = some need)
      (hneed : need ≤ s.reader.buffered.length)
      (hparse : FrameHeader.parse (s.reader.buffered.take need) = .error e)
  | endedHeader (head : List UInt8) (hphase : s.rx.phase = .header head) (hopen : Partial head)
      (hended : s.reader.Ended)
  | endedPayload (header : FrameHeader) (got : ℕ) (hphase : s.rx.phase = .payload header got)
      (hopen : got < header.payloadLen) (hended : s.reader.Ended)

variable {s s' : Session S} {r : BufReader} {head : List UInt8}

variable {header : FrameHeader} {e : Error}

theorem took_ended {got : List UInt8} (hended : r.Ended) (h : Io.BufReader.Took got r r') :
    got = [] ∧ r'.remaining = [] := by
  have hremaining := h.remaining
  rw [hended.1] at hremaining
  exact List.append_eq_nil_iff.1 hremaining.symm

theorem not_waiting_ended {got : List UInt8} (hended : r.Ended) (h : Io.BufReader.Took got r r')
    (hwaits : r'.transport.arrivals.length < r.transport.arrivals.length ∨
      r'.remaining = [] ∧ r'.transport.closed = false) : False := by
  obtain ⟨-,hnone,hclosed⟩ := hended
  rcases hwaits with hless | ⟨-,hopen⟩
  · rw [hnone] at hless
    exact absurd hless (Nat.not_lt_zero _)
  · cases (h.closed.trans hclosed).symm.trans hopen

theorem timely_ended (hended : r.Ended) : r.transport.Timely := by
  intro a ha
  rw [hended.2.1] at ha
  cases ha

theorem readHeader_ended (hphase : s.rx.phase = .header head) (hopen : Partial head)
    (hended : s.reader.Ended) : ∃ e s', s.readHeader head = (.error e,s') ∧ s'.Dead := by
  have hspec := s.readHeader_spec hphase
  generalize s.readHeader head = r at hspec ⊢
  obtain ⟨e | _ | header,s'⟩ := r
  · refine ⟨e,s',rfl,?_⟩
    rcases hspec with ⟨-,hrx,-,hended',-⟩ | ⟨-,hlate,-⟩ |
      ⟨need,-,-,htook,-,hhint,-,-⟩ | ⟨more,need,-,htook,hcomplete,-,-⟩
    · exact .endedHeader head (by rw [hrx,hphase]) hopen hended'
    · exact absurd (timely_ended hended) hlate
    · have hnil := List.append_eq_nil_iff.1 (took_ended hended htook).2
      rw [hnil.1] at hhint
      cases hhint
    · exact absurd (took_ended hended htook).1 (hopen.completes hcomplete).2.2
  · obtain ⟨more,htook,-,-,hwaits⟩ := hspec
    exact (not_waiting_ended hended htook hwaits).elim
  · obtain ⟨more,need,htook,hcomplete,-,-⟩ := hspec
    exact absurd (took_ended hended htook).1 (hopen.completes hcomplete).2.2

theorem readPayload_ended
    (hphase : s.rx.phase = .payload header got) (hopen : got < header.payloadLen)
    (hended : s.reader.Ended) : ∃ e s', s.readPayload header got = (.error e,s') ∧ s'.Dead := by
  have hspec := s.readPayload_spec header got
  generalize s.readPayload header got = r at hspec ⊢
  obtain ⟨e | _ | _,s'⟩ := r
  · refine ⟨e,s',rfl,?_⟩
    rcases hspec with ⟨-,-,hended',-,-,-,hphase'⟩ | ⟨-,hlate,-⟩ |
      ⟨a,b,rest,hremaining,rx,ha,hb,-⟩
    · rcases hphase' with hphase' | ⟨got',hless,hphase'⟩
      · exact .endedPayload header got (hphase'.trans hphase) hopen hended'
      · exact .endedPayload header got' hphase' hless hended'
    · exact absurd (timely_ended hended) hlate
    · exact .finished (Receiver.acceptPayload_error hb).choose_spec.2.2
  · obtain ⟨⟨piece,rx,htook,-⟩,hwaits⟩ := hspec
    exact (not_waiting_ended hended htook hwaits).elim
  · obtain ⟨piece,rx,htook,-,-,hlen⟩ := hspec
    rw [(took_ended hended htook).1,List.length_nil] at hlen
    omega

theorem readHeader_stuck (hhint : headerLenHint s.reader.buffered = some need)
    (hneed : need ≤ s.reader.buffered.length)
    (hparse : FrameHeader.parse (s.reader.buffered.take need) = .error e) :
    s.readHeader [] = (.error e,s) := by
  have hne : s.reader.buffered ≠ [] := by
    intro hnil
    rw [hnil] at hhint
    cases hhint
  have hfill : s.reader.fillBuf = (.ok s.reader.buffered,s.reader) := by
    rw [Io.BufReader.fillBuf,if_neg hne]
  rw [readHeader,if_neg (not_not.2 rfl),hfill]
  cases hb : s.reader.buffered with
  | nil => exact absurd hb hne
  | cons b bs =>
    rw [hb] at hhint hneed hparse
    dsimp only
    rw [hhint]
    dsimp only
    rw [if_neg (Nat.not_lt.2 hneed),hparse]

variable [FrameSink S]

theorem Dead.iterate (h : s.Dead) : ∃ e, s.iterate.1 = some (.error e) ∧ s.iterate.2.Dead := by
  rcases h with hphase | ⟨need,e,hphase,hhint,hneed,hparse⟩ | ⟨head,hphase,hopen,hended⟩ |
    ⟨header,got,hphase,hopen,hended⟩
  · rw [Session.iterate,hphase]
    exact ⟨_,rfl,.finished hphase⟩
  · rw [Session.iterate,hphase]
    dsimp only
    rw [readHeader_stuck hhint hneed hparse]
    exact ⟨e,rfl,.stuck need e hphase hhint hneed hparse⟩
  · obtain ⟨e,s',hread,hdead⟩ := readHeader_ended hphase hopen hended
    rw [Session.iterate,hphase]
    dsimp only
    rw [hread]
    exact ⟨e,rfl,hdead⟩
  · obtain ⟨e,s',hread,hdead⟩ := readPayload_ended hphase hopen hended
    rw [Session.iterate,hphase]
    dsimp only
    rw [hread]
    exact ⟨e,rfl,hdead⟩

theorem pollMessage_some {result : Except Error (Option Event)}
    (h : s.iterate = (some result,s')) : s.pollMessage = (result,s') := by
  rw [pollMessage]
  split
  · next result' s'' heq =>
    cases heq.symm.trans h
    rfl
  · next s'' heq => cases heq.symm.trans h

theorem pollMessage_none (h : s.iterate = (none,s')) : s.pollMessage = s'.pollMessage := by
  rw [pollMessage]
  split
  · next result' s'' heq => cases heq.symm.trans h
  · next s'' heq =>
    cases heq.symm.trans h
    rfl

theorem Dead.pollMessage (h : s.Dead) : ∃ e, s.pollMessage.1 = .error e ∧ s.pollMessage.2.Dead := by
  obtain ⟨e,hresult,hdead⟩ := h.iterate
  have hcall := pollMessage_some (Prod.ext hresult rfl)
  rw [hcall]
  exact ⟨e,rfl,hdead⟩

/-- The state before the `n`-th call. -/
def calls (n : ℕ) (s : Session S) : Session S := (fun t => t.pollMessage.2)^[n] s

/-- The state before the `k`-th round, over all calls. -/
def rounds (k : ℕ) (s : Session S) : Session S := (fun t => t.iterate.2)^[k] s

theorem Dead.calls (h : s.Dead) (n : ℕ) : (s.calls n).Dead := by
  induction n with
  | zero => exact h
  | succ n ih =>
    rw [Session.calls,Function.iterate_succ_apply']
    exact ih.pollMessage.choose_spec.2

/-! ### One round -/

def HeaderWhole (s : Session S) : Prop :=
  ∀ head, s.rx.phase = .header head →
    (head = [] ∧ ∃ need, headerLenHint s.reader.fillBuf.2.buffered = some need ∧
      need ≤ s.reader.fillBuf.2.buffered.length) ∨
    ∀ need e, headerLenHint (head ++ s.reader.remaining) = some need →
      need ≤ (head ++ s.reader.remaining).length →
      FrameHeader.parse ((head ++ s.reader.remaining).take need) ≠ .error e

/-- When this round completes a Ping or Close frame, its answer is taken. -/
def AnswerTaken (s : Session S) : Prop :=
  ∀ header got s', s.rx.phase = .payload header got →
    s.readPayload header got = (.ok true, s') → s'.rx.AnswerTaken header

def Keeps (r : Option (Except Error (Option Event)) × Session S) : Prop :=
  (r.2.rx.Sound ∨ r.2.Dead) ∧ ∀ result, r.1 = some result → Failure result → r.2.Dead

omit [FrameSink S] in
theorem keeps_sound (h : s.rx.Sound) {result : Option (Except Error (Option Event))}
    (hfine : ∀ r, result = some r → ¬ Failure r) : Keeps (result,s) :=
  ⟨.inl h,fun r hr hfail => absurd hfail (hfine r hr)⟩

omit [FrameSink S] in
theorem keeps_dead (h : s.Dead) (result : Option (Except Error (Option Event))) :
    Keeps (result,s) :=
  ⟨.inr h,fun _ _ _ => h⟩

omit [FrameSink S] in
theorem HeaderWhole.not_collected (h : s.HeaderWhole) (hphase : s.rx.phase = .header head)
    {more : List UInt8} (htook : Io.BufReader.Took more s.reader s'.reader)
    (hcomplete : Completes head more need)
    (hparse : FrameHeader.parse ((head ++ more).take need) = .error e)
    (hslow : head ≠ [] ∨ ∀ need', headerLenHint s.reader.fillBuf.2.buffered = some need' →
      s.reader.fillBuf.2.buffered.length < need') : False := by
  obtain ⟨hhint,hlen⟩ := hcomplete
  have hneed : need ≤ (head ++ more).length := by omega
  rcases h head hphase with ⟨hnil,need',hhint',hneed'⟩ | hgood
  · rcases hslow with hne | hshort
    · exact hne hnil
    · exact absurd (hshort need' hhint') (Nat.not_lt.2 hneed')
  rw [htook.remaining,← List.append_assoc,hint_append (two_le_hint hhint).2] at hgood
  refine hgood need e hhint ?_ ?_
  · rw [List.length_append]
    omega
  · rw [List.take_append_of_le_length hneed]
    exact hparse

theorem keeps_header (hsound : s.rx.Sound) (hwhole : s.HeaderWhole)
    (hphase : s.rx.phase = .header head) : Keeps s.iterate := by
  have hspec := s.readHeader_spec hphase
  rw [Session.iterate,hphase]
  dsimp only
  generalize s.readHeader head = r at hspec ⊢
  obtain ⟨e | _ | header,s'⟩ := r
  · rcases hspec with ⟨-,hrx,-,hended,hopen⟩ | ⟨rfl,-,hrx⟩ |
      ⟨need,rfl,hrx,-,-,hhint,hneed,hparse⟩ | ⟨more,need,-,htook,hcomplete,hparse,hslow⟩
    · exact keeps_dead (.endedHeader head (by rw [hrx,hphase]) hopen.of_prefix hended) _
    · refine keeps_sound (hrx ▸ hsound) ?_
      rintro _ ⟨⟩ (hkind | hkind) <;> cases hkind
    · exact keeps_dead (.stuck need e (by rw [hrx,hphase]) hhint hneed hparse) _
    · exact (hwhole.not_collected hphase htook hcomplete hparse hslow).elim
  · obtain ⟨more,-,hrx,hopen,-⟩ := hspec
    refine keeps_sound ?_ ?_
    · rw [hrx]
      refine hsound.waiting rfl ?_ fun _ _ h => by cases h
      rintro _ ⟨⟩
      exact hopen
    · rintro _ ⟨⟩
      exact id
  · obtain ⟨more,need,-,-,-,hrx⟩ := hspec
    have hsound' : s'.rx.Sound := by
      rw [hrx]
      exact hsound.between rfl (.inl rfl)
    have hbegin := hsound'.beginFrame header
    dsimp only
    generalize s'.rx.beginFrame header = b at hbegin ⊢
    obtain ⟨e | u,rx⟩ := b
    · exact keeps_dead (.finished hbegin) _
    · exact keeps_sound hbegin fun _ hr => by cases hr

theorem keeps_payload (hsound : s.rx.Sound) (htaken : s.AnswerTaken)
    (hphase : s.rx.phase = .payload header got) : Keeps s.iterate := by
  have hspec := s.readPayload_spec header got
  have htaken := fun s' => htaken header got s' hphase
  rw [Session.iterate,hphase]
  dsimp only
  generalize s.readPayload header got = r at hspec htaken ⊢
  obtain ⟨e | _ | _,s'⟩ := r
  · rcases hspec with ⟨-,-,hended,rx,-,hopen,hphase'⟩ |
      ⟨rfl,-,piece,rx,-,haccept,hrx,hless⟩ | ⟨a,b,rest,-,rx,-,hb,-⟩
    · rcases hphase' with hphase' | ⟨got',hless,hphase'⟩
      · exact keeps_dead (.endedPayload header got (hphase'.trans hphase) (by omega) hended) _
      · exact keeps_dead (.endedPayload header got' hphase' hless hended) _
    · refine keeps_sound (hrx ▸ hsound.acceptPayload hphase haccept) ?_
      rintro _ ⟨⟩ (hkind | hkind) <;> cases hkind
    · exact keeps_dead (.finished (Receiver.acceptPayload_error hb).choose_spec.2.2) _
  · obtain ⟨⟨piece,rx,-,haccept,hrx,hless⟩,-⟩ := hspec
    refine keeps_sound (hrx ▸ hsound.acceptPayload hphase haccept) ?_
    rintro _ ⟨⟩
    exact id
  · obtain ⟨piece,rx,-,haccept,hrx,hlen⟩ := hspec
    have hsound' : s'.rx.Sound := hrx ▸ hsound.acceptPayload hphase haccept
    have hcomplete : s'.rx.phase = .payload header (got+piece.length) := by rw [hrx]
    have hfinish := hsound'.finishFrame hcomplete (htaken s' rfl)
    dsimp only
    generalize s'.rx.finishFrame header = f at hfinish ⊢
    obtain ⟨e | _ | event,rx'⟩ := f
    · refine ⟨.inl hfinish.1,?_⟩
      rintro _ ⟨⟩ hfail
      exact .finished (hfinish.2 hfail)
    · exact keeps_sound hfinish.1 fun _ hr => by cases hr
    · refine ⟨.inl hfinish.1,?_⟩
      rintro _ ⟨⟩ hfail
      exact .finished (hfinish.2 hfail)

theorem sound_iterate (h : s.rx.Sound ∨ s.Dead) (hwhole : s.HeaderWhole ∧ s.AnswerTaken) :
    Keeps s.iterate := by
  rcases h with hsound | hdead
  · cases hphase : s.rx.phase with
    | finished =>
      obtain ⟨e,-,hdead⟩ := Dead.iterate (.finished hphase)
      exact ⟨.inr hdead,fun _ _ _ => hdead⟩
    | header head => exact keeps_header hsound hwhole.1 hphase
    | payload header got => exact keeps_payload hsound hwhole.2 hphase
  · obtain ⟨e,-,hdead⟩ := hdead.iterate
    exact ⟨.inr hdead,fun _ _ _ => hdead⟩

/-! ### All calls -/

theorem rounds_add (j k : ℕ) (s : Session S) : s.rounds (j+k) = (s.rounds j).rounds k := by
  rw [rounds,rounds,rounds,Nat.add_comm,Function.iterate_add_apply]

/-- A call that meets the condition in every round: it keeps the session sound or leaves it dead,
a failure leaves it dead, and it ends between two rounds. -/
theorem sound_pollMessage (s : Session S) (h : s.rx.Sound ∨ s.Dead)
    (hwhole : ∀ k, (s.rounds k).HeaderWhole ∧ (s.rounds k).AnswerTaken) :
    Keeps (some s.pollMessage.1,s.pollMessage.2) ∧ ∃ k, s.pollMessage.2 = s.rounds k := by
  have hround := sound_iterate h (hwhole 0)
  rcases hiterate : s.iterate with ⟨result,s'⟩
  rw [hiterate] at hround
  have hnext : s' = s.rounds 1 := by
    rw [rounds,Function.iterate_one,hiterate]
  cases result with
  | some result =>
    rw [pollMessage_some hiterate]
    exact ⟨hround,1,hnext⟩
  | none =>
    have hless := iterate_lt hiterate
    obtain ⟨hkeeps,k,hk⟩ := sound_pollMessage s' hround.1 (by
      intro k
      rw [hnext,← rounds_add]
      exact hwhole _)
    rw [pollMessage_none hiterate]
    exact ⟨hkeeps,1+k,by rw [hk,hnext,rounds_add]⟩
termination_by s.weight

theorem sound_calls (h : s.rx.Sound ∨ s.Dead)
    (hwhole : ∀ k, (s.rounds k).HeaderWhole ∧ (s.rounds k).AnswerTaken) (n : ℕ) :
    ((s.calls n).rx.Sound ∨ (s.calls n).Dead) ∧ ∃ k, s.calls n = s.rounds k := by
  induction n with
  | zero => exact ⟨h,0,rfl⟩
  | succ n ih =>
    obtain ⟨hsound,k,hk⟩ := ih
    rw [calls,Function.iterate_succ_apply',← calls]
    obtain ⟨hkeeps,j,hj⟩ := sound_pollMessage (s.calls n) hsound (by
      intro i
      rw [hk,← rounds_add]
      exact hwhole _)
    exact ⟨hkeeps.1,k+j,by rw [hj,hk,rounds_add]⟩

end Session

/-- A session is dead after a failure: when no header is rejected that was collected over several
reads, and the sink refuses no answer with an error of these kinds, every call after one that
failed returns an error. -/
theorem dead_after_failure [FrameSink S] (reader : BufReader) (cfg : SessionConfig)
    (writer : FrameWriter S)
    (hwhole : ∀ k, (Session.rounds k ⟨reader, Receiver.new cfg writer⟩).HeaderWhole ∧
      (Session.rounds k ⟨reader, Receiver.new cfg writer⟩).AnswerTaken) {i j : ℕ} (hij : i < j)
    (hfail : Failure (Session.calls i ⟨reader, Receiver.new cfg writer⟩).pollMessage.1) :
    ∃ e, (Session.calls j ⟨reader, Receiver.new cfg writer⟩).pollMessage.1 = .error e := by
  have hnew : (⟨reader,Receiver.new cfg writer⟩ : Session S).rx.Sound :=
    .closed Option.isSome_map.symm rfl rfl (.inl rfl)
  generalize (⟨reader,Receiver.new cfg writer⟩ : Session S) = s at hwhole hfail hnew ⊢
  obtain ⟨hsound,k,hk⟩ := Session.sound_calls (.inl hnew) hwhole i
  have hcall := Session.sound_pollMessage (s.calls i) hsound (by
    intro l
    rw [hk,← Session.rounds_add]
    exact hwhole _)
  have hdead : (s.calls (i+1)).Dead := by
    rw [Session.calls,Function.iterate_succ_apply']
    exact hcall.1.2 _ rfl hfail
  obtain ⟨n,rfl⟩ := Nat.exists_eq_add_of_lt hij
  have hlater := hdead.calls n
  rw [Session.calls,Session.calls,← Function.iterate_add_apply] at hlater
  have hindex : n+(i+1) = i+n+1 := by omega
  rw [hindex,← Session.calls] at hlater
  exact hlater.pollMessage.imp fun _ h => h.1

def serverReading (arrivals : List Io.Arrival) : Session VecSink where
  reader := ⟨[], 16 * 1024, readerRoom, ⟨arrivals, false⟩⟩
  rx := Receiver.new { role := .server } ⟨{}, {}, false⟩

def reservedOpcode : Session VecSink := serverReading [.bytes 0x83 [0x80, 0, 0, 0, 0]]

theorem rounds_reservedOpcode (k : ℕ) :
    reservedOpcode.rounds (k+1) = reservedOpcode.iterate.2 := by
  induction k with
  | zero => rfl
  | succ k ih =>
    exact ih

theorem dead_after_failure_reservedOpcode :
    ∃ e, (reservedOpcode.calls 1).pollMessage.1 = .error e := by
  have hfirst : (reservedOpcode.calls 0).pollMessage.1 =
      .error (Error.protocol "websocket: reserved opcode received") := by decide +kernel
  refine dead_after_failure _ _ _ ?_ Nat.zero_lt_one ?_
  · intro k
    cases k with
    | zero =>
      refine ⟨fun head hhead => .inl ?_,fun header got s' hpayload => by cases hpayload⟩
      cases hhead
      exact ⟨rfl,6,rfl,by decide⟩
    | succ k =>
      have hk := rounds_reservedOpcode k
      rw [reservedOpcode,serverReading] at hk
      rw [hk]
      refine ⟨fun head hhead => .inl ?_,fun header got s' hpayload => by cases hpayload⟩
      cases hhead
      exact ⟨rfl,6,rfl,by decide⟩
  · exact hfirst.symm ▸ Or.inl rfl

/-- A frame of six octets whose length takes the long form, its first octet in a read of its
own. -/
def longForm : Session VecSink := serverReading
  [.bytes 0x82 [], .bytes 0xfe [0, 6, 1, 2, 3, 4], .bytes 0x82 [0x80, 0, 0, 0, 0]]

/-- The frame is rejected, and its payload is then read as a frame. -/
theorem payload_of_rejected_frame_read :
    (longForm.calls 0).pollMessage.1 =
        .error (Error.protocol "websocket: non-minimal 16-bit payload length") ∧
      (longForm.calls 1).pollMessage.1 = .ok (some (.binary [])) := by
  decide +kernel

/-- A Ping and a Binary frame in one read, with a send queue that has no room for a Pong frame. -/
def fullQueue : Session OutQueue where
  reader := ⟨[], 16 * 1024, readerRoom,
    ⟨[.bytes 0x89 [0x80, 0, 0, 0, 0, 0x82, 0x80, 0, 0, 0, 0]], false⟩⟩
  rx := Receiver.new { role := .server } ⟨{ limit := 1 }, {}, false⟩

/-- The overflow of the queue is returned, and the next frame is then read. -/
theorem frame_read_after_overflow :
    (fullQueue.calls 0).pollMessage.1 =
        .error (Error.overflow "websocket: send queue overflow") ∧
      (fullQueue.calls 1).pollMessage.1 = .ok (some (.binary [])) := by
  decide +kernel

end Courierust.Ws
