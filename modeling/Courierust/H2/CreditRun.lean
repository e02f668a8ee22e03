import Courierust.H2.Credit

/-!
# Receive credit over whole runs

DATA is charged once, and the credit for it should come back once. With automatic release
`on_data` credits each frame at once, and `close_stream` credits what the stream still holds,
which are the same octets. So the credit is right in the runs in which no step closes a
stream that still holds octets; `Conn.ReturnsOnce` says so on the state before a step.
DATA that is answered without being charged at all is `Conn.Charges`.
-/

namespace Courierust.H2

open Ledger (Balanced)

/-- Whether the octets of a DATA frame, and those its stream already held, come back once: a
    stream that is closed must hold nothing, or enough to be released just before. -/
def Stream.returnsOnce (s : Stream) (threshold : ℤ) (d : DataFrame) : Bool :=
  if !s.bodyExpected || !s.canRecv then s.recvUnreleased = 0
  else if (checkedAdd s.recvBodyLen d.octets.length).isNone ||
      d.endStream && (s.receive d.octets d.endStream d.padding).lengthMismatch then
    s.recvUnreleased + d.len = 0
  else if d.endStream && s.state = .halfClosedLocal then
    s.recvUnreleased + d.len = 0 ∨ threshold ≤ s.recvUnreleased + d.len
  else true

namespace Conn

def ReturnsOnce (c : Conn) (op : Op) : Prop :=
  (∀ id ∈ c.streams.ids, c.closes op id = true → c.held id = 0) ∧
    ∀ d ∈ c.dataOf op, ((c.streams.get d.id).all fun s => s.returnsOnce c.streamThreshold d) = true

instance (c : Conn) (op : Op) : Decidable (c.ReturnsOnce op) :=
  inferInstanceAs (Decidable (_ ∧ _))

def Charges (c : Conn) (op : Op) : Prop :=
  ∀ d ∈ c.dataOf op, 0 < d.len → ((c.streams.get d.id).any fun s =>
    s.bodyExpected && s.canRecv && (checkedAdd s.recvBodyLen d.octets.length).isSome) = true

instance (c : Conn) (op : Op) : Decidable (c.Charges op) :=
  inferInstanceAs (Decidable (∀ d ∈ c.dataOf op, _))

variable {c c' : Conn} {id padding : ℕ} {octets : List UInt8} {endStream : Bool}

variable {s : Stream} {d : DataFrame} {op : Op}

theorem ledger_receive (hs : c.streams.get id = some s) :
    (c.updateStream id (·.receive octets endStream padding)).ledger =
      { c.ledger with
        held := Function.update c.held id (c.held id+(octets.length+padding : ℕ)) } := by
  have hheld : (c.updateStream id (·.receive octets endStream padding)).held =
      Function.update c.held id (c.held id+(octets.length+padding : ℕ)) := by
    funext x
    rw [held_updateStream,Function.update_apply,held_eq hs,hs]
    split_ifs
    · cases endStream <;> rfl
    · rfl
  simp only [ledger,hheld]
  rfl

theorem ledger_charge (hs : c.streams.get id = some s) :
    ((c.updateStream id (·.receive octets endStream padding)).charge
      (octets.length+padding)).ledger = c.ledger.charge id (octets.length+padding) := by
  have h : (c.updateStream id (·.receive octets endStream padding)).ledger = _ :=
    ledger_receive hs
  simp only [ledger,Ledger.mk.injEq] at h
  obtain ⟨-,-,-,-,-,hheld⟩ := h
  simp only [ledger,charge,Ledger.charge,Ledger.mk.injEq]
  exact ⟨rfl,rfl,rfl,rfl,by push_cast; rfl,hheld⟩

theorem ledger_autoRelease (c : Conn) (id len : ℕ) (hid : id ≠ 0) :
    (c.autoRelease id len).ledger =
      if c.config.autoReleaseCredit then c.ledger.release c.streamThreshold id len
      else c.ledger := by
  unfold autoRelease
  split_ifs
  · rw [releaseData,ledger_releaseConn,ledger_releaseStream c id hid,Ledger.release]
  · rfl

theorem isClosed_autoRelease (c : Conn) (id len : ℕ) :
    ((c.autoRelease id len).streams.get id).any (·.isClosed) =
      (c.streams.get id).any (·.isClosed) := by
  unfold autoRelease
  split_ifs
  · obtain ⟨window,pending,fs,f,-,hf,heq⟩ := c.releaseData_shape id len
    rw [heq]
    change ((c.updateStream id f).streams.get id).any _ = _
    rw [updateStream,StreamMap.get_update,if_pos rfl]
    cases c.streams.get id with
    | none => rfl
    | some s =>
      rw [Option.map_some,Option.any_some,Option.any_some,hf s]
      rfl
  · rfl

theorem ledger_closeIfClosed (c : Conn) (id : ℕ) : (c.closeIfClosed id).ledger =
    if (c.streams.get id).any (·.isClosed) then c.ledger.close id else c.ledger := by
  unfold closeIfClosed
  split_ifs
  · rw [ledger_closeStream]
    rfl
  · rfl

/-- DATA that was charged is released, and its stream closed if both sides have ended. -/
theorem ledger_deliverData (c : Conn) (id : ℕ) (octets : List UInt8) (endStream : Bool) (len : ℕ)
    (hid : id ≠ 0) (hs : c.streams.get id = some s) :
    (c.deliverData id octets endStream len).ledger =
      let l := if c.config.autoReleaseCredit then c.ledger.release c.streamThreshold id len
        else c.ledger
      if endStream && s.isClosed then l.close id else l := by
  have hledger := ledger_autoRelease (c.pushEvent (.data id octets endStream)) id len hid
  have hclosed := isClosed_autoRelease (c.pushEvent (.data id octets endStream)) id len
  have hs' : (c.pushEvent (.data id octets endStream)).streams.get id = some s := hs
  rw [hs',Option.any_some] at hclosed
  unfold deliverData
  simp only
  cases endStream with
  | false => exact hledger
  | true =>
    rw [if_pos rfl,ledger_closeIfClosed,hclosed,hledger]
    rfl

/-! ### One step -/

theorem held_release (l : Ledger) (threshold : ℤ) (id n : ℕ) :
    (l.release threshold id n).held id = if threshold ≤ l.held id then 0 else l.held id := by
  have hcredit : ∀ l : Ledger, (l.credit n).held = l.held := by
    intro l
    unfold Ledger.credit
    simp only
    split_ifs <;> rfl
  rw [Ledger.release,hcredit,Ledger.letGo]
  split_ifs
  · exact Function.update_self _ _ _
  · rfl

theorem ledger_streamError (hopen : c.closed = false) (code : ErrorCode) (msg : String) :
    (c.streamError id code msg).ledger = c.ledger.close id := by
  unfold streamError
  rw [if_neg (by simp [hopen]),ledger_closeStream,ledger_pushFrame _ rfl]
  unfold reportStreamError
  split_ifs <;> rfl

theorem isClosed_receive (h : s.canRecv = true) :
    (endStream && (s.receive octets endStream padding).isClosed) =
      (endStream && s.state = .halfClosedLocal) := by
  unfold Stream.canRecv at h
  cases endStream with
  | false => rfl
  | true => cases hstate : s.state <;> simp_all [Stream.receive,Stream.endRecv,
      Stream.isClosed,StreamState.recvEnd]

theorem ledger_accepted (hid : id ≠ 0) (hs : c.streams.get id = some s) (hrecv : s.canRecv = true) :
    (((c.updateStream id (·.receive octets endStream padding)).charge
      (octets.length+padding)).deliverData id octets endStream (octets.length+padding)).ledger =
      let charged := c.ledger.charge id (octets.length+padding)
      let l := if c.config.autoReleaseCredit then
          charged.release c.streamThreshold id (octets.length+padding)
        else charged
      if endStream && s.state = .halfClosedLocal then l.close id else l := by
  rw [ledger_deliverData (s := s.receive octets endStream padding) _ _ _ _ _ hid
    (by simp [charge,updateStream,StreamMap.get_update,hs]),isClosed_receive hrecv,ledger_charge hs]
  rfl

/-- With automatic release, a DATA frame that returns its octets once keeps the balance. -/
theorem balanced_data_auto (hopen : c.closed = false) (hauto : c.config.autoReleaseCredit = true)
    (h : Balanced true c.ledger) (hid : d.id ≠ 0)
    (honce : ∀ s, c.streams.get d.id = some s → s.returnsOnce c.streamThreshold d = true)
    (hout : DataOutcome c d.id d.octets d.endStream d.padding c') : Balanced true c'.ledger := by
  have hlen : d.octets.length+d.padding = d.len := rfl
  have hheld := h.nonneg d.id
  cases hout with
  | replied => rwa [ledger_pushFrame _ rfl]
  | failed => rwa [ledger_connError]
  | @reset s hs hwhy code msg =>
    have hzero : c.ledger.held d.id = 0 := by
      have honce := honce s hs
      unfold Stream.returnsOnce at honce
      rw [if_pos (by rcases hwhy with hwhy | hwhy <;> simp [hwhy])] at honce
      exact (held_eq hs).trans (by simpa using honce)
    rwa [ledger_streamError hopen,h.close_idle hzero]
  | overrun hs =>
    rw [ledger_connError,ledger_receive hs]
    exact h.hold d.id (Int.add_nonneg hheld (Int.natCast_nonneg _))
  | @overflowed s hs hbody hrecv hover code msg =>
    have hzero : c.held d.id+d.len = 0 := by
      have honce := honce s hs
      unfold Stream.returnsOnce at honce
      rw [if_neg (by simp [hbody,hrecv]),if_pos (by simp [hover])] at honce
      rw [held_eq hs]
      simpa using honce
    rw [ledger_streamError (by exact hopen),ledger_receive hs,hlen,hzero]
    have hhold := h.hold d.id le_rfl
    exact (hhold.close_idle (Function.update_self _ _ _)).symm ▸ hhold
  | @mismatched s hs hrecv hfits hended hbad code msg =>
    have hzero : c.held d.id+d.len = 0 := by
      have honce := honce s hs
      unfold Stream.returnsOnce at honce
      rw [if_neg (by simp [hrecv.body,hrecv.recv]),
        if_pos (by rw [hended] at hbad; simp [hended,hbad])] at honce
      rw [held_eq hs]
      simpa using honce
    change c.ledger.held d.id+d.len = 0 at hzero
    rw [ledger_streamError (by exact hopen),ledger_charge hs,hlen,
      show d.len = 0 by omega,h.charge_zero,h.close_idle (by omega)]
    exact h
  | @accepted s hs hrecv hfits hgood =>
    rw [ledger_accepted hid hs hrecv.recv,hlen]
    have hcharged : Balanced true
        ((c.ledger.charge d.id d.len).release c.streamThreshold d.id d.len) :=
      h.charge_release hfits c.streamThreshold
    split_ifs with hends
    · rw [hcharged.close_idle]
      · exact hcharged
      have honce := honce s hs
      have hended : d.endStream = true := by simp_all
      unfold Stream.returnsOnce at honce
      have hcounted : (checkedAdd s.recvBodyLen d.octets.length).isNone = false := by
        simpa [Option.isSome_iff_ne_none] using hrecv.counted
      rw [if_neg (by simp [hrecv.body,hrecv.recv]),
        if_neg (by rw [hcounted,hgood hended]; simp),if_pos hends] at honce
      have hsum : c.held d.id+d.len = 0 ∨ c.streamThreshold ≤ c.held d.id+d.len := by
        rw [held_eq hs]
        simpa using honce
      rw [held_release]
      simp only [Ledger.charge,Function.update_self]
      change (if c.streamThreshold ≤ c.held d.id+d.len then 0 else c.held d.id+d.len : ℤ) = 0
      split_ifs <;> omega
    · exact hcharged

section

variable (hcharges : 0 < d.len → ((c.streams.get d.id).any fun s => s.bodyExpected && s.canRecv &&
  (checkedAdd s.recvBodyLen d.octets.length).isSome) = true)
include hcharges

theorem len_eq_zero_of_charges (hs : c.streams.get d.id = some s)
    (hbad : ¬ Receivable s d.octets) : d.len = 0 := by
  by_contra hpos
  have hany := hcharges (Nat.pos_of_ne_zero hpos)
  simp only [hs,Option.any_some,Bool.and_eq_true] at hany
  exact hbad ⟨hany.1.1,hany.1.2,hany.2⟩

variable (hopen : c.closed = false) (hid : d.id ≠ 0)
  (hout : DataOutcome c d.id d.octets d.endStream d.padding c') (hlive : c'.closed = false)
include hopen hid hout hlive

theorem balanced_data_manual (hauto : c.config.autoReleaseCredit = false)
    (h : Balanced false c.ledger) : Balanced false c'.ledger := by
  have hlen : d.octets.length+d.padding = d.len := rfl
  cases hout with
  | replied => rwa [ledger_pushFrame _ rfl]
  | failed => cases hlive
  | reset hs hwhy code msg =>
    rw [ledger_streamError hopen]
    exact h.close d.id
  | overrun => cases hlive
  | overflowed hs hbody hrecv hover code msg =>
    have hzero := len_eq_zero_of_charges hcharges hs fun hrecv => by
      have := hrecv.counted
      simp_all
    rw [ledger_streamError (by exact hopen),ledger_receive hs,hlen,hzero,Nat.cast_zero,
      add_zero,Function.update_eq_self]
    exact h.close d.id
  | mismatched hs hrecv hfits hended hbad code msg =>
    rw [ledger_streamError (by exact hopen),ledger_charge hs]
    exact (h.charge hfits).close d.id
  | accepted hs hrecv hfits hgood =>
    rw [ledger_accepted hid hs hrecv.recv]
    simp only [hauto,Bool.false_eq_true,if_false]
    split_ifs
    · exact (h.charge hfits).close d.id
    · exact h.charge hfits

theorem charged_data : c'.ledger.charged = c.ledger.charged+d.len ∧
    c'.ledger.received = c.ledger.received := by
  cases hout with
  | replied habsent code =>
    have hzero : d.len = 0 := by
      by_contra hpos
      simpa [habsent] using hcharges (Nat.pos_of_ne_zero hpos)
    rw [ledger_pushFrame _ rfl,hzero]
    simp
  | failed => cases hlive
  | reset hs hwhy code msg =>
    have hzero := len_eq_zero_of_charges hcharges hs fun hrecv => by
      simp_all [hrecv.body,hrecv.recv]
    simp [ledger_streamError hopen,Ledger.charged_close,hzero]
  | overrun => cases hlive
  | overflowed hs hbody hrecv hover code msg =>
    have hzero := len_eq_zero_of_charges hcharges hs fun hrecv => by
      have := hrecv.counted
      simp_all
    rw [ledger_streamError (by exact hopen),ledger_receive hs,hzero]
    simp [Ledger.charged_close]
  | mismatched hs hrecv hfits hended hbad code msg =>
    rw [ledger_streamError (by exact hopen),ledger_charge hs]
    exact Ledger.charged_close _ _
  | accepted hs hrecv hfits hgood =>
    have hrelease := Ledger.charged_release (c.ledger.charge d.id d.len) c.streamThreshold d.id d.len
    rw [ledger_accepted hid hs hrecv.recv]
    simp only
    split_ifs <;> (try rw [(Ledger.charged_close _ _).1,(Ledger.charged_close _ _).2]) <;>
      first | exact hrelease | exact ⟨rfl,rfl⟩

end

/-! ### Whole runs -/

theorem balanced_start (config : Config) (upgrade auto : Bool) :
    Balanced auto (start config upgrade).ledger := by
  have hheld : (start config upgrade).held = fun _ => 0 := by
    funext id
    cases hs : (start config upgrade).streams.get id with
    | none => exact held_eq_zero hs
    | some s => rw [held_eq hs,(get_start config upgrade hs).2.2]
  have hledger : (start config upgrade).ledger =
      ⟨⟨65535,MAX_FLOW_WINDOW⟩,0,0,0,0,fun _ => 0⟩ := by
    simp only [ledger,hheld]
    cases upgrade <;> rfl
  rw [hledger]
  refine ⟨rfl,?_,by decide,le_rfl,Ledger.threshold_pos,fun _ => le_rfl,?_,?_⟩
  · cases auto <;> rfl
  · simp
  · cases auto <;> simp

theorem ledger_logData (c : Conn) (d : DataFrame) :
    (c.logInbound (.data d.id d.octets d.endStream d.padding)).ledger =
      { c.ledger with received := c.ledger.received+d.len } := ledger_logInbound _ _

theorem balanced_step_auto (hids : c.ClientIds) (hauto : c.config.autoReleaseCredit = true)
    (h : Balanced true c.ledger) (hrelease : op.isRelease = false) (honce : c.ReturnsOnce op) :
    Balanced true (c.step op).ledger := by
  cases hdata : c.dataOf op with
  | none =>
    have hidle : ∀ id, c.closes op id = true ∨ c.streams.get id = none → c.ledger.held id = 0 := by
      intro id hid
      cases hs : c.streams.get id with
      | none => exact held_eq_zero hs
      | some s =>
        refine honce.1 id (StreamMap.mem_ids.2 (by simp [hs])) ?_
        simpa [hs] using hid
    rcases closedIn_step hids hrelease hdata hidle with hclosed | ⟨-,n,heq⟩
    · exact h.closedIn (fun _ _ hid => hid) hclosed
    · rw [heq]
      exact h.received n
  | some d =>
    obtain ⟨hopen,hid,hout⟩ := step_of_dataOf hdata
    have hlog := h.received (c.ledger.received+d.len)
    rw [← ledger_logData] at hlog
    refine balanced_data_auto (by exact hopen) (by exact hauto) hlog hid (fun s hs => ?_) hout
    have hs' : c.streams.get d.id = some s := hs
    change s.returnsOnce c.streamThreshold d = true
    simpa [hs'] using honce.2 d hdata

theorem balanced_step_manual (hids : c.ClientIds) (hauto : c.config.autoReleaseCredit = false)
    (h : Balanced false c.ledger) (hrelease : op.isRelease = false) (hcharges : c.Charges op)
    (hlive : (c.step op).closed = false) : Balanced false (c.step op).ledger := by
  cases hdata : c.dataOf op with
  | none =>
    rcases closedIn_step hids hrelease hdata (fun _ _ => trivial) with
      hclosed | ⟨hclosed,-⟩
    · exact h.closedIn nofun hclosed
    · rw [hclosed] at hlive
      cases hlive
  | some d =>
    obtain ⟨hopen,hid,hout⟩ := step_of_dataOf hdata
    have hlog := h.received (c.ledger.received+d.len)
    rw [← ledger_logData] at hlog
    exact balanced_data_manual (by exact hcharges d hdata) (by exact hopen) hid hout hlive
      (by exact hauto) hlog

theorem charged_step (hids : c.ClientIds) (hrelease : op.isRelease = false)
    (hcharges : c.Charges op) (hlive : (c.step op).closed = false)
    (h : c.ledger.received = c.ledger.charged) :
    (c.step op).ledger.received = (c.step op).ledger.charged := by
  cases hdata : c.dataOf op with
  | none =>
    rcases closedIn_step hids hrelease hdata (fun _ _ => trivial) with
      ⟨ids,-,heq⟩ | ⟨hclosed,-⟩
    · rw [heq]
      clear heq
      induction ids using List.reverseRecOn with
      | nil => exact h
      | append_singleton ids id ih =>
        rw [List.foldl_append]
        exact (Ledger.charged_close _ id).2.trans (ih.trans (Ledger.charged_close _ id).1.symm)
    · rw [hclosed] at hlive
      cases hlive
  | some d =>
    obtain ⟨hopen,hid,hout⟩ := step_of_dataOf hdata
    obtain ⟨hcharged,hreceived⟩ :=
      charged_data (by exact hcharges d hdata) (by exact hopen) hid hout hlive
    rw [hcharged,hreceived,ledger_logData,h]

theorem config_step (c : Conn) (op : Op) : (c.step op).config = c.config := by
  by_cases hop : ∃ priority, op = .openRequest priority
  · obtain ⟨priority,rfl⟩ := hop
    change (c.openRequest priority).2.config = c.config
    rcases c.openRequest_cases priority with heq | ⟨-,-,heq⟩
    · rw [heq]
    · rw [heq]
  · exact (grows_step fun priority heq => hop ⟨priority,heq⟩).config

end Conn

open Conn in
/-- Connection credit is never granted twice: not in a run in which every step returns the
    octets it returns for the first time. -/
theorem conn_credit_not_over_granted (config : Config) (upgrade : Bool)
    (hauto : config.autoReleaseCredit = true) (ops : List Op)
    (hops : Run.Along Conn.step (fun c op => op.isRelease = false ∧ c.ReturnsOnce op)
      (start config upgrade) ops) :
    let c := Run.run Conn.step (start config upgrade) ops
    granted c.hist.queued + c.connPendingRelease ≤ c.hist.charged ∧
      c.connRecvWindow.size ≤
        65535 - c.hist.charged + granted c.hist.queued + c.connPendingRelease := by
  intro c
  have hinv : c.ClientIds ∧ c.config.autoReleaseCredit = true ∧ Balanced true c.ledger := by
    refine Run.invariant (I := fun c : Conn => c.ClientIds ∧ c.config.autoReleaseCredit = true ∧
      Balanced true c.ledger) ?_ ⟨clientIds_start _ _,?_,balanced_start _ _ _⟩ hops
    · rintro c op ⟨hids,hauto,h⟩ ⟨hrelease,honce⟩
      exact ⟨hids.step op,by rw [config_step,hauto],
        balanced_step_auto hids hauto h hrelease honce⟩
    · cases upgrade <;> exact hauto
  obtain ⟨-,-,h⟩ := hinv
  have hsize : c.connRecvWindow.size = 65535-c.hist.charged+granted c.hist.queued+0 := h.size
  have howed : (c.hist.charged : ℤ) = granted c.hist.queued+c.connPendingRelease+0 := h.owed
  have hdue : 0 ≤ c.connPendingRelease := h.due
  exact ⟨by omega,by omega⟩

def oneOctet (endStream : Bool) : List Op :=
  [.openRequest {}, .sendHeaders 1 [] endStream, .receive ⟨1, 4, 1, [0x88]⟩,
    .receive ⟨0, if endStream then 1 else 0, 1, [0]⟩]

/-- A second stream is closed while the octet of the first is held. -/
def closedBeside : List Op :=
  oneOctet false ++ [.openRequest {}, .sendHeaders 3 [] true, .receive ⟨1, 5, 3, [0x88]⟩]

theorem conn_credit_not_over_granted_beside :
    let c := Run.run Conn.step (Conn.start {} false) closedBeside
    granted c.hist.queued + c.connPendingRelease ≤ c.hist.charged ∧
      c.connRecvWindow.size ≤
        65535 - c.hist.charged + granted c.hist.queued + c.connPendingRelease :=
  conn_credit_not_over_granted {} false rfl closedBeside (by decide)

/-- The last frame of a response is credited by `release_data` and again by `close_stream`. -/
theorem conn_credit_granted_twice :
    ¬ ∀ ops : List Op, ops.all (fun op => !op.isRelease) = true →
      let c := Run.run Conn.step (Conn.start {} false) ops
      granted c.hist.queued + c.connPendingRelease ≤ c.hist.charged ∧
        c.connRecvWindow.size ≤
          65535 - c.hist.charged + granted c.hist.queued + c.connPendingRelease := by
  intro h
  exact absurd (h (oneOctet true) (by decide)).1 (by decide)

open Conn in
/-- No connection credit leaks while the connection lives: every octet that arrived was
    charged, and once all streams are gone it was granted or is pending. -/
theorem conn_credit_not_leaked (config : Config) (upgrade : Bool) (ops : List Op)
    (hops : Run.Along Conn.step (fun c op => op.isRelease = false ∧ c.Charges op ∧
      (c.config.autoReleaseCredit = true → c.ReturnsOnce op)) (start config upgrade) ops) :
    let c := Run.run Conn.step (start config upgrade) ops
    let received := (c.hist.inbound.map Frame.flowControlled).sum
    c.closed = false → c.hist.charged = received ∧
      ((∀ id, c.streams.get id = none) →
        (65535 : ℤ) - received + granted c.hist.queued + c.connPendingRelease = 65535) := by
  intro c received hlive
  have hinv : c.ClientIds ∧ (c.closed = false →
      Balanced c.config.autoReleaseCredit c.ledger ∧ c.ledger.received = c.ledger.charged) := by
    refine Run.invariant (I := fun c : Conn => c.ClientIds ∧ (c.closed = false →
      Balanced c.config.autoReleaseCredit c.ledger ∧ c.ledger.received = c.ledger.charged))
      ?_ ⟨clientIds_start _ _,fun _ => ⟨balanced_start _ _ _,?_⟩⟩ hops
    · rintro c op ⟨hids,h⟩ ⟨hrelease,hcharges,honce⟩
      refine ⟨hids.step op,fun hlive => ?_⟩
      obtain ⟨hbalanced,hreceived⟩ := h (live_step hlive)
      refine ⟨?_,charged_step hids hrelease hcharges hlive hreceived⟩
      rw [config_step]
      cases hauto : c.config.autoReleaseCredit with
      | true =>
        rw [hauto] at hbalanced
        exact balanced_step_auto hids hauto hbalanced hrelease (honce hauto)
      | false =>
        rw [hauto] at hbalanced
        exact balanced_step_manual hids hauto hbalanced hrelease hcharges hlive
    · cases upgrade <;> rfl
  obtain ⟨hbalanced,hreceived⟩ := hinv.2 hlive
  have hcharged : (received : ℤ) = c.hist.charged := hreceived
  refine ⟨by omega,fun hnone => ?_⟩
  have howed : (c.hist.charged : ℤ) = granted c.hist.queued+c.connPendingRelease +
      if c.config.autoReleaseCredit then 0 else ∑ᶠ id, c.held id := hbalanced.owed
  have hheld : ∑ᶠ id, c.held id = 0 := by
    rw [funext fun id => held_eq_zero (hnone id)]
    simp
  omega

theorem conn_credit_not_leaked_one :
    let c := Run.run Conn.step (Conn.start { autoReleaseCredit := false } false) (oneOctet true)
    let received := (c.hist.inbound.map Frame.flowControlled).sum
    c.closed = false → c.hist.charged = received ∧
      ((∀ id, c.streams.get id = none) →
        (65535 : ℤ) - received + granted c.hist.queued + c.connPendingRelease = 65535) :=
  conn_credit_not_leaked { autoReleaseCredit := false } false (oneOctet true) (by decide)

/-- DATA for a stream we just reset is answered, but never charged. -/
theorem conn_credit_leaks_on_closed_stream :
    ¬ ∀ (config : Config) (ops : List Op), ops.all (fun op => !op.isRelease) = true →
      let c := Run.run Conn.step (Conn.start config false) ops
      let received := (c.hist.inbound.map Frame.flowControlled).sum
      c.closed = false → c.hist.charged = received ∧
        ((∀ id, c.streams.get id = none) →
          (65535 : ℤ) - received + granted c.hist.queued + c.connPendingRelease = 65535) := by
  intro h
  have hcharged := (h {} [.openRequest {}, .sendHeaders 1 [] true,.sendRst 1 .cancel,
    .receive ⟨0,0,1,[0]⟩] (by decide) (by decide)).1
  exact absurd hcharged (by decide)

end Courierust.H2
