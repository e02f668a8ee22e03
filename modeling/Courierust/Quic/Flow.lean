import Courierust.Lib.Run
import Courierust.Quic.Calls

/-!
# Flow-control accounting

The send counters advance before a packet is built and are driven by end offsets, so the
accounting has to survive deferred sends, repeated ranges and retransmissions. An endpoint
sets its parameters, and may be sent a Retry, before its handshake is complete; stream data
moves afterwards.
-/

namespace Courierust.Quic

open Transport

/-- The counters add up and stay within the limits, and no STREAM frame on the wire ends
    beyond what was counted. -/
structure FlowControlled (t : Transport) : Prop where
  sentData : t.sentData = OrderedMap.total t.sentStreamData
  sentMax : t.sentData ≤ t.peerMaxData
  sentLimit : ∀ id sent : ℕ, t.sentStreamData[id]? = some sent → sent ≤ t.peerStreamSendLimit id
  frames : ∀ h ∈ t.hist.handed, ∀ id offset data length fin,
    .stream id offset data length fin ∈ h.frames → offset.getD 0 + data.length ≤ t.counted id
  receivedData : t.receivedData = OrderedMap.total t.receivedStreamData
  receivedMax : t.receivedData ≤ t.localMaxData
  receivedLimit : ∀ id received : ℕ, t.receivedStreamData[id]? = some received →
    received ≤ t.localStreamLimit id

/-! ### The counters of one direction -/

/-- Counters of stream data: a total below the connection's limit, and for each stream the
    end of what was counted, below the stream's limit. -/
structure Counted (data : ℕ) (streams : Std.ExtTreeMap ℕ ℕ) (cap : ℕ) (limit : ℕ → ℕ) : Prop where
  total : data = OrderedMap.total streams
  data_le : data ≤ cap
  cap_le : cap ≤ Varint.MAX
  stream_le : ∀ id count : ℕ, streams[id]? = some count → count ≤ limit id

namespace Counted

variable {data cap : ℕ} {streams : Std.ExtTreeMap ℕ ℕ} {limit : ℕ → ℕ}

theorem advance (h : Counted data streams cap limit) {id stop : ℕ}
    (hstream : stop ≤ limit id) (hdata : satAdd data (stop-(streams[id]?).getD 0) ≤ cap) :
    Counted (satAdd data (stop-(streams[id]?).getD 0))
      (streams.insert id (max ((streams[id]?).getD 0) stop)) cap limit := by
  have hsum := OrderedMap.total_insert streams id (max ((streams[id]?).getD 0) stop)
  have hexact : satAdd data (stop-(streams[id]?).getD 0) =
      data+(stop-(streams[id]?).getD 0) := by
    have := h.cap_le
    unfold satAdd Varint.MAX u64Max at *
    omega
  refine ⟨?_,hdata,h.cap_le,fun x count hcount => ?_⟩
  · have htotal := h.total
    rcases Nat.le_total stop ((streams[id]?).getD 0) with hle | hle
    · omega
    · omega
  · rw [OrderedMap.get_insert] at hcount
    split_ifs at hcount with hx
    · rw [← Option.some.inj hcount,hx]
      refine Nat.max_le.2 ⟨?_,hstream⟩
      cases hold : streams[id]? with
      | none => exact Nat.zero_le _
      | some old => exact h.stream_le id old hold
    · exact h.stream_le x count hcount

theorem raise (h : Counted data streams cap limit) {cap' : ℕ} {limit' : ℕ → ℕ}
    (hcap : cap ≤ cap') (hcap' : cap' ≤ Varint.MAX) (hlimit : ∀ id, limit id ≤ limit' id) :
    Counted data streams cap' limit' :=
  ⟨h.total,h.data_le.trans hcap,hcap',fun id count hcount =>
    (h.stream_le id count hcount).trans (hlimit id)⟩

theorem zero (hcap : cap ≤ Varint.MAX) : Counted 0 ∅ cap limit :=
  ⟨by decide,Nat.zero_le _,hcap,by simp⟩

theorem stream_le_max (h : Counted data streams cap limit) {id count : ℕ}
    (hcount : streams[id]? = some count) : count ≤ Varint.MAX := by
  have hle := OrderedMap.le_total streams id
  rw [hcount,Option.getD_some,← h.total] at hle
  exact hle.trans (h.data_le.trans h.cap_le)

end Counted

/-! ### The counters of a transport -/

structure Accounts (t : Transport) : Prop where
  sent : Counted t.sentData t.sentStreamData t.peerMaxData t.peerStreamSendLimit
  received : Counted t.receivedData t.receivedStreamData t.localMaxData t.localStreamLimit

namespace Accounts

variable {L : License} {t t' : Transport}

section

variable (h : Accounts t)
include h

theorem acceptRange {id offset length : ℕ}
    (haccept : t.acceptRange id offset length = .ok t') : Accounts t' := by
  simp only [Transport.acceptRange,checkedAdd] at haccept
  split_ifs at haccept
  dsimp only at haccept
  split_ifs at haccept with hstream hdata
  rw [← Except.ok.inj haccept]
  exact ⟨h.sent,h.received.advance (not_lt.1 hstream) (not_lt.1 hdata)⟩

theorem peerStreamLimit (id limit : ℕ) :
    Accounts { t with
      peerStreamLimits := t.peerStreamLimits.insert id (max (t.peerStreamSendLimit id) limit) } := by
  refine ⟨h.sent.raise le_rfl h.sent.cap_le fun x => ?_,h.received⟩
  rw [peerStreamSendLimit,peerStreamSendLimit]
  rw [OrderedMap.get_insert]
  split_ifs with hx
  · rw [hx,Option.getD_some]
    exact le_max_left _ _
  · exact le_rfl

theorem localStreamLimit {id limit received : ℕ}
    (hreceived : t.receivedStreamData[id]? = some received)
    (hle : min (satAdd received (t.localStreamDefault id)) Varint.MAX ≤ limit) :
    Accounts { t with localStreamLimits := t.localStreamLimits.insert id limit } := by
  refine ⟨h.sent,h.received.total,h.received.data_le,h.received.cap_le,fun x count hcount => ?_⟩
  rw [Transport.localStreamLimit]
  rw [OrderedMap.get_insert]
  split_ifs with hx
  · have hcount : t.receivedStreamData[x]? = some count := hcount
    rw [hx,hreceived] at hcount
    cases hcount
    have hmax := h.received.stream_le_max hreceived
    refine (le_min ?_ hmax).trans hle
    unfold satAdd
    unfold Varint.MAX at hmax
    unfold u64Max
    omega
  · exact h.received.stream_le x count hcount

theorem change (hchange : Change L t t') : Accounts t' := by
  cases hchange with
  | send env level frames padInitial retransmits hframes =>
    obtain ⟨spaces,packets,handed,heq⟩ :=
      t.onWire_sendFramesInner env level frames padInitial retransmits
    rw [heq]
    exact ⟨h.sent,h.received⟩
  | charge _ id offset length hcharge _ =>
    obtain ⟨hstream,hdata,rfl⟩ := charge_eq hcharge
    exact ⟨h.sent.advance hstream hdata,h.received⟩
  | accept _ id offset length haccept _ => exact h.acceptRange haccept
  | peerMaxData limit hlimit =>
    exact ⟨h.sent.raise (le_max_left _ _) (max_le h.sent.cap_le hlimit) fun _ => le_rfl,h.received⟩
  | peerStreamLimit id limit => exact h.peerStreamLimit id limit
  | localMaxData limit hle hmax =>
    exact ⟨h.sent,h.received.raise hle hmax fun _ => le_rfl⟩
  | localStreamLimit id limit received hreceived hle => exact h.localStreamLimit hreceived hle
  | _ => exact ⟨h.sent,h.received⟩

theorem changes (hchanges : Changes L t t') : Accounts t' := by
  induction hchanges with
  | refl => exact h
  | tail _ hchange ih => exact ih.change hchange

end

end Accounts

/-! ### Licences -/

def License.counted : License where
  allows := fun c f => ∀ id offset data length fin, f = .stream id offset data length fin →
    offset.getD 0 + data.length ≤ c id
  free := fun _ => True
  charges := fun _ => True
  receives := True
  records := True
  charges_of_free := fun _ => trivial
  mono := fun hle h id offset data length fin hf => (h id offset data length fin hf).trans (hle id)
  control := fun c f hf id offset data length fin heq => by
    rw [heq] at hf
    cases hf
  chunk := fun {c id offset bytes fin} _ hle id' offset' data length' fin' heq => by
    obtain ⟨rfl, rfl, rfl, -, -⟩ := Frame.stream.inj heq
    refine le_trans (Nat.add_le_add_right ?_ _) hle
    split_ifs <;> simp

def License.noStreams : License where
  allows := fun _ f => f.isStream = false
  free := fun _ => False
  charges := fun _ => False
  receives := False
  records := True
  charges_of_free := fun h => h
  mono := fun _ h => h
  control := fun _ _ h => h
  chunk := fun h _ => h.elim

theorem License.Held.counted_of_noStreams {t : Transport} (h : License.noStreams.Held t) :
    License.counted.Held t where
  sent := fun level pn packet hpacket f hf =>
    License.counted.control _ (h.sent level pn packet hpacket f hf)
  handed := fun entry hentry hwatched f hf =>
    License.counted.control _ (h.handed entry hentry hwatched f hf)
  queued := fun _ _ => trivial

/-! ### An endpoint before and after its handshake -/

structure Endpoint where
  transport : Transport
  established : Bool

def Transport.Op.isSetup : Transport.Op → Bool
  | .setPeerTransport _ | .setLocalTransport _ | .retry _ _ => true
  | _ => false

def Transport.Op.isTransfer : Transport.Op → Bool
  | .acceptStreamData .. | .sendStream .. | .sendStreamAppend .. | .queueStreamWire ..
  | .sendRequestChunks .. => true
  | _ => false

/-- What a connection does: a call on its transport, or completing the handshake. -/
inductive Endpoint.Op where
  | call (op : Transport.Op)
  | complete

/-- Calls that set the endpoint up are made before the handshake is complete, and calls that
    move stream data after it. -/
def Endpoint.step (e : Endpoint) : Endpoint.Op → Endpoint
  | .complete => { e with established := true }
  | .call op =>
    if if e.established then op.isSetup else op.isTransfer then e
    else { e with transport := e.transport.step op }

structure Uncounted (t : Transport) : Prop where
  sentData : t.sentData = 0
  sentStreamData : t.sentStreamData = ∅
  receivedData : t.receivedData = 0
  receivedStreamData : t.receivedStreamData = ∅

namespace Uncounted

variable {t t' : Transport}

theorem change (h : Uncounted t) (hchange : Change License.noStreams t t') : Uncounted t' := by
  cases hchange with
  | send env level frames padInitial retransmits hframes =>
    obtain ⟨spaces,packets,handed,heq⟩ :=
      t.onWire_sendFramesInner env level frames padInitial retransmits
    rw [heq]
    exact ⟨h.sentData,h.sentStreamData,h.receivedData,h.receivedStreamData⟩
  | charge _ _ _ _ _ hnone | accept _ _ _ _ _ hnone => exact hnone.elim
  | _ => exact ⟨h.sentData,h.sentStreamData,h.receivedData,h.receivedStreamData⟩

theorem changes (h : Uncounted t) (hchanges : Changes License.noStreams t t') : Uncounted t' := by
  induction hchanges with
  | refl => exact h
  | tail _ hchange ih => exact ih.change hchange

theorem rekeyed (h : Uncounted t) (hr : Rekeyed t t') : Uncounted t' :=
  ⟨hr.sentData.trans h.sentData,hr.sentStreamData.trans h.sentStreamData,
    hr.receivedData.trans h.receivedData,hr.receivedStreamData.trans h.receivedStreamData⟩

theorem accounts (h : Uncounted t) (hpeer : t.peerMaxData ≤ Varint.MAX)
    (hlocal : t.localMaxData ≤ Varint.MAX) : Accounts t := by
  constructor
  · rw [h.sentData,h.sentStreamData]
    exact .zero hpeer
  · rw [h.receivedData,h.receivedStreamData]
    exact .zero hlocal

theorem onRetry (h : Uncounted t) (hheld : License.noStreams.Held t) (dcid token : List UInt8) :
    Uncounted (t.onRetry dcid token) ∧ License.noStreams.Held (t.onRetry dcid token) ∧
      (t.onRetry dcid token).peerMaxData = t.peerMaxData ∧
      (t.onRetry dcid token).localMaxData = t.localMaxData := by
  rcases t.onRetry_cases dcid token with hsame | ⟨-,-,-,-,hrestart⟩
  · rw [hsame]
    exact ⟨h,hheld,rfl,rfl⟩
  · rw [hrestart]
    refine ⟨⟨rfl,rfl,rfl,rfl⟩,⟨fun level pn packet hpacket => ?_,hheld.handed,
      hheld.queued⟩,rfl,rfl⟩
    simp [restart] at hpacket

end Uncounted

theorem Accounts.keyUpdate {t t' : Transport} (h : Accounts t) (hu : KeyUpdate t t') : Accounts t' := by
  obtain ⟨_,_,_,_,_,_,rfl,-⟩ := hu
  exact ⟨h.sent,h.received⟩

theorem Accounts.rekey {t : Transport} (h : Accounts t) {op : Transport.Op}
    (hop : op.isSetup = false) : Accounts (t.rekey op) := by
  cases op with
  | setPeerTransport | setLocalTransport | retry => cases hop
  | receive env p => exact h.keyUpdate (t.keyUpdate_followed p)
  | maybeKeyUpdate env => exact h.keyUpdate (t.keyUpdate_maybeKeyUpdate env)
  | _ => exact ⟨h.sent,h.received⟩

/-- The accounts hold; STREAM frames end within what was counted; before the handshake is
    complete there is no stream data. -/
structure Endpoint.Invariant (e : Endpoint) : Prop where
  accounts : Accounts e.transport
  held : License.counted.Held e.transport
  setup : e.established = false → Uncounted e.transport ∧ License.noStreams.Held e.transport

namespace Endpoint.Invariant

variable {e : Endpoint}

theorem setupCall (h : e.Invariant) (hsetup : e.established = false) {op : Transport.Op}
    (hop : op.isTransfer = false) : Uncounted (e.transport.step op) ∧
      License.noStreams.Held (e.transport.step op) ∧ Accounts (e.transport.step op) := by
  obtain ⟨huncounted,hheld⟩ := h.setup hsetup
  have hrekey : Uncounted (e.transport.rekey op) ∧ License.noStreams.Held (e.transport.rekey op) ∧
      Accounts (e.transport.rekey op) := by
    by_cases hretry : ∃ dcid token, op = .retry dcid token
    · obtain ⟨dcid,token,rfl⟩ := hretry
      obtain ⟨hu,hh,hpeer,hlocal⟩ := huncounted.onRetry hheld dcid token
      refine ⟨hu,hh,hu.accounts ?_ ?_⟩
      · exact hpeer.le.trans h.accounts.sent.cap_le
      · exact hlocal.le.trans h.accounts.received.cap_le
    have hr := e.transport.rekeyed_rekey fun dcid token heq => hretry ⟨dcid,token,heq⟩
    have hu := huncounted.rekeyed hr
    refine ⟨hu,hheld.rekeyed hr,?_⟩
    cases op with
    | setPeerTransport parameters =>
      exact hu.accounts parameters.initialMaxData.2 h.accounts.received.cap_le
    | setLocalTransport parameters =>
      exact hu.accounts h.accounts.sent.cap_le parameters.initialMaxData.2
    | retry dcid token => exact absurd ⟨dcid,token,rfl⟩ hretry
    | _ => exact h.accounts.rekey rfl
  obtain ⟨hu,hh,ha⟩ := hrekey
  have hchanges := e.transport.changes_step op hh (by
    cases op <;> first | exact trivial | cases hop)
  exact ⟨hu.changes hchanges,hh.changes hchanges,ha.changes hchanges⟩

theorem call (h : e.Invariant) {op : Transport.Op} (hop : op.isSetup = false) :
    Accounts (e.transport.step op) ∧ License.counted.Held (e.transport.step op) := by
  have hretry : ∀ dcid token, op ≠ .retry dcid token := by
    rintro dcid token rfl
    cases hop
  have hr := e.transport.rekeyed_rekey hretry
  have hheld := h.held.rekeyed hr
  have hchanges := e.transport.changes_step op hheld (by cases op <;> exact trivial)
  exact ⟨(h.accounts.rekey hop).changes hchanges,hheld.changes hchanges⟩

theorem step (h : e.Invariant) (op : Endpoint.Op) : (e.step op).Invariant := by
  cases op with
  | complete => exact ⟨h.accounts,h.held,fun heq => by cases heq⟩
  | call op =>
    rw [Endpoint.step]
    by_cases hestablished : e.established = true
    · rw [if_pos hestablished]
      split_ifs with hop
      · exact h
      · obtain ⟨haccounts,hheld⟩ := h.call (by simpa using hop)
        exact ⟨haccounts,hheld,fun heq => absurd (hestablished.symm.trans heq) (by simp)⟩
    · rw [if_neg hestablished]
      split_ifs with hop
      · exact h
      · obtain ⟨hu,hh,ha⟩ := h.setupCall (by simpa using hestablished) (by simpa using hop)
        exact ⟨ha,hh.counted_of_noStreams,fun _ => ⟨hu,hh⟩⟩

theorem of_new (localCid remoteCid initialDcid : List UInt8) (server : Bool)
    (initialSend initialRecv : PacketKey) (window : ℕ) :
    Endpoint.Invariant ⟨Transport.new localCid remoteCid initialDcid server initialSend initialRecv
      window,false⟩ := by
  have huncounted : Uncounted (Transport.new localCid remoteCid initialDcid server initialSend
      initialRecv window) := ⟨rfl,rfl,rfl,rfl⟩
  have hheld : License.noStreams.Held (Transport.new localCid remoteCid initialDcid server
      initialSend initialRecv window) := by
    refine ⟨fun level pn packet hpacket => ?_,fun entry hentry => ?_,fun q hq => ?_⟩
    · simp [Transport.new] at hpacket
    · cases hentry
    · cases hq
  have hpeer : 16*1024*1024 ≤ Varint.MAX := by decide
  have hlocal : MAX_H3_CONNECTION_BUFFER ≤ Varint.MAX := by decide
  exact ⟨huncounted.accounts hpeer hlocal,hheld.counted_of_noStreams,fun _ => ⟨huncounted,hheld⟩⟩

theorem flowControlled (h : e.Invariant) : FlowControlled e.transport where
  sentData := h.accounts.sent.total
  sentMax := h.accounts.sent.data_le
  sentLimit := h.accounts.sent.stream_le
  frames := fun entry hentry id offset data length fin hmem =>
    h.held.handed entry hentry trivial _ hmem id offset data length fin rfl
  receivedData := h.accounts.received.total
  receivedMax := h.accounts.received.data_le
  receivedLimit := h.accounts.received.stream_le

end Endpoint.Invariant

/-- Whatever a connection does with its transport, the flow-control accounting holds. -/
theorem flow_controlled (localCid remoteCid initialDcid : List UInt8) (server : Bool)
    (initialSend initialRecv : PacketKey) (window : ℕ) (ops : List Endpoint.Op) :
    FlowControlled (Run.run Endpoint.step ⟨Transport.new localCid remoteCid initialDcid server
      initialSend initialRecv window, false⟩ ops).transport := by
  have hnew := Endpoint.Invariant.of_new localCid remoteCid initialDcid server initialSend
    initialRecv window
  have hrun : ∀ e, Run.Along Endpoint.step (fun _ _ => True) e ops :=
    fun e => Run.along_of_forall (fun _ _ => trivial) e ops
  exact (Run.invariant (fun _ op h _ => h.step op) hnew (hrun _)).flowControlled

end Courierust.Quic
