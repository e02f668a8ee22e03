import Courierust.Lib.Run
import Courierust.Lib.Slice
import Courierust.Quic.Calls

/-!
# Streams written by appending

The control stream and the two QPACK streams are opened with `send_stream` and then written
with `send_stream_append`, which takes its offset from the counter of sent stream data. That
counter advances before the packet is built, so a call that the congestion window or the
socket refuses leaves it advanced, and the same octets go out behind a gap when the call is
made again.
-/

namespace Courierust.Quic

open List
open Transport Slice

/-- One stream of a connection: the octets that wait for it, and those of the calls that
    returned `Ok`. After an error other than `WouldBlock` the connection is torn down. -/
structure Writer where
  transport : Transport
  pending : List UInt8
  accepted : List UInt8
  failed : Bool

def Transport.Op.elsewhere (id : ℕ) : Transport.Op → Bool
  | .retry .. => false
  | .sendStream _ x _ | .sendStreamAppend _ x _ | .queueStreamWire x _
  | .sendRequestChunks _ x _ _ => x ≠ id
  | _ => true

namespace Writer

/-- What happens to the stream: new octets, the two calls, and everything else the
    connection does. -/
inductive Op where
  | produce (bytes : List UInt8)
  | start (env : Env)
  | flush (env : Env)
  | other (op : Transport.Op)

def settle (w : Writer) (r : Except Error Unit × Transport) : Writer :=
  match r with
  | (.ok (), t) =>
    { w with transport := t, pending := [], accepted := w.accepted ++ w.pending }
  | (.error e, t) => { w with transport := t, failed := e.kind ≠ .wouldBlock }

/-- One step of the stream `id`, as `ensure_control_sent` and `flush_qpack` take them. -/
def step (id : ℕ) (w : Writer) (op : Op) : Writer :=
  if w.failed then w
  else
    match op with
    | .produce bytes => { w with pending := w.pending ++ bytes }
    | .start env => w.settle (w.transport.sendStream env .application id w.pending false)
    | .flush env => w.settle (w.transport.sendStreamAppend env .application id w.pending)
    | .other op =>
      if op.elsewhere id then { w with transport := w.transport.step op } else w

end Writer

/-- The frame carries the octet at position `i` of the stream. -/
def Frame.carries (id i : ℕ) : Frame → Bool
  | .stream x offset data _ _ => x = id && offset.getD 0 ≤ i && i < offset.getD 0 + data.length
  | _ => false

/-- The STREAM frames on the wire are pieces of the accepted octets, and every accepted octet
    is in one of them. -/
structure Writer.NoHoles (id : ℕ) (w : Writer) : Prop where
  pieces : ∀ h ∈ w.transport.hist.handed, h.result = .sent → ∀ offset data length fin,
    .stream id offset data length fin ∈ h.frames → At w.accepted (offset.getD 0) data
  covered : ∀ i < w.accepted.length, ∃ h ∈ w.transport.hist.handed, h.result = .sent ∧
    h.frames.any (Frame.carries id i)

structure Transport.Unwritten (id : ℕ) (t : Transport) : Prop where
  counted : t.counted id = 0
  handed : ∀ h ∈ t.hist.handed, ∀ offset data length fin,
    Frame.stream id offset data length fin ∉ h.frames
  sent : ∀ (level : Level) (pn : ℕ) (packet : SentPacket),
    (t.spaces level).sent[pn]? = some packet → ∀ offset data length fin,
      Frame.stream id offset data length fin ∉ packet.frames
  queued : ∀ q ∈ t.queuedStreams, q.id ≠ id

def Transport.dueFrames (t : Transport) (env : Env) (frames : List Frame) : List Frame :=
  match t.dueAck env .application frames, (t.spaces .application).largestReceived with
  | true, some largest => ackFrame (t.spaces .application).received largest :: frames
  | _, _ => frames

def Transport.Room (t : Transport) (env : Env) (frames : List Frame) : Prop :=
  ¬ t.congested (t.dueFrames env frames) (t.wireLen .application
      (t.plaintext .application (t.dueFrames env frames) false).length) ∧
    env.socket .application (t.spaces .application).nextSend = .sent

/-- Flow control admits the octets from `offset` up to `stop`. -/
def Transport.Admits (t : Transport) (id stop : ℕ) : Prop :=
  stop ≤ t.peerStreamSendLimit id ∧ satAdd t.sentData (stop - t.counted id) ≤ t.peerMaxData

/-- The calls on the stream: `send_stream` until it is taken, which may be refused before, then
    `send_stream_append`, which finds room where flow control admits it. -/
def Writer.Clear (id : ℕ) (w : Writer) : Writer.Op → Prop
  | .start _ => w.accepted = []
  | .flush env => (w.accepted ≠ [] ∨ w.transport.counted id = 0) ∧
    (w.transport.Admits id (w.transport.counted id + w.pending.length) →
      w.transport.Room env [streamFrame id (w.transport.counted id) w.pending false])
  | _ => True

/-! ### A send that finds room -/

namespace Transport

variable (t : Transport) (env : Env)

variable (level : Level) (frames : List Frame)

theorem piggyback_fst : (t.piggyback env .application frames).1 = t.dueFrames env frames := by
  rw [piggyback,dueFrames]
  cases t.dueAck env .application frames with
  | false => rfl
  | true => cases (t.spaces .application).largestReceived <;> rfl

theorem sendFrames_of_room {frames : List Frame} (hroom : t.Room env frames) :
    (t.sendFrames env .application frames false).1 = .ok () ∨
      ∃ e, (t.sendFrames env .application frames false).1 = .error e ∧ e.kind ≠ .wouldBlock := by
  obtain ⟨hwindow,hsocket⟩ := hroom
  obtain ⟨pending,deadline,frames',hpiggyback,-⟩ := t.piggyback_spec env .application frames
  rw [← piggyback_fst,hpiggyback] at hwindow
  simp only [sendFrames,sendFramesInner,hpiggyback,nextSend_withFlags,sendKey]
  cases (t.withFlags .application pending deadline).applicationSend with
  | none => exact .inr ⟨_,rfl,by decide⟩
  | some key =>
    split_ifs with hlast
    · exact .inr ⟨_,rfl,by decide⟩
    rw [takeNumber_withFlags]
    -- The number taken does not change what is in flight.
    have hroom : ¬ (t.ready .application pending deadline).congested frames'
        ((t.ready .application pending deadline).wireLen .application
          ((t.ready .application pending deadline).plaintext .application frames' false).length) := by
      exact hwindow
    change ((t.ready .application pending deadline).sendNumbered _ _ _ _ _ _ _ _).1 = _ ∨
      ∃ e, ((t.ready .application pending deadline).sendNumbered _ _ _ _ _ _ _ _).1 = _ ∧ _
    generalize t.ready .application pending deadline = u at hroom ⊢
    simp only [sendNumbered]
    by_cases hfits : ¬ u.headerFits .application
    · rw [if_pos hfits]
      exact .inr ⟨_,rfl,by decide⟩
    rw [if_neg hfits]
    by_cases hlong : u.maxPacketSize <
        u.wireLen .application (u.plaintext .application frames' false).length
    · rw [if_pos hlong]
      exact .inr ⟨_,rfl,by decide⟩
    rw [if_neg hlong,if_neg hroom]
    simp only [transmit,hsocket]
    exact .inl trivial

theorem handed_of_ok (padInitial : Bool)
    (hok : (t.sendFrames env level frames padInitial).1 = .ok ()) :
    ∃ h ∈ (t.sendFrames env level frames padInitial).2.hist.handed,
      h.result = .sent ∧ ∀ f ∈ frames, f ∈ h.frames := by
  have h := Sends.of_sendFramesInner t env level frames padInitial 0
  rw [sendFrames] at hok ⊢
  generalize t.sendFramesInner env level frames padInitial 0 = r at hok h ⊢
  cases h with
  | unnumbered | refused | blocked => cases hok
  | sent pending deadline key wire frames' hkey hframes hsocket =>
    refine ⟨⟨_,frames',_⟩,mem_append_right _ (mem_singleton.2 rfl),hsocket,?_⟩
    intro f hf
    rcases hframes with rfl | ⟨received,largest,rfl⟩
    · exact hf
    · exact mem_cons_of_mem _ hf

end Transport

/-- STREAM frames of `id` that go out are pieces of `bytes`; other calls write to other streams. -/
def License.written (id : ℕ) (bytes : List UInt8) : License where
  allows := fun _ f => ∀ offset data length fin, f = .stream id offset data length fin →
    At bytes (offset.getD 0) data
  watches := (· = .sent)
  free := fun x => x ≠ id
  charges := fun x => x ≠ id
  receives := True
  records := True
  charges_of_free := fun h => h
  mono := fun _ h => h
  control := fun _ f hf offset data length fin heq => by
    rw [heq] at hf
    cases hf
  chunk := fun hne _ offset data length fin heq =>
    absurd (Frame.stream.inj heq).1 hne

theorem License.Held.grow {id : ℕ} {bytes : List UInt8} {t : Transport}
    (h : (License.written id bytes).Held t) (more : List UInt8) :
    (License.written id (bytes ++ more)).Held t where
  sent := fun level pn packet hpacket f hf offset data length fin heq =>
    (h.sent level pn packet hpacket f hf offset data length fin heq).grow more
  handed := fun entry hentry hsent f hf offset data length fin heq =>
    (h.handed entry hentry hsent f hf offset data length fin heq).grow more
  queued := h.queued

/-- A call that is refused puts nothing on the wire. -/
theorem License.Held.refused {id : ℕ} {bytes : List UInt8} {t : Transport}
    (h : (License.written id bytes).Held t) (env : Env) (level : Level) (frames : List Frame)
    (padInitial : Bool) {e : Error}
    (he : (t.sendFrames env level frames padInitial).1 = .error e) :
    (License.written id bytes).Held (t.sendFrames env level frames padInitial).2 := by
  have hsends := Sends.of_sendFramesInner t env level frames padInitial 0
  rw [sendFrames] at he ⊢
  generalize t.sendFramesInner env level frames padInitial 0 = r at he hsends ⊢
  cases hsends with
  | unnumbered e pending deadline => exact h.withFlags level pending deadline
  | refused e pending deadline => exact h.ready level pending deadline
  | blocked e pending deadline key frames' hkey hframes hrefused =>
    have hready := h.ready level pending deadline
    refine ⟨hready.sent,fun entry hentry hsent => ?_,hready.queued⟩
    rcases mem_append.1 hentry with hold | hnew
    · exact hready.handed entry hold hsent
    · rw [mem_singleton.1 hnew] at hsent
      exact absurd hsent hrefused
  | sent => cases he

theorem getD_offset (n : ℕ) : (if n = 0 then none else some n).getD 0 = n := by
  split_ifs with hzero
  · exact hzero.symm
  · rfl

theorem License.allows_written (id : ℕ) (bytes more : List UInt8) (c : ℕ → ℕ) :
    (License.written id (bytes ++ more)).allows c (streamFrame id bytes.length more false) := by
  intro offset data length fin heq
  obtain ⟨-,rfl,rfl,-,-⟩ := Frame.stream.inj heq
  rw [getD_offset]
  exact at_append bytes more

theorem carries_streamFrame {id n i : ℕ} {bytes : List UInt8} (hfrom : n ≤ i)
    (hto : i < n+bytes.length) : (streamFrame id n bytes false).carries id i = true := by
  simp [streamFrame,Frame.carries,getD_offset,hfrom,hto]

namespace Writer

variable {id : ℕ} {w : Writer}

/-- The accepted octets are on the wire, and the counter stands at their end, or octets of a
    refused `send_stream` are counted. -/
structure Tracks (id : ℕ) (w : Writer) : Prop where
  held : (License.written id w.accepted).Held w.transport
  counted : w.transport.counted id = w.accepted.length ∨
    w.accepted = [] ∧ w.transport.counted id ≤ w.pending.length
  covered : ∀ i < w.accepted.length, ∃ h ∈ w.transport.hist.handed, h.result = .sent ∧
    h.frames.any (Frame.carries id i)

theorem NoHoles.of_held (hheld : (License.written id w.accepted).Held w.transport)
    (hcovered : ∀ i < w.accepted.length, ∃ h ∈ w.transport.hist.handed, h.result = .sent ∧
      h.frames.any (Frame.carries id i)) : w.NoHoles id where
  pieces := fun entry hentry hsent offset data length fin hmem =>
    hheld.handed entry hentry hsent _ hmem offset data length fin rfl
  covered := hcovered

/-- What was handed to the socket stays covered while the record of it grows. -/
theorem Tracks.covered_of_subset (h : w.Tracks id) {handed : List Handed}
    (hsubset : w.transport.hist.handed ⊆ handed) :
    ∀ i < w.accepted.length, ∃ h ∈ handed, h.result = .sent ∧
      h.frames.any (Frame.carries id i) := by
  intro i hi
  obtain ⟨entry,hentry,hrest⟩ := h.covered i hi
  exact ⟨entry,hsubset hentry,hrest⟩

theorem Tracks.other (h : w.Tracks id) {op : Transport.Op} (hop : op.elsewhere id = true) :
    Tracks id { w with transport := w.transport.step op } := by
  have hretry : ∀ dcid token, op ≠ .retry dcid token := by
    rintro dcid token rfl
    cases hop
  have hr := w.transport.rekeyed_rekey hretry
  have hheld := h.held.rekeyed hr
  have hfree : op.Free (License.written id w.accepted) := by
    cases op with
    | sendStream | sendStreamAppend | queueStreamWire | sendRequestChunks =>
      change _ ≠ id
      simpa [Transport.Op.elsewhere] using hop
    | _ => exact trivial
  have hchanges := w.transport.changes_step op hheld hfree
  have hcounted : (w.transport.step op).counted id = w.transport.counted id := by
    rw [hchanges.counted_eq (fun hne => hne rfl),Transport.counted,hr.sentStreamData]
    rfl
  refine ⟨hheld.changes hchanges,hcounted ▸ h.counted,h.covered_of_subset ?_⟩
  rw [← hr.hist]
  exact hchanges.handed_prefix.subset

/-- Either the stream is tracked, or an error has ended the connection. -/
structure Invariant (id : ℕ) (w : Writer) : Prop where
  noHoles : w.NoHoles id
  tracks : w.failed = false → w.Tracks id

theorem Tracks.invariant (h : w.Tracks id) : w.Invariant id :=
  ⟨.of_held h.held h.covered,fun _ => h⟩

theorem Tracks.sendEmpty (h : w.Tracks id) (hpending : w.pending = []) (env : Env) :
    (w.settle (w.transport.sendFrames env .application [streamFrame id 0 [] false] false)).Tracks
      id := by
  have hframes : (License.written id w.accepted).All w.transport.counted
      [streamFrame id 0 [] false] := by
    intro f hf offset data length fin heq
    rw [mem_singleton.1 hf] at heq
    obtain ⟨-,-,rfl,-,-⟩ := Frame.stream.inj heq
    exact at_nil
  have hheld := h.held.send env .application false 0 hframes
  have hcounted := w.transport.counted_sendFramesInner env .application
    [streamFrame id 0 [] false] false 0
  obtain ⟨new,hn⟩ := exists_hands_sendFramesInner w.transport env .application
    [streamFrame id 0 [] false] false 0
  rw [sendFrames]
  generalize w.transport.sendFramesInner env .application [streamFrame id 0 [] false] false 0 = r
    at hheld hcounted hn ⊢
  have htracks : Tracks id { w with transport := r.2 } := by
    refine ⟨hheld,hcounted ▸ h.counted,h.covered_of_subset ?_⟩
    rw [hn.handed]
    exact subset_append_left _ _
  obtain ⟨result,u⟩ := r
  cases result with
  | error e => exact ⟨htracks.held,htracks.counted,htracks.covered⟩
  | ok =>
    have hcounted := htracks.counted
    simp only [hpending] at hcounted
    simp only [settle,hpending,append_nil]
    exact ⟨htracks.held,hcounted,htracks.covered⟩

/-- Counting the octets that wait changes nothing on the wire. -/
theorem Tracks.charge (h : w.Tracks id) {t : Transport}
    (hcharge : w.transport.charge id w.accepted.length w.pending.length = .ok t) :
    (License.written id w.accepted).Held t ∧ t.hist = w.transport.hist ∧
      t.counted id = w.accepted.length+w.pending.length := by
  have hle := counted_le_charge hcharge
  have hcounted := counted_charge hcharge id
  obtain ⟨-,-,rfl⟩ := charge_eq hcharge
  refine ⟨h.held.of_eq (fun _ => rfl) rfl rfl hle,rfl,hcounted.trans ?_⟩
  rw [if_pos rfl]
  refine max_eq_right ?_
  rcases h.counted with hcounted | ⟨-,hcounted⟩ <;> omega

/-- Octets that were counted go out behind those accepted before. If they are refused nothing new
    is on the wire, and the connection ends unless nothing was accepted before. -/
theorem Tracks.sendCounted (h : w.Tracks id) {t : Transport} (env : Env)
    (hcharge : w.transport.charge id w.accepted.length w.pending.length = .ok t)
    (hroom : w.accepted = [] ∨
      t.Room env [streamFrame id w.accepted.length w.pending false]) :
    Invariant id (w.settle (t.sendFrames env .application
      [streamFrame id w.accepted.length w.pending false] false)) := by
  generalize hframe : streamFrame id w.accepted.length w.pending false = frame at hroom ⊢
  obtain ⟨hheld,hhist,hcounted⟩ := h.charge hcharge
  have hframes : (License.written id (w.accepted ++ w.pending)).All t.counted [frame] := by
    intro f hf
    rw [mem_singleton.1 hf,← hframe]
    exact License.allows_written id w.accepted w.pending _
  have hsend := (hheld.grow w.pending).send env .application false 0 hframes
  have hkept := t.counted_sendFramesInner env .application [frame] false 0
  obtain ⟨new,hn⟩ := exists_hands_sendFramesInner t env .application [frame] false 0
  have hresult := hroom.imp_right fun hroom => t.sendFrames_of_room env hroom
  have herror := fun e => hheld.refused env .application [frame] false (e := e)
  have hok := t.handed_of_ok env .application [frame] false
  rw [sendFrames] at hresult hok herror ⊢
  generalize t.sendFramesInner env .application _ false 0 = r at hsend hkept hn hresult herror hok ⊢
  obtain ⟨result,u⟩ := r
  have hsubset : w.transport.hist.handed ⊆ u.hist.handed := by
    rw [hn.handed,hhist]
    exact subset_append_left _ _
  have hcovered := h.covered_of_subset hsubset
  have hall : u.counted id = w.accepted.length+w.pending.length := (congrFun hkept id).trans hcounted
  cases result with
  | error e =>
    have hquiet := herror e rfl
    rcases hresult with hempty | hresult
    · have htracks : Tracks id (w.settle (.error e,u)) :=
        ⟨hquiet,.inr ⟨hempty,by simpa [settle,hempty] using hall.le⟩,hcovered⟩
      exact htracks.invariant
    have hblocked : e.kind ≠ .wouldBlock := by
      rcases hresult with hresult | ⟨e',he,hkind⟩
      · cases hresult
      · cases he
        exact hkind
    exact ⟨.of_held hquiet hcovered,
      fun hfailed => absurd hfailed (by simpa [settle] using hblocked)⟩
  | ok =>
    have htracks : Tracks id (w.settle (.ok (),u)) := by
      refine ⟨hsend,.inl ?_,fun i hi => ?_⟩
      · simpa only [settle,length_append] using hall
      · simp only [settle,length_append] at hi ⊢
        by_cases hold : i < w.accepted.length
        · exact hcovered i hold
        obtain ⟨entry,hentry,hsent,hmem⟩ := hok rfl
        refine ⟨entry,hentry,hsent,any_eq_true.2 ⟨_,hmem _ mem_cons_self,?_⟩⟩
        rw [← hframe]
        exact carries_streamFrame (not_lt.1 hold) hi
    exact htracks.invariant

theorem Tracks.sendChunk (h : w.Tracks id) (hpending : w.pending ≠ []) (env : Env)
    (hclear : w.accepted = [] ∨ (w.transport.Admits id (w.accepted.length+w.pending.length) →
      w.transport.Room env [streamFrame id w.accepted.length w.pending false])) :
    Invariant id (w.settle (w.transport.sendStreamChunk env .application id w.accepted.length
      w.pending false)) := by
  simp only [sendStreamChunk,true_and]
  rw [if_pos hpending]
  cases hcharge : w.transport.charge id w.accepted.length w.pending.length with
  | error e =>
    have htracks : Tracks id (w.settle (.error e,w.transport)) := ⟨h.held,h.counted,h.covered⟩
    exact htracks.invariant
  | ok t =>
    obtain ⟨hstream,hdata,heq⟩ := charge_eq hcharge
    refine h.sendCounted env hcharge (hclear.imp_right fun hroom => ?_)
    rw [heq]
    exact hroom ⟨hstream,hdata⟩

theorem Invariant.step (h : w.Invariant id) {op : Op} (hclear : w.Clear id op) :
    (Writer.step id w op).Invariant id := by
  rw [Writer.step.eq_def]
  split_ifs with hfailed
  · exact h
  have htracks := h.tracks (by simpa using hfailed)
  cases op with
  | produce bytes =>
    have hnext : Tracks id { w with pending := w.pending ++ bytes } := by
      refine ⟨htracks.held,htracks.counted.imp_right fun hcounted => ⟨hcounted.1,?_⟩,htracks.covered⟩
      exact hcounted.2.trans (by simp)
    exact hnext.invariant
  | start env =>
    have hempty : w.accepted = [] := hclear
    dsimp only
    by_cases hpending : w.pending = []
    · have hnext := htracks.sendEmpty hpending env
      rw [sendStream,sendStreamChunk,hpending]
      exact hnext.invariant
    · have hnext := htracks.sendChunk hpending env (.inl hempty)
      rwa [hempty] at hnext
  | flush env =>
    dsimp only
    rw [sendStreamAppend]
    split_ifs with hpending
    · have hnext : Tracks id (w.settle (.ok (),w.transport)) := by
        have hcounted := htracks.counted
        rw [hpending] at hcounted
        simp only [settle,hpending,append_nil]
        exact ⟨htracks.held,hcounted,htracks.covered⟩
      exact hnext.invariant
    · have hcounted : (w.transport.sentStreamData[id]?).getD 0 = w.accepted.length := by
        rcases htracks.counted with hcounted | ⟨hempty,-⟩
        · exact hcounted
        · exact (hclear.1.resolve_left (not_not.2 hempty)).trans (by rw [hempty]; rfl)
      rw [hcounted]
      refine htracks.sendChunk hpending env (.inr ?_)
      rw [← hcounted]
      exact hclear.2
  | other op =>
    dsimp only
    split_ifs with hop
    · have hnext := htracks.other hop
      exact hnext.invariant
    · exact h

end Writer

/-- From a transport on which the stream was not used, in every run whose calls are clear, the
    frames on the wire reassemble to the octets accepted. -/
theorem writer_no_holes (id : ℕ) {t : Transport} (hnew : t.Unwritten id) (ops : List Writer.Op)
    (hclear : Run.Along (Writer.step id) (Writer.Clear id) ⟨t, [], [], false⟩ ops) :
    (Run.run (Writer.step id) ⟨t, [], [], false⟩ ops).NoHoles id := by
  have hstart : Writer.Tracks id ⟨t,[],[],false⟩ := by
    refine ⟨⟨fun level pn packet hpacket f hf offset data length fin heq => ?_,
      fun entry hentry _ f hf offset data length fin heq => ?_,hnew.queued⟩,.inl hnew.counted,
      fun i hi => absurd hi (Nat.not_lt_zero i)⟩
    · exact absurd (heq ▸ hf) (hnew.sent level pn packet hpacket offset data length fin)
    · exact absurd (heq ▸ hf) (hnew.handed entry hentry offset data length fin)
  exact (Run.invariant (fun _ _ h hok => h.step hok) hstart.invariant hclear).noHoles

theorem unwritten_establishedClient (id : ℕ) : establishedClient.Unwritten id := by
  refine ⟨?_,fun h hh => ?_,fun level pn packet hpacket => ?_,fun q hq => ?_⟩
  · simp [establishedClient,Transport.setApplicationKeys,Transport.new,Transport.counted]
  · cases hh
  · simp [establishedClient,Transport.setApplicationKeys,Transport.new] at hpacket
  · cases hq

/-- The QPACK encoder stream: its type, then two instructions, the second written at `now`
    with the answers of the socket given. -/
def encoderStream (socket : Level → ℕ → SendResult) : List Writer.Op :=
  [.produce [2], .start { now := 0 }, .produce [0x3f, 0xe1], .flush { now := 1, socket := socket },
    .flush { now := 2 }]

instance (t : Transport) (env : Env) (frames : List Frame) : Decidable (t.Room env frames) :=
  inferInstanceAs (Decidable (_ ∧ _))

instance (t : Transport) (id stop : ℕ) : Decidable (t.Admits id stop) :=
  inferInstanceAs (Decidable (_ ∧ _))

instance (id : ℕ) (w : Writer) (op : Writer.Op) : Decidable (w.Clear id op) := by
  cases op <;> unfold Writer.Clear <;> infer_instance

theorem writer_no_holes_encoder_stream :
    (Run.run (Writer.step 6) ⟨establishedClient, [], [], false⟩
      (encoderStream fun _ _ => .sent)).NoHoles 6 :=
  writer_no_holes 6 (unwritten_establishedClient 6) _ (by decide)

/-- The socket refuses the second packet once: the counter has advanced, the same octets go
    out two positions too far, and nothing on the wire carries position 1. -/
theorem refused_append_leaves_hole :
    ¬ (Run.run (Writer.step 6) ⟨establishedClient, [], [], false⟩
      (encoderStream fun _ _ => .wouldBlock)).NoHoles 6 := by
  intro h
  have hlength : 1 < (Run.run (Writer.step 6) ⟨establishedClient,[],[],false⟩
      (encoderStream fun _ _ => .wouldBlock)).accepted.length := by decide
  exact absurd (h.covered 1 hlength) (by decide)

end Courierust.Quic
