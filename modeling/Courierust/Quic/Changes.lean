import Courierust.Quic.Transport

/-!
# What a call does to the transport

Every call of a connection on its transport is a chain of a few kinds of change, after the
keys were updated. An invariant of the transport is proved once for each kind of change,
whatever the call.

Which frames may leave the transport depends on what a proof wants to know about them, so
the changes carry a `License`: a property of frames that grows with the counters of sent
stream data and that every frame without stream data has.
-/

namespace Courierust.Quic

open List
open Std (ExtTreeMap ExtTreeSet)

namespace Transport

variable (t : Transport) (env : Env)

/-! ### Updates of one space -/

variable {u : Transport} (level : Level) (pending : Bool) (frames : List Frame)

@[simp] theorem spaces_modifySpace (level' : Level) (f : PacketSpace → PacketSpace) :
    (t.modifySpace level f).spaces level' =
      if level' = level then f (t.spaces level) else t.spaces level' := by
  simp only [modifySpace,Function.update_apply]

/-- What is left alone in one space stays the same in all of them. -/
theorem modifySpace_frame {α : Type} (g : PacketSpace → α) {level : Level}
    {f : PacketSpace → PacketSpace} (h : g (f (t.spaces level)) = g (t.spaces level))
    (level' : Level) : g ((t.modifySpace level f).spaces level') = g (t.spaces level') := by
  rw [spaces_modifySpace]
  split_ifs with hlevel
  · rw [h,hlevel]
  · rfl

theorem modifySpace_modifySpace (f g : PacketSpace → PacketSpace) :
    (t.modifySpace level f).modifySpace level g = t.modifySpace level (g ∘ f) := by
  simp only [modifySpace,Function.update_idem,Function.update_self,Function.comp]

theorem modifySpace_congr {level : Level} {f g : PacketSpace → PacketSpace}
    (h : f (t.spaces level) = g (t.spaces level)) :
    t.modifySpace level f = t.modifySpace level g := by
  simp only [modifySpace,h]

theorem modifySpace_of_eq {level : Level} {f : PacketSpace → PacketSpace}
    (h : f (t.spaces level) = t.spaces level) : t.modifySpace level f = t := by
  simp only [modifySpace,h,Function.update_eq_self]

def withFlags (level : Level) (pending : Bool) (deadline : Option ℕ) : Transport :=
  t.modifySpace level fun s => { s with ackPending := pending, ackDeadline := deadline }

theorem withFlags_self :
    t.withFlags level (t.spaces level).ackPending (t.spaces level).ackDeadline = t :=
  t.modifySpace_of_eq rfl

theorem takeNumber_withFlags (deadline : Option ℕ) :
    (t.withFlags level pending deadline).takeNumber level =
      (t.takeNumber level).withFlags level pending deadline := by
  simp only [withFlags,takeNumber,modifySpace_modifySpace]
  rfl

/-! ### Sending -/

def WithAck (frames frames' : List Frame) : Prop :=
  frames' = frames ∨ ∃ received largest, frames' = ackFrame received largest :: frames

/-- The state in which a packet is handed over: its number is used up and a due ACK is
    no longer pending. -/
def ready (level : Level) (pending : Bool) (deadline : Option ℕ) : Transport :=
  (t.takeNumber level).withFlags level pending deadline

inductive Sends (env : Env) (t : Transport) (level : Level) (frames : List Frame)
    (padInitial : Bool) (retransmits : ℕ) : Except Error Unit × Transport → Prop
  /-- there is no key, or no number is left -/
  | unnumbered (e : Error) (pending : Bool) (deadline : Option ℕ) :
    Sends env t level frames padInitial retransmits (.error e, t.withFlags level pending deadline)
  /-- the packet is too long, or the congestion window is full -/
  | refused (e : Error) (pending : Bool) (deadline : Option ℕ) :
    Sends env t level frames padInitial retransmits (.error e, t.ready level pending deadline)
  /-- the socket does not take the packet -/
  | blocked (e : Error) (pending : Bool) (deadline : Option ℕ) (key : PacketKey)
    (frames' : List Frame) (hkey : t.sendKey level = .ok key) (hframes : WithAck frames frames')
    (hsocket : env.socket level (t.spaces level).nextSend ≠ .sent) :
    Sends env t level frames padInitial retransmits (.error e,
      (t.ready level pending deadline).handWire env ((t.ready level pending deadline).sealPacket
        level key (t.spaces level).nextSend frames' padInitial) frames')
  /-- the packet goes out -/
  | sent (pending : Bool) (deadline : Option ℕ) (key : PacketKey) (wire : ℕ)
    (frames' : List Frame) (hkey : t.sendKey level = .ok key) (hframes : WithAck frames frames')
    (hsocket : env.socket level (t.spaces level).nextSend = .sent) :
    Sends env t level frames padInitial retransmits (.ok (),
      ((t.ready level pending deadline).handWire env ((t.ready level pending deadline).sealPacket
        level key (t.spaces level).nextSend frames' padInitial) frames').recordSent env level
        (t.spaces level).nextSend wire frames' padInitial retransmits)

theorem piggyback_spec :
    ∃ pending deadline frames', t.piggyback env level frames =
      (frames',t.withFlags level pending deadline) ∧ WithAck frames frames' := by
  rw [piggyback]
  split
  · exact ⟨_,_,_,rfl,.inr ⟨_,_,rfl⟩⟩
  · exact ⟨_,_,frames,by rw [withFlags_self],.inl rfl⟩

theorem sendKey_withFlags (level' : Level) (pending : Bool) (deadline : Option ℕ) :
    (t.withFlags level pending deadline).sendKey level' = t.sendKey level' := by
  cases level' <;> rfl

theorem nextSend_withFlags (deadline : Option ℕ) :
    ((t.withFlags level pending deadline).spaces level).nextSend = (t.spaces level).nextSend := by
  simp [withFlags]

theorem Sends.of_sendFramesInner (padInitial : Bool) (retransmits : ℕ) :
    Sends env t level frames padInitial retransmits
      (t.sendFramesInner env level frames padInitial retransmits) := by
  obtain ⟨pending,deadline,frames',hpiggyback,hframes⟩ := t.piggyback_spec env level frames
  simp only [sendFramesInner,hpiggyback,sendKey_withFlags,nextSend_withFlags]
  cases hkey : t.sendKey level with
  | error e => exact .unnumbered e pending deadline
  | ok key =>
    split_ifs with hlast
    · exact .unnumbered _ pending deadline
    simp only [takeNumber_withFlags]
    change Sends env t level frames padInitial retransmits
      ((t.ready level pending deadline).sendNumbered _ _ _ _ _ _ _ _)
    generalize hu : t.ready level pending deadline = u
    have hrefused : ∀ e, Sends env t level frames padInitial retransmits (.error e,u) :=
      fun e => hu ▸ .refused e pending deadline
    simp only [sendNumbered]
    by_cases hfits : ¬ u.headerFits level
    · rw [if_pos hfits]
      exact hrefused _
    rw [if_neg hfits]
    by_cases hlong : u.maxPacketSize < u.wireLen level (u.plaintext level frames' padInitial).length
    · rw [if_pos hlong]
      exact hrefused _
    rw [if_neg hlong]
    by_cases hfull : u.congested frames' (u.wireLen level (u.plaintext level frames' padInitial).length)
    · rw [if_pos hfull]
      split_ifs with hdue
      · rw [← hu]
        change Sends env t level frames padInitial retransmits
          (.error wouldBlock,(t.ready level pending deadline).withFlags level true (some env.now))
        simp only [ready,withFlags,modifySpace_modifySpace]
        exact .refused _ _ _
      · exact hrefused _
    rw [if_neg hfull]
    simp only [transmit]
    subst hu
    cases hsocket : env.socket level (t.spaces level).nextSend with
    | sent => exact .sent pending deadline key _ frames' hkey hframes hsocket
    | wouldBlock | failed msg =>
      exact .blocked _ pending deadline key frames' hkey hframes (by simp [hsocket])

/-- The part of the transport that sending writes to: the spaces, the count of packets
    under the current keys and the record of what was handed over. -/
def withWire (spaces : Level → PacketSpace) (packets : ℕ) (handed : List Handed) : Transport :=
  { t with
    spaces := spaces, keyPhasePackets := packets, hist := { t.hist with handed := handed } }

def OnWire (t t' : Transport) : Prop := ∃ spaces packets handed, t' = t.withWire spaces packets handed

variable {t} in
theorem OnWire.modifySpace (h : OnWire t u) (level : Level) (f : PacketSpace → PacketSpace) :
    OnWire t (u.modifySpace level f) := by
  obtain ⟨spaces,packets,handed,rfl⟩ := h
  exact ⟨Function.update spaces level (f (spaces level)),packets,handed,rfl⟩

variable {t} in
theorem OnWire.withFlags (h : OnWire t u) (level : Level) (pending : Bool) (deadline : Option ℕ) :
    OnWire t (u.withFlags level pending deadline) := by
  rw [Transport.withFlags]
  exact h.modifySpace level _

variable {t} in
theorem OnWire.ready (h : OnWire t u) (level : Level) (pending : Bool) (deadline : Option ℕ) :
    OnWire t (u.ready level pending deadline) := by
  rw [Transport.ready,takeNumber]
  exact (h.modifySpace level _).withFlags level pending deadline

variable {t} in
theorem OnWire.handWire (h : OnWire t u) (packet : Packet) (frames : List Frame) :
    OnWire t (u.handWire env packet frames) := by
  obtain ⟨spaces,packets,handed,rfl⟩ := h
  exact ⟨spaces,packets,handed ++ [⟨packet,frames,env.socket packet.level packet.number⟩],rfl⟩

variable {t} in
theorem OnWire.recordSent (h : OnWire t u) (level : Level) (pn wire : ℕ) (frames : List Frame)
    (padInitial : Bool) (retransmits : ℕ) :
    OnWire t (u.recordSent env level pn wire frames padInitial retransmits) := by
  obtain ⟨spaces,packets,handed,rfl⟩ := h
  have hpackets : OnWire t { t.withWire spaces packets handed with
      keyPhasePackets := if level = .application then satAdd packets 1 else packets } :=
    ⟨spaces,_,handed,rfl⟩
  exact hpackets.modifySpace level _

theorem onWire_sendFramesInner (padInitial : Bool) (retransmits : ℕ) :
    OnWire t (t.sendFramesInner env level frames padInitial retransmits).2 := by
  have hself : OnWire t t := ⟨t.spaces,t.keyPhasePackets,t.hist.handed,rfl⟩
  have h := Sends.of_sendFramesInner t env level frames padInitial retransmits
  generalize t.sendFramesInner env level frames padInitial retransmits = r at h ⊢
  cases h with
  | unnumbered => exact hself.withFlags level _ _
  | refused => exact hself.ready level _ _
  | blocked => exact (hself.ready level _ _).handWire env _ _
  | sent => exact ((hself.ready level _ _).handWire env _ _).recordSent env level _ _ _ _ _

end Transport

/-! ### Licences -/

def Transport.counted (t : Transport) (id : ℕ) : ℕ := (t.sentStreamData[id]?).getD 0

def streamFrame (id offset : ℕ) (bytes : List UInt8) (fin : Bool) : Frame :=
  .stream id (if offset = 0 then none else some offset) bytes (some bytes.length) fin

def Frame.isStream : Frame → Bool
  | .stream .. => true
  | _ => false

/-- A property of frames that grows with the counters. On the streams that are `free` it
    asks only that the data was counted; `charges` are the streams whose data may be counted
    as sent, `receives` and `records` say whether stream data is received and packets are
    taken as new at all, and `watches` which of the packets handed to the socket it is about. -/
structure License where
  allows : (ℕ → ℕ) → Frame → Prop
  watches : SendResult → Prop := fun _ => True
  free : ℕ → Prop
  charges : ℕ → Prop
  receives : Prop
  records : Prop
  charges_of_free : ∀ {id : ℕ}, free id → charges id
  mono : ∀ {c c' : ℕ → ℕ} {f : Frame}, (∀ id, c id ≤ c' id) → allows c f → allows c' f
  control : ∀ (c : ℕ → ℕ) {f : Frame}, f.isStream = false → allows c f
  chunk : ∀ {c : ℕ → ℕ} {id offset : ℕ} {bytes : List UInt8} {fin : Bool}, free id →
    offset + bytes.length ≤ c id → allows c (streamFrame id offset bytes fin)

namespace License

def any : License where
  allows := fun _ _ => True
  free := fun _ => True
  charges := fun _ => True
  receives := True
  records := True
  charges_of_free := fun _ => trivial
  mono := fun _ h => h
  control := fun _ _ _ => trivial
  chunk := fun _ _ => trivial

variable (L : License)

def All (c : ℕ → ℕ) (frames : List Frame) : Prop := ∀ f ∈ frames, L.allows c f

/-- The frames in flight and the frames handed over are licensed, and the queued bodies
    are of free streams. -/
structure Held (t : Transport) : Prop where
  sent : ∀ (level : Level) (pn : ℕ) (packet : SentPacket),
    (t.spaces level).sent[pn]? = some packet → L.All t.counted packet.frames
  handed : ∀ h ∈ t.hist.handed, L.watches h.result → L.All t.counted h.frames
  queued : ∀ q ∈ t.queuedStreams, L.free q.id

end License

/-! ### Changes -/

open Transport

inductive Change (L : License) : Transport → Transport → Prop
  | send (t : Transport) (env : Env) (level : Level) (frames : List Frame) (padInitial : Bool)
    (retransmits : ℕ) (h : L.All t.counted frames) :
    Change L t (t.sendFramesInner env level frames padInitial retransmits).2
  | charge (t t' : Transport) (id offset length : ℕ) (h : t.charge id offset length = .ok t')
    (hid : L.charges id) : Change L t t'
  | flags (t : Transport) (level : Level) (pending : Bool) (deadline : Option ℕ) :
    Change L t (t.withFlags level pending deadline)
  | crypto (t : Transport) (offsets : Level → ℕ) :
    Change L t { t with cryptoSendOffsets := offsets }
  | queue (t : Transport) (queued : List QueuedStream) (h : ∀ q ∈ queued, L.free q.id) :
    Change L t { t with queuedStreams := queued }
  | path (t : Transport) (peer pendingPeer : Option Address) (challenge : Option (Octets 8))
    (sent : Option ℕ) (retries : ℕ) :
    Change L t { t with
      peer := peer, pendingPeer := pendingPeer, pathChallenge := challenge,
      pathChallengeSent := sent, pathValidationRetries := retries }
  | estimate (t : Transport) (window threshold variance : ℕ) (smoothed latest : Option ℕ) :
    Change L t { t with
      congestionWindow := window, slowStartThreshold := threshold, rttVariance := variance,
      smoothedRtt := smoothed, latestRtt := latest }
  /-- packets leave a map, or their counts of retransmissions change -/
  | shrink (t : Transport) (level : Level) (sent : SentMap)
    (h : ∀ (pn : ℕ) (packet : SentPacket), sent[pn]? = some packet → ∃ packet' : SentPacket,
      (t.spaces level).sent[pn]? = some packet' ∧ packet.frames = packet'.frames) :
    Change L t (t.modifySpace level fun s => { s with sent := sent })
  | acked (t : Transport) (level : Level) (largest : Option ℕ) :
    Change L t (t.modifySpace level fun s => { s with largestAcked := largest })
  | logged (t : Transport) (acks : List (Level × ℕ × List (ℕ × ℕ))) :
    Change L t { t with hist := { t.hist with acks := acks } }
  | keep (t : Transport) (env : Env) (r : Resend) (h : L.All t.counted r.frames) :
    Change L t (t.keepForResend env r)
  | peerMaxData (t : Transport) (limit : ℕ) (h : limit ≤ Varint.MAX) :
    Change L t { t with peerMaxData := max t.peerMaxData limit }
  | peerMaxStreams (t : Transport) (bidi uni : ℕ) :
    Change L t { t with peerMaxStreamsBidi := bidi, peerMaxStreamsUni := uni }
  | peerStreamLimit (t : Transport) (id limit : ℕ) :
    Change L t { t with
      peerStreamLimits := t.peerStreamLimits.insert id (max (t.peerStreamSendLimit id) limit) }
  | localMaxData (t : Transport) (limit : ℕ) (hle : t.localMaxData ≤ limit)
    (hmax : limit ≤ Varint.MAX) : Change L t { t with localMaxData := limit }
  | localStreamLimit (t : Transport) (id limit received : ℕ)
    (hreceived : t.receivedStreamData[id]? = some received)
    (hle : min (satAdd received (t.localStreamDefault id)) Varint.MAX ≤ limit) :
    Change L t { t with localStreamLimits := t.localStreamLimits.insert id limit }
  | localMaxStreams (t : Transport) (bidi uni : ℕ) :
    Change L t { t with localMaxStreamsBidi := bidi, localMaxStreamsUni := uni }
  | receivedStreams (t : Transport) (bidi uni : ℕ) :
    Change L t { t with receivedStreamsBidi := bidi, receivedStreamsUni := uni }
  | accept (t t' : Transport) (id offset length : ℕ)
    (h : t.acceptRange id offset length = .ok t') (hreceives : L.receives) : Change L t t'
  /-- a packet that its key opens and whose number is new -/
  | record (t : Transport) (p : Packet) (hkey : t.receiveKey p.level = some p.key)
    (hnew : (t.spaces p.level).received.contains p.number = false) (hrecords : L.records) :
    Change L t (t.recordPacket p p.number)

abbrev Changes (L : License) : Transport → Transport → Prop := Relation.ReflTransGen (Change L)

/-! ### Licences along changes -/

namespace Transport

variable {t t' : Transport}

variable {length id offset : ℕ}

section

variable (h : t.charge id offset length = .ok t')
include h

theorem charge_eq :
    offset+length ≤ t.peerStreamSendLimit id ∧
      satAdd t.sentData (offset+length-t.counted id) ≤ t.peerMaxData ∧
      t' = { t with
        sentData := satAdd t.sentData (offset+length-t.counted id)
        sentStreamData := t.sentStreamData.insert id (max (t.counted id) (offset+length)) } := by
  simp only [charge,checkedAdd] at h
  split_ifs at h
  dsimp only at h
  split_ifs at h with hstream hdata
  exact ⟨not_lt.1 hstream,not_lt.1 hdata,(Except.ok.inj h).symm⟩

theorem counted_charge (x : ℕ) :
    t'.counted x = if x = id then max (t.counted id) (offset+length) else t.counted x := by
  obtain ⟨-,-,rfl⟩ := charge_eq h
  simp only [counted,OrderedMap.get_insert]
  split_ifs with hx
  · rfl
  · rfl

theorem counted_le_charge (x : ℕ) :
    t.counted x ≤ t'.counted x := by
  rw [counted_charge h]
  split_ifs with hx
  · exact hx ▸ le_max_left _ _
  · exact le_rfl

end

theorem acceptRange_eq (h : t.acceptRange id offset length = .ok t') :
    ∃ received streams, t' = { t with receivedData := received, receivedStreamData := streams } := by
  simp only [acceptRange,checkedAdd] at h
  split_ifs at h
  dsimp only at h
  split_ifs at h
  exact ⟨_,_,(Except.ok.inj h).symm⟩

theorem counted_sendFramesInner (t : Transport) (env : Env) (level : Level) (frames : List Frame)
    (padInitial : Bool) (retransmits : ℕ) :
    (t.sendFramesInner env level frames padInitial retransmits).2.counted = t.counted := by
  obtain ⟨spaces,packets,handed,h⟩ :=
    t.onWire_sendFramesInner env level frames padInitial retransmits
  rw [h]
  rfl

end Transport

namespace License

variable {L : License} {t t' : Transport}

variable {frames : List Frame}

theorem All.mono {c c' : ℕ → ℕ} (h : L.All c frames) (hle : ∀ id, c id ≤ c' id) :
    L.All c' frames := fun f hf => L.mono hle (h f hf)

theorem All.withAck {c : ℕ → ℕ} {frames' : List Frame} (h : L.All c frames)
    (hack : WithAck frames frames') : L.All c frames' := by
  rcases hack with rfl | ⟨received,largest,rfl⟩
  · exact h
  · intro f hf
    rcases mem_cons.1 hf with rfl | hf
    · exact L.control c rfl
    · exact h f hf

variable (h : L.Held t)
include h

theorem Held.of_eq (hsent : ∀ level, (t'.spaces level).sent = (t.spaces level).sent)
    (hhanded : t'.hist.handed = t.hist.handed) (hqueued : t'.queuedStreams = t.queuedStreams)
    (hcounted : ∀ id, t.counted id ≤ t'.counted id) : L.Held t' where
  sent := fun level pn packet hpacket => by
    rw [hsent] at hpacket
    exact (h.sent level pn packet hpacket).mono hcounted
  handed := fun handed hmem hwatched => by
    rw [hhanded] at hmem
    exact (h.handed handed hmem hwatched).mono hcounted
  queued := by
    rw [hqueued]
    exact h.queued

theorem Held.modifySpace (level : Level) {f : PacketSpace → PacketSpace}
    (hsent : ∀ (pn : ℕ) (packet : SentPacket), (f (t.spaces level)).sent[pn]? = some packet →
      L.All t.counted packet.frames) : L.Held (t.modifySpace level f) := by
  refine ⟨fun level' pn packet hpacket => ?_,h.handed,h.queued⟩
  rw [spaces_modifySpace] at hpacket
  split_ifs at hpacket
  · exact hsent pn packet hpacket
  · exact h.sent level' pn packet hpacket

theorem Held.insert (level : Level) {number : ℕ} {new : SentPacket}
    (hnew : L.All t.counted new.frames) (pn : ℕ) (packet : SentPacket)
    (hpacket : ((t.spaces level).sent.insert number new)[pn]? = some packet) :
    L.All t.counted packet.frames := by
  rw [OrderedMap.get_insert] at hpacket
  split_ifs at hpacket
  · rw [← Option.some.inj hpacket]
    exact hnew
  · exact h.sent level pn packet hpacket

theorem Held.withFlags (level : Level) (pending : Bool) (deadline : Option ℕ) :
    L.Held (t.withFlags level pending deadline) := by
  rw [Transport.withFlags]
  exact h.modifySpace level (h.sent level)

theorem Held.ready (level : Level) (pending : Bool) (deadline : Option ℕ) :
    L.Held (t.ready level pending deadline) := by
  have hnumber : L.Held (t.takeNumber level) := by
    rw [takeNumber]
    exact h.modifySpace level (h.sent level)
  exact hnumber.withFlags level pending deadline

theorem Held.handWire (env : Env) (packet : Packet)
    (hframes : L.All t.counted frames) : L.Held (t.handWire env packet frames) := by
  refine ⟨h.sent,fun entry hentry hwatched => ?_,h.queued⟩
  rcases mem_append.1 hentry with hold | hnew
  · exact h.handed entry hold hwatched
  · rw [mem_singleton.1 hnew]
    exact hframes

theorem Held.recordSent (env : Env) (level : Level) (pn wire : ℕ)
    (padInitial : Bool) (retransmits : ℕ) (hframes : L.All t.counted frames) :
    L.Held (t.recordSent env level pn wire frames padInitial retransmits) := by
  have hpackets : L.Held { t with
      keyPhasePackets := if level = .application then satAdd t.keyPhasePackets 1 else t.keyPhasePackets } :=
    ⟨h.sent,h.handed,h.queued⟩
  rw [Transport.recordSent]
  refine hpackets.modifySpace level ?_
  by_cases helicit : frames.any Frame.isAckEliciting
  · rw [if_pos helicit]
    exact h.insert level hframes
  · rw [if_neg helicit]
    exact h.sent level

theorem Held.send (env : Env) (level : Level) (padInitial : Bool) (retransmits : ℕ)
    (hframes : L.All t.counted frames) :
    L.Held (t.sendFramesInner env level frames padInitial retransmits).2 := by
  have hsends := Sends.of_sendFramesInner t env level frames padInitial retransmits
  generalize t.sendFramesInner env level frames padInitial retransmits = r at hsends ⊢
  cases hsends with
  | unnumbered => exact h.withFlags level _ _
  | refused => exact h.ready level _ _
  | blocked e pending deadline key frames' hkey hack hsocket =>
    exact (h.ready level pending deadline).handWire env _ (hframes.withAck hack)
  | sent pending deadline key wire frames' hkey hack hsocket =>
    exact ((h.ready level pending deadline).handWire env _ (hframes.withAck hack)).recordSent env
      level _ _ _ _ (hframes.withAck hack)

theorem Held.change (hchange : Change L t t') : L.Held t' := by
  have hrefl : ∀ id, t.counted id ≤ t.counted id := fun _ => le_rfl
  cases hchange with
  | send env level frames padInitial retransmits hframes =>
    exact h.send env level padInitial retransmits hframes
  | charge _ id offset length hcharge _ =>
    have hcounted := counted_le_charge hcharge
    obtain ⟨-,-,rfl⟩ := charge_eq hcharge
    exact h.of_eq (fun _ => rfl) rfl rfl hcounted
  | flags level | acked level => exact h.modifySpace level (h.sent level)
  | queue queued hqueued => exact ⟨h.sent,h.handed,hqueued⟩
  | shrink level sent hsent =>
    refine h.modifySpace level fun pn packet hpacket => ?_
    obtain ⟨packet',hpacket',hframes⟩ := hsent pn packet hpacket
    rw [hframes]
    exact h.sent level pn packet' hpacket'
  | keep env r hframes =>
    rw [keepForResend]
    exact h.modifySpace r.level (h.insert r.level hframes)
  | accept _ id offset length haccept _ =>
    obtain ⟨received,streams,rfl⟩ := acceptRange_eq haccept
    exact h.of_eq (fun _ => rfl) rfl rfl hrefl
  | record p hkey hnew _ =>
    refine h.of_eq (fun level' => ?_) rfl rfl hrefl
    simp only [recordPacket,Function.update_apply]
    by_cases hlevel : level' = p.level
    · rw [if_pos hlevel,hlevel]
    · rw [if_neg hlevel]
  | logged | crypto | path | estimate | peerMaxData | peerMaxStreams | peerStreamLimit | localMaxData
  | localStreamLimit | localMaxStreams | receivedStreams =>
    exact h.of_eq (fun _ => rfl) rfl rfl hrefl

theorem Held.changes (hchanges : Changes L t t') : L.Held t' := by
  induction hchanges with
  | refl => exact h
  | tail _ hchange ih => exact ih.change hchange

end License

/-! ### Keys and numbers along changes -/

/-- The keys of a transport with their phases, and what they were derived from. -/
structure Keyring where
  server : Bool
  initialDcid : List UInt8
  retrySeen : Bool
  initialSend : PacketKey
  initialRecv : PacketKey
  handshakeSend : Option PacketKey
  handshakeRecv : Option PacketKey
  applicationSend : Option PacketKey
  applicationRecv : Option PacketKey
  applicationSendPhase : Bool
  applicationRecvPhase : Bool
  sendUpdatePending : Bool

namespace Transport

def keyring (t : Transport) : Keyring where
  server := t.server
  initialDcid := t.initialDcid
  retrySeen := t.retrySeen
  initialSend := t.initialSend
  initialRecv := t.initialRecv
  handshakeSend := t.handshakeSend
  handshakeRecv := t.handshakeRecv
  applicationSend := t.applicationSend
  applicationRecv := t.applicationRecv
  applicationSendPhase := t.applicationSendPhase
  applicationRecvPhase := t.applicationRecvPhase
  sendUpdatePending := t.sendUpdatePending

variable {L : License} {t t' : Transport}

theorem OnWire.keyring (h : OnWire t t') : t'.keyring = t.keyring := by
  obtain ⟨spaces,packets,handed,rfl⟩ := h
  rfl

structure Steady (t t' : Transport) : Prop where
  handed : t'.hist.handed = t.hist.handed
  nextSend : ∀ level, (t'.spaces level).nextSend = (t.spaces level).nextSend

theorem steady_modifySpace (t : Transport) (level : Level) {f : PacketSpace → PacketSpace}
    (h : (f (t.spaces level)).nextSend = (t.spaces level).nextSend) :
    Steady t (t.modifySpace level f) :=
  ⟨rfl,t.modifySpace_frame (·.nextSend) h⟩

/-- At most one packet is handed over, with the next number of its space. -/
structure Hands (t t' : Transport) (new : List Handed) : Prop where
  handed : t'.hist.handed = t.hist.handed ++ new
  nextSend : ∀ level, (t.spaces level).nextSend ≤ (t'.spaces level).nextSend
  single : new.length ≤ 1
  key : ∀ h ∈ new, t.sendKey h.packet.level = .ok h.packet.key
  number : ∀ h ∈ new, h.packet.number = (t.spaces h.packet.level).nextSend ∧
    (t.spaces h.packet.level).nextSend < (t'.spaces h.packet.level).nextSend

theorem Hands.of_steady (h : Steady t t') : Hands t t' [] :=
  ⟨by rw [h.handed,append_nil],fun level => (h.nextSend level).ge,by simp,by simp,by simp⟩

theorem Hands.steady {t'' : Transport} {new : List Handed} (h : Hands t t' new)
    (hs : Steady t' t'') : Hands t t'' new where
  handed := hs.handed.trans h.handed
  nextSend := fun level => (h.nextSend level).trans (hs.nextSend level).ge
  single := h.single
  key := h.key
  number := fun entry hentry => by
    rw [hs.nextSend]
    exact h.number entry hentry

theorem nextSend_ready (t : Transport) (level level' : Level) (pending : Bool)
    (deadline : Option ℕ) : ((t.ready level pending deadline).spaces level').nextSend =
      if level' = level then (t.spaces level).nextSend+1 else (t.spaces level').nextSend := by
  rw [ready,withFlags,spaces_modifySpace]
  by_cases hlevel : level' = level
  · rw [if_pos hlevel,if_pos hlevel,takeNumber,spaces_modifySpace,if_pos rfl]
  · rw [if_neg hlevel,if_neg hlevel,takeNumber,spaces_modifySpace,if_neg hlevel]

theorem nextSend_le_ready (t : Transport) (level level' : Level) (pending : Bool)
    (deadline : Option ℕ) :
    (t.spaces level').nextSend ≤ ((t.ready level pending deadline).spaces level').nextSend := by
  rw [nextSend_ready]
  split_ifs with hlevel
  · rw [hlevel]
    exact Nat.le_succ _
  · exact le_rfl

theorem hands_handWire (t : Transport) (env : Env) (level : Level) (pending : Bool)
    (deadline : Option ℕ) {key : PacketKey} (hkey : t.sendKey level = .ok key) (frames : List Frame)
    (padInitial : Bool) : ∃ new, Hands t ((t.ready level pending deadline).handWire env
      ((t.ready level pending deadline).sealPacket level key (t.spaces level).nextSend frames
        padInitial) frames) new := by
  refine ⟨[_],rfl,fun level' => nextSend_le_ready t level level' _ _,le_rfl,?_,?_⟩
  · intro entry hentry
    rw [mem_singleton.1 hentry]
    exact hkey
  · simp only [mem_singleton,forall_eq]
    refine ⟨rfl,?_⟩
    change _ < ((t.ready level pending deadline).spaces level).nextSend
    rw [nextSend_ready,if_pos rfl]
    exact Nat.lt_succ_self _

theorem exists_hands_sendFramesInner (t : Transport) (env : Env) (level : Level)
    (frames : List Frame) (padInitial : Bool) (retransmits : ℕ) :
    ∃ new, Hands t (t.sendFramesInner env level frames padInitial retransmits).2 new := by
  have h := Sends.of_sendFramesInner t env level frames padInitial retransmits
  generalize t.sendFramesInner env level frames padInitial retransmits = r at h ⊢
  cases h with
  | unnumbered e pending deadline =>
    have hs : Steady t (t.withFlags level pending deadline) :=
      steady_modifySpace t level rfl
    exact ⟨[],.of_steady hs⟩
  | refused e pending deadline =>
    exact ⟨[],(append_nil _).symm,fun level' => nextSend_le_ready t level level' _ _,by simp,
      by simp,by simp⟩
  | blocked e pending deadline key frames' hkey hframes hsocket =>
    exact t.hands_handWire env level pending deadline hkey frames' padInitial
  | sent pending deadline key wire frames' hkey hframes hsocket =>
    obtain ⟨new,hn⟩ := t.hands_handWire env level pending deadline hkey frames' padInitial
    refine ⟨new,hn.steady ⟨rfl,fun level' => ?_⟩⟩
    rw [recordSent]
    refine modifySpace_frame _ (·.nextSend) ?_ level'
    split_ifs <;> rfl

end Transport

variable {L : License} {t t' : Transport}

theorem Change.keyring (h : Change L t t') : t'.keyring = t.keyring := by
  cases h with
  | send env level frames padInitial retransmits hframes =>
    exact (t.onWire_sendFramesInner env level frames padInitial retransmits).keyring
  | charge _ id offset length hcharge _ =>
    obtain ⟨-,-,rfl⟩ := charge_eq hcharge
    rfl
  | accept _ id offset length haccept _ =>
    obtain ⟨received,streams,rfl⟩ := acceptRange_eq haccept
    rfl
  | _ => rfl

theorem Changes.keyring (h : Changes L t t') : t'.keyring = t.keyring := by
  induction h with
  | refl => rfl
  | tail _ hchange ih => exact hchange.keyring.trans ih

theorem Change.send_or_steady (h : Change L t t') :
    (∃ env level frames padInitial retransmits, L.All t.counted frames ∧
      t' = (t.sendFramesInner env level frames padInitial retransmits).2) ∨ Steady t t' := by
  cases h with
  | send env level frames padInitial retransmits hframes =>
    exact .inl ⟨env,level,frames,padInitial,retransmits,hframes,rfl⟩
  | charge _ id offset length hcharge _ =>
    obtain ⟨-,-,rfl⟩ := charge_eq hcharge
    exact .inr ⟨rfl,fun _ => rfl⟩
  | accept _ id offset length haccept _ =>
    obtain ⟨received,streams,rfl⟩ := acceptRange_eq haccept
    exact .inr ⟨rfl,fun _ => rfl⟩
  | flags | shrink | acked => exact .inr (steady_modifySpace t _ rfl)
  | keep env r hframes =>
    rw [keepForResend]
    exact .inr (steady_modifySpace t _ rfl)
  | record p hkey hnew _ =>
    refine .inr ⟨rfl,fun level => ?_⟩
    simp only [recordPacket,Function.update_apply]
    by_cases hlevel : level = p.level
    · rw [if_pos hlevel,hlevel]
    · rw [if_neg hlevel]
  | _ => exact .inr ⟨rfl,fun _ => rfl⟩

theorem Change.handed_prefix (h : Change L t t') : t.hist.handed <+: t'.hist.handed := by
  rcases h.send_or_steady with ⟨env,level,frames,padInitial,retransmits,-,rfl⟩ | hs
  · obtain ⟨new,hn⟩ := exists_hands_sendFramesInner t env level frames padInitial retransmits
    exact ⟨new,hn.handed.symm⟩
  · rw [hs.handed]

theorem Changes.handed_prefix (h : Changes L t t') : t.hist.handed <+: t'.hist.handed := by
  induction h with
  | refl => exact prefix_rfl
  | tail _ hchange ih => exact ih.trans hchange.handed_prefix

theorem Change.counted_eq (h : Change L t t') {id : ℕ} (hid : ¬ L.charges id) :
    t'.counted id = t.counted id := by
  cases h with
  | send env level frames padInitial retransmits hframes => rw [counted_sendFramesInner]
  | charge _ x offset length hcharge hx =>
    rw [counted_charge hcharge,if_neg]
    rintro rfl
    exact hid hx
  | accept _ x offset length haccept _ =>
    obtain ⟨received,streams,rfl⟩ := acceptRange_eq haccept
    rfl
  | _ => rfl

theorem Changes.counted_eq (h : Changes L t t') {id : ℕ} (hid : ¬ L.charges id) :
    t'.counted id = t.counted id := by
  induction h with
  | refl => rfl
  | tail _ hchange ih => exact (hchange.counted_eq hid).trans ih

end Courierust.Quic
