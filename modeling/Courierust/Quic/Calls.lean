import Courierust.Quic.Changes

/-!
# Calls are chains of changes

One lemma for each function of the transport: what it does is a chain of changes.
-/

namespace Courierust.Quic

open List
open Std (ExtTreeMap ExtTreeSet)

namespace Transport

variable {L : License} (t : Transport) (env : Env)

/-! ### Sending -/

variable {id pn : ℕ} {sent : SentMap} {frames : List Frame} {s : Sweep} (p : Packet) (l : FrameLoop)
  (level : Level) (now : ℕ)

theorem changes_sendFrames (padInitial : Bool) (h : L.All t.counted frames) :
    Changes L t (t.sendFrames env level frames padInitial).2 :=
  .single (.send t env level frames padInitial 0 h)

theorem changes_control (padInitial : Bool) (h : ∀ f ∈ frames, f.isStream = false) :
    Changes L t (t.sendFrames env level frames padInitial).2 :=
  t.changes_sendFrames env level padInitial fun f hf => L.control _ (h f hf)

theorem changes_sendDeferred {frame : Frame} (h : frame.isStream = false) :
    Changes L t (t.sendDeferred env frame).2 :=
  t.changes_control env .application false (by simpa using h)

theorem changes_andThen {r : Except Error Unit × Transport}
    {next : Transport → Except Error Unit × Transport} (h : Changes L t r.2)
    (hnext : Changes L r.2 (next r.2).2) : Changes L t (andThen r next).2 := by
  obtain ⟨result,u⟩ := r
  cases result with
  | error e => exact h
  | ok => exact h.trans hnext

theorem changes_sendCryptoFrom (rest : List UInt8) :
    Changes L t (sendCryptoFrom env level t rest).2 := by
  have hsend : ∀ {t u : Transport} {offset : ℕ} {chunk : List UInt8} {result : Except Error Unit},
      t.sendFrames env level [.crypto offset chunk] (level = .initial) = (result,u) →
        Changes L t u := by
    intro t u offset chunk result hresult
    have hcontrol : ∀ f ∈ [Frame.crypto offset chunk], f.isStream = false := by
      simp [Frame.isStream]
    have hchanges := t.changes_control (L := L) env level (level = .initial) hcontrol
    rwa [hresult] at hchanges
  fun_induction sendCryptoFrom env level t rest with
  | case1 => exact .refl
  | case2 _ _ _ _ _ _ _ hresult | case3 _ _ _ _ _ _ hresult => exact hsend hresult
  | case4 t rest _ _ _ u hresult _ _ ih => exact ((hsend hresult).tail (.crypto u _)).trans ih

theorem changes_sendStreamChunk_of {offset : ℕ} {bytes : List UInt8} {fin : Bool}
    (hid : L.charges id)
    (hempty : bytes = [] → L.allows t.counted (streamFrame id offset bytes fin))
    (hcharged : ∀ t', t.charge id offset bytes.length = .ok t' →
      L.allows t'.counted (streamFrame id offset bytes fin)) :
    Changes L t (t.sendStreamChunk env .application id offset bytes fin).2 := by
  simp only [sendStreamChunk,true_and]
  by_cases hbytes : bytes = []
  · rw [if_neg (by simpa using hbytes)]
    exact t.changes_sendFrames env .application false
      (by simpa [License.All,streamFrame] using hempty hbytes)
  rw [if_pos hbytes]
  cases hcharge : t.charge id offset bytes.length with
  | error e => exact .refl
  | ok u =>
    refine .head (.charge t u id offset bytes.length hcharge hid) ?_
    exact u.changes_sendFrames env .application false
      (by simpa [License.All,streamFrame] using hcharged u hcharge)

theorem changes_sendStreamChunk {offset : ℕ} {bytes : List UInt8} (fin : Bool) (hfree : L.free id)
    (hempty : bytes = [] → offset = 0) :
    Changes L t (t.sendStreamChunk env .application id offset bytes fin).2 := by
  refine t.changes_sendStreamChunk_of env (L.charges_of_free hfree) (fun hbytes => ?_) fun u hcharge => ?_
  · exact L.chunk hfree (by simp [hbytes,hempty hbytes])
  · refine L.chunk hfree ?_
    rw [counted_charge hcharge,if_pos rfl]
    exact le_max_right _ _

theorem changes_sendChunks (wire : List UInt8) (offset : ℕ) (hfree : L.free id) :
    Changes L t (sendChunks env id wire t offset).2.2 := by
  have hsend : ∀ {t u : Transport} {offset : ℕ} {fin : Bool} {result : Except Error Unit},
      offset < wire.length → t.sendStreamChunk env .application id offset
        ((wire.drop offset).take STREAM_CHUNK) fin = (result,u) → Changes L t u := by
    intro t u offset fin result hoffset hresult
    have hchunk : (wire.drop offset).take STREAM_CHUNK ≠ [] := by
      simp only [ne_eq,take_eq_nil_iff,drop_eq_nil_iff,STREAM_CHUNK]
      omega
    have hchanges := t.changes_sendStreamChunk env fin hfree
      (fun h => absurd h hchunk : _ → offset = 0)
    rwa [hresult] at hchanges
  fun_induction sendChunks env id wire t offset with
  | case1 t offset hoffset _ _ _ hresult => exact hsend hoffset hresult
  | case2 t offset hoffset _ _ hresult ih => exact (hsend hoffset hresult).trans ih
  | case3 => exact .refl

theorem changes_flushQueued (q : QueuedStream) (hfree : L.free q.id) :
    Changes L t (t.flushQueued env q).2.2 ∧ (t.flushQueued env q).2.1.id = q.id := by
  rw [flushQueued]
  split_ifs
  · exact ⟨t.changes_sendStreamChunk env true hfree fun _ => rfl,rfl⟩
  · exact ⟨t.changes_sendChunks env q.wire q.offset hfree,rfl⟩

theorem changes_flushQueuedFrom (queued : List QueuedStream)
    (hfree : ∀ q ∈ queued, L.free q.id) : Changes L t (flushQueuedFrom env t queued).2 := by
  induction queued generalizing t with
  | nil => exact .single (.queue t [] (by simp))
  | cons q rest ih =>
    have hrest : ∀ q ∈ rest, L.free q.id := fun x hx => hfree x (mem_cons_of_mem _ hx)
    obtain ⟨hchanges,hid⟩ := t.changes_flushQueued env q (hfree q mem_cons_self)
    rw [flushQueuedFrom]
    generalize t.flushQueued env q = r at hchanges hid ⊢
    obtain ⟨result,q',u⟩ := r
    cases result with
    | ok => exact hchanges.trans (ih u hrest)
    | error e =>
      dsimp only
      split_ifs
      · refine hchanges.tail (.queue u _ fun x hx => ?_)
        rcases mem_cons.1 hx with rfl | hx
        · exact hid ▸ hfree q mem_cons_self
        · exact hrest x hx
      · exact hchanges.tail (.queue u _ hrest)

theorem changes_sendRequestChunks (wire : List UInt8) (offset : ℕ) (hfree : L.free id) :
    Changes L t (t.sendRequestChunks env id wire offset).2.2 := by
  have hchunks := t.changes_sendChunks env wire offset hfree
  rw [sendRequestChunks]
  generalize sendChunks env id wire t offset = r at hchunks ⊢
  obtain ⟨result,reached,u⟩ := r
  cases result with
  | error e => exact hchunks
  | ok =>
    split_ifs
    · exact hchunks.trans (u.changes_sendStreamChunk env true hfree fun _ => rfl)
    · exact hchunks

/-! ### ACKs, windows and signals -/

theorem changes_flushAck : Changes L t (t.flushAck env level).2 := by
  rw [flushAck]
  by_cases hpending : ¬ (t.spaces level).ackPending
  · rw [if_pos hpending]
  rw [if_neg hpending]
  split_ifs with hdeadline
  · exact .refl
  cases (t.spaces level).largestReceived with
  | none => exact .refl
  | some largest =>
    have hsend : Changes L t (t.sendFrames env level
        [ackFrame (t.spaces level).received largest] false).2 :=
      t.changes_control env level false (by simp [ackFrame,Frame.isStream])
    dsimp only
    generalize t.sendFrames env level [ackFrame (t.spaces level).received largest] false = r at hsend ⊢
    obtain ⟨result,u⟩ := r
    cases result with
    | error e => exact hsend
    | ok => exact hsend.tail (.flags u level false none)

theorem changes_replenishConnectionWindow :
    Changes L t (t.replenishConnectionWindow env).2 := by
  simp only [replenishConnectionWindow]
  split_ifs with hroom hlimit
  · exact .refl
  · exact .refl
  · refine .head (.localMaxData t _ (not_le.1 hlimit).le (min_le_right _ _)) ?_
    exact changes_sendDeferred _ env rfl

def SameReceived (t t' : Transport) : Prop :=
  t'.receivedStreamData = t.receivedStreamData ∧ t'.localStreamDefault = t.localStreamDefault

theorem sameReceived_raiseStreamLimit (update : ℕ × ℕ) :
    SameReceived t (t.raiseStreamLimit env update).2 := by
  simp only [raiseStreamLimit]
  split_ifs
  · exact ⟨rfl,rfl⟩
  obtain ⟨spaces,packets,handed,h⟩ := onWire_sendFramesInner
    { t with localStreamLimits := t.localStreamLimits.insert update.1 update.2 } env .application
    [.maxStreamData update.1 update.2] false 0
  simp only [sendDeferred,sendFrames,h]
  exact ⟨rfl,rfl⟩

theorem changes_raiseStreamLimit {limit received : ℕ}
    (hreceived : t.receivedStreamData[id]? = some received)
    (hlimit : min (satAdd received (t.localStreamDefault id)) Varint.MAX ≤ limit) :
    Changes L t (t.raiseStreamLimit env (id,limit)).2 := by
  simp only [raiseStreamLimit]
  split_ifs with hadvertised
  · exact .single (.localStreamLimit t id _ received hreceived (hlimit.trans hadvertised))
  · refine .head (.localStreamLimit t id limit received hreceived hlimit) ?_
    exact changes_sendDeferred _ env rfl

theorem changes_raiseStreamLimits (updates : List (ℕ × ℕ)) (r : Except Error Unit × Transport)
    (hr : Changes L t r.2) (hsame : SameReceived t r.2)
    (hupdates : ∀ update ∈ updates, ∃ received, t.receivedStreamData[update.1]? = some received ∧
      min (satAdd received (t.localStreamDefault update.1)) Varint.MAX ≤ update.2) :
    Changes L t
      (updates.foldl (fun r update => andThen r (raiseStreamLimit · env update)) r).2 := by
  induction updates generalizing r with
  | nil => exact hr
  | cons update updates ih =>
    obtain ⟨received,hreceived,hlimit⟩ := hupdates update mem_cons_self
    have hchange : Changes L r.2 (r.2.raiseStreamLimit env update).2 := by
      have hreceived' : r.2.receivedStreamData[update.1]? = some received := by
        rw [hsame.1]
        exact hreceived
      refine r.2.changes_raiseStreamLimit env hreceived' ?_
      rw [hsame.2]
      exact hlimit
    refine ih _ (t.changes_andThen hr hchange) ?_
      fun x hx => hupdates x (mem_cons_of_mem _ hx)
    have hraise := r.2.sameReceived_raiseStreamLimit env update
    obtain ⟨result,u⟩ := r
    cases result with
    | error e => exact hsame
    | ok => exact ⟨hraise.1.trans hsame.1,hraise.2.trans hsame.2⟩

theorem changes_replenishStreamWindows : Changes L t (t.replenishStreamWindows env).2 := by
  refine t.changes_raiseStreamLimits env _ (.ok (),t) .refl ⟨rfl,rfl⟩ fun update hupdate => ?_
  obtain ⟨p,hp,rfl⟩ := mem_map.1 hupdate
  have hmem := (mem_filter.1 hp).1
  exact ⟨p.2,ExtTreeMap.mem_toList_iff_getElem?_eq_some.1 hmem,le_rfl⟩

theorem changes_raiseStreamCount (unidirectional : Bool) (limit : Option ℕ) :
    Changes L t (t.raiseStreamCount env unidirectional limit).2 := by
  cases limit with
  | none => exact .refl
  | some limit =>
    cases unidirectional
    · exact .head (.localMaxStreams t limit t.localMaxStreamsUni) (changes_sendDeferred _ env rfl)
    · exact .head (.localMaxStreams t t.localMaxStreamsBidi limit) (changes_sendDeferred _ env rfl)

theorem changes_sendStreamSignal (id code : ℕ) (resetFinalSize : Option ℕ) :
    Changes L t (t.sendStreamSignal env id code resetFinalSize).2 := by
  refine t.changes_control env .application false fun f hf => ?_
  cases resetFinalSize with
  | none => simp_all [Frame.isStream]
  | some size =>
    simp only [Option.map_some,Option.toList_some,cons_append,nil_append,
      mem_cons,not_mem_nil,or_false] at hf
    rcases hf with rfl | rfl <;> rfl

theorem changes_initiatePathValidation (candidate : Address) (token : Octets 8) :
    Changes L t (t.initiatePathValidation env candidate token).2 := by
  rw [initiatePathValidation]
  split_ifs
  · exact .refl
  · refine .head (.path t t.peer (some candidate) (some token) (some env.now)
      t.pathValidationRetries) ?_
    exact changes_control _ env .application false (by simp [Frame.isStream])

theorem changes_checkPathValidationTimeout :
    Changes L t (t.checkPathValidationTimeout env).2 := by
  rw [checkPathValidationTimeout]
  cases t.pathChallengeSent with
  | none => exact .refl
  | some sent =>
    dsimp only
    by_cases htime : env.now-sent < PATH_VALIDATION_TIMEOUT
    · rw [if_pos htime]
    rw [if_neg htime]
    split
    · exact .single (.path t t.peer t.pendingPeer t.pathChallenge none t.pathValidationRetries)
    · exact .refl
    split_ifs
    · refine .head (.path t t.peer t.pendingPeer t.pathChallenge (some env.now)
        (t.pathValidationRetries+1)) ?_
      exact changes_control _ env .application false (by simp [Frame.isStream])
    · exact .single (.path t t.peer none none none 0)

/-! ### Retransmission -/

theorem counted_le_change {t t' : Transport} (h : Change L t t') (id : ℕ) :
    t.counted id ≤ t'.counted id := by
  cases h with
  | send env level frames padInitial retransmits hframes => rw [counted_sendFramesInner]
  | charge _ _ _ _ hcharge _ => exact counted_le_charge hcharge id
  | accept _ _ _ _ haccept _ =>
    obtain ⟨received,streams,rfl⟩ := acceptRange_eq haccept
    exact le_rfl
  | _ => exact le_rfl

theorem counted_le_changes {t t' : Transport} (h : Changes L t t') (id : ℕ) :
    t.counted id ≤ t'.counted id := by
  induction h with
  | refl => exact le_rfl
  | tail _ hchange ih => exact ih.trans (counted_le_change hchange id)

/-- The scan of a space keeps the frames of every packet, and what it collects is in the
    space. -/
structure Sweep.Scans (sent : SentMap) (level : Level) (s : Sweep) : Prop where
  frames : ∀ pn : ℕ, (s.sent[pn]?).map SentPacket.frames = (sent[pn]?).map SentPacket.frames
  expired : ∀ r ∈ s.expired, r.level = level ∧
    (sent[r.number]?).map SentPacket.frames = some r.frames

theorem Sweep.Scans.seen {level : Level} (h : s.Scans sent level) (pn : ℕ) (packet : SentPacket) :
    (s.seen pn packet).Scans sent level := by
  rw [Sweep.seen]
  split_ifs
  · exact ⟨h.frames,h.expired⟩
  · exact h

theorem Sweep.Scans.packet {level : Level} (h : s.Scans sent level) (now lostThreshold : ℕ)
    {packet : SentPacket} (hpacket : sent[pn]? = some packet) :
    (s.packet now lostThreshold level pn packet).2.Scans sent level := by
  have hentry : ∀ retransmits, ∀ r ∈ s.expired ++
      [(⟨pn,level,packet.frames,packet.padInitial,retransmits⟩ : Resend)],
      r.level = level ∧ (sent[r.number]?).map SentPacket.frames = some r.frames := by
    intro retransmits r hr
    rcases mem_append.1 hr with hr | hr
    · exact h.expired r hr
    · rw [mem_singleton.1 hr]
      exact ⟨rfl,by rw [hpacket]; rfl⟩
  rw [Sweep.packet]
  by_cases helicit : ¬ packet.ackEliciting
  · rw [if_pos helicit]
    exact h
  rw [if_neg helicit]
  by_cases hpending : packet.pendingResend
  · rw [if_pos hpending]
    have hnext : Sweep.Scans sent level { s with expired := s.expired ++
        [⟨pn,level,packet.frames,packet.padInitial,packet.retransmits⟩] } :=
      ⟨h.frames,hentry _⟩
    exact hnext.seen pn packet
  rw [if_neg hpending]
  by_cases haged : lostThreshold ≤ now-packet.sentAt
  · rw [if_pos haged]
    split_ifs with hlimit
    · exact h
    refine Sweep.Scans.seen ⟨fun x => ?_,hentry _⟩ pn packet
    rw [OrderedMap.get_insert]
    split_ifs with hx
    · rw [hx,hpacket]
      rfl
    · exact h.frames x
  · rw [if_neg haged]
    exact h.seen pn packet

theorem Sweep.Scans.packets {level : Level} (h : s.Scans sent level) (now lostThreshold : ℕ)
    (packets : List (ℕ × SentPacket)) (hpackets : ∀ p ∈ packets, sent[p.1]? = some p.2) :
    (Sweep.packets now lostThreshold level packets s).2.Scans sent level := by
  induction packets generalizing s with
  | nil => exact h
  | cons p rest ih =>
    obtain ⟨pn,packet⟩ := p
    have hstep := h.packet now lostThreshold (hpackets _ mem_cons_self)
    rw [Sweep.packets]
    generalize s.packet now lostThreshold level pn packet = r at hstep ⊢
    obtain ⟨result,s'⟩ := r
    cases result with
    | error e => exact hstep
    | ok => exact ih hstep fun x hx => hpackets x (mem_cons_of_mem _ hx)

theorem exists_of_map_frames (h : (sent[pn]?).map SentPacket.frames = some frames) :
    ∃ packet, sent[pn]? = some packet ∧ frames = packet.frames := by
  obtain ⟨packet,hpacket,rfl⟩ := Option.map_eq_some_iff.1 h
  exact ⟨packet,hpacket,rfl⟩

theorem scans_packets (sent : SentMap) (now lostThreshold : ℕ) (level : Level) :
    (Sweep.packets now lostThreshold level sent.toList { sent := sent }).2.Scans sent level := by
  have hstart : Sweep.Scans sent level { sent := sent } := ⟨fun _ => rfl,by simp⟩
  exact hstart.packets now lostThreshold _ fun _ hp =>
    ExtTreeMap.mem_toList_iff_getElem?_eq_some.1 hp

/-- One space in `retransmit`: packets leave the map, and those collected to be sent again
    carry licensed frames. -/
theorem changes_level (c : Collected) (now lostThreshold pto : ℕ) (level : Level)
    (hheld : L.Held c.transport) :
    Changes L c.transport (c.level now lostThreshold pto level).2.transport ∧
      ∀ r ∈ (c.level now lostThreshold pto level).2.resend,
        r ∈ c.resend ∨ L.All c.transport.counted r.frames := by
  have hscan := scans_packets (c.transport.spaces level).sent now lostThreshold level
  rw [Collected.level]
  generalize Sweep.packets now lostThreshold level _ _ = swept at hscan ⊢
  obtain ⟨result,s⟩ := swept
  have hmap : ∀ (pn : ℕ) (packet : SentPacket), s.sent[pn]? = some packet →
      ∃ packet', (c.transport.spaces level).sent[pn]? = some packet' ∧
        packet.frames = packet'.frames := by
    intro pn packet hpacket
    refine exists_of_map_frames ?_
    rw [← hscan.frames pn,hpacket]
    rfl
  cases result with
  | error e => exact ⟨.single (.shrink c.transport level s.sent hmap),fun r hr => .inl hr⟩
  | ok =>
    dsimp only
    generalize hrest : s.expired.foldl (fun m r => m.erase r.number) s.sent = rest
    have hget : ∀ (pn : ℕ) (packet : SentPacket), rest[pn]? = some packet →
        s.sent[pn]? = some packet := by
      intro pn packet hpacket
      rw [← hrest,OrderedMap.get_foldl_erase] at hpacket
      split_ifs at hpacket
      exact hpacket
    split
    · next pn packet hprobe =>
      have hprobe : rest[pn]? = some packet := by
        split_ifs at hprobe
        unfold probe at hprobe
        split at hprobe
        · cases hprobe
        split_ifs at hprobe
        split at hprobe
        · cases hprobe
        · next hget =>
          split_ifs at hprobe
          cases hprobe
          exact hget
      refine ⟨.single (.shrink c.transport level _ fun x packet' hx => ?_),fun r hr => ?_⟩
      · rw [OrderedMap.get_erase] at hx
        split_ifs at hx
        exact hmap x packet' (hget x packet' hx)
      · rcases mem_append.1 hr with hr | hr
        · exact .inl hr
        · obtain ⟨packet',hpacket',hframes⟩ := hmap pn packet (hget pn packet hprobe)
          rw [mem_singleton.1 hr]
          exact .inr (hframes ▸ hheld.sent level pn packet' hpacket')
    · refine ⟨.single (.shrink c.transport level _ fun x packet' hx => ?_),fun r hr => ?_⟩
      · exact hmap x packet' (hget x packet' hx)
      · rcases mem_append.1 hr with hr | hr
        · exact .inl hr
        · obtain ⟨packet',hpacket',hframes⟩ := exists_of_map_frames (hscan.expired r hr).2
          exact .inr (hframes ▸ hheld.sent level r.number packet' hpacket')

theorem changes_levels (levels : List Level) (c : Collected) (now lostThreshold pto : ℕ)
    (hheld : L.Held c.transport) (hresend : ∀ r ∈ c.resend, L.All c.transport.counted r.frames) :
    Changes L c.transport (Collected.levels now lostThreshold pto levels c).2.transport ∧
      ∀ r ∈ (Collected.levels now lostThreshold pto levels c).2.resend,
        L.All (Collected.levels now lostThreshold pto levels c).2.transport.counted r.frames := by
  induction levels generalizing c with
  | nil => exact ⟨.refl,hresend⟩
  | cons level levels ih =>
    obtain ⟨hchanges,hcollected⟩ := changes_level c now lostThreshold pto level hheld
    rw [Collected.levels]
    generalize c.level now lostThreshold pto level = r at hchanges hcollected ⊢
    obtain ⟨result,c'⟩ := r
    have hnext : ∀ r ∈ c'.resend, L.All c'.transport.counted r.frames := fun r hr =>
      ((hcollected r hr).elim (hresend r) id).mono (counted_le_changes hchanges)
    cases result with
    | error e => exact ⟨hchanges,hnext⟩
    | ok =>
      obtain ⟨hrest,hlast⟩ := ih c' (hheld.changes hchanges) hnext
      exact ⟨hchanges.trans hrest,hlast⟩

theorem changes_resendAll (resend : List Resend)
    (hresend : ∀ r ∈ resend, L.All t.counted r.frames) :
    Changes L t (resendAll env t resend).2 := by
  induction resend generalizing t with
  | nil => exact .refl
  | cons r rest ih =>
    have hframes := hresend r mem_cons_self
    have hrest : ∀ r ∈ rest, L.All t.counted r.frames :=
      fun x hx => hresend x (mem_cons_of_mem _ hx)
    have hsend : Changes L t (t.sendFramesInner env r.level r.frames r.padInitial r.retransmits).2 :=
      .single (.send t env r.level r.frames r.padInitial r.retransmits hframes)
    have hcounted := t.counted_sendFramesInner env r.level r.frames r.padInitial r.retransmits
    rw [resendAll]
    generalize t.sendFramesInner env r.level r.frames r.padInitial r.retransmits = result
      at hsend hcounted ⊢
    obtain ⟨outcome,u⟩ := result
    cases outcome with
    | ok => exact hsend.trans (ih u (by rw [hcounted]; exact hrest))
    | error e =>
      dsimp only
      split_ifs
      · refine (hsend.tail (.keep u env r (by rw [hcounted]; exact hframes))).trans (ih _ ?_)
        have hkeep : (u.keepForResend env r).counted = t.counted := hcounted
        rw [hkeep]
        exact hrest
      · exact hsend

theorem changes_retransmit (hheld : L.Held t) : Changes L t (t.retransmit env).2 := by
  obtain ⟨hlevels,hresend⟩ := changes_levels [.initial,.handshake,.application]
    { transport := t } env.now (t.lossDetectionThreshold env) (t.ptoTimeout env) hheld (by simp)
  rw [retransmit]
  generalize Collected.levels env.now (t.lossDetectionThreshold env) (t.ptoTimeout env)
    [.initial,.handshake,.application] { transport := t } = result at hlevels hresend ⊢
  obtain ⟨outcome,c⟩ := result
  cases outcome with
  | error e => exact hlevels
  | ok =>
    dsimp only
    generalize hloss : (if c.lost then c.transport.onLoss else c.transport) = u
    have hu : Changes L t u ∧ u.counted = c.transport.counted := by
      rw [← hloss]
      split_ifs
      · exact ⟨hlevels.tail (.estimate _ _ _ _ _ _),rfl⟩
      · exact ⟨hlevels,rfl⟩
    have hall := u.changes_resendAll env c.resend (by rw [hu.2]; exact hresend)
    refine t.changes_andThen (hu.1.trans hall) ?_
    exact changes_flushQueuedFrom _ env _ (hheld.changes (hu.1.trans hall)).queued

/-! ### Receiving -/

theorem changes_ack (level : Level) (largest : ℕ) (ranges : List (ℕ × ℕ)) :
    Changes L l.transport (l.ack now level largest ranges).2.transport := by
  have hshrink : ∀ (pn : ℕ) (packet : SentPacket),
      (acknowledge (l.transport.spaces level).sent (l.transport.spaces level).largestSent largest
        ranges now).2[pn]? = some packet → ∃ packet',
        (l.transport.spaces level).sent[pn]? = some packet' ∧ packet.frames = packet'.frames := by
    intro pn packet hpacket
    refine ⟨packet,?_,rfl⟩
    rw [acknowledge] at hpacket
    split_ifs at hpacket
    · exact hpacket
    · rw [acknowledgeFrom_getElem] at hpacket
      split_ifs at hpacket
      exact hpacket
  rw [FrameLoop.ack]
  generalize acknowledge _ _ largest ranges now = r at hshrink ⊢
  obtain ⟨result,sent⟩ := r
  have hspace : Changes L l.transport (l.transport.modifySpace level fun s =>
      { s with
        largestAcked := some (s.largestAcked.elim largest (max · largest)), sent := sent }) := by
    refine .head (.shrink l.transport level sent hshrink) (.head (.acked _ level
      (some ((l.transport.spaces level).largestAcked.elim largest (max · largest)))) ?_)
    rw [modifySpace_modifySpace]
    exact .refl
  cases result with
  | error e => exact hspace
  | ok acked => exact hspace.tail (.logged _ _)

def DecodedLimits (f : Frame) : Prop := ∀ limit, f = .maxData limit → limit ≤ Varint.MAX

theorem changes_apply (level : Level) {f : Frame} (hdecoded : DecodedLimits f) :
    Changes L l.transport (l.apply now level f).2.transport := by
  cases f with
  | ack largest delay ranges ecn => exact changes_ack l now level largest ranges
  | maxData limit => exact .single (.peerMaxData l.transport limit (hdecoded limit rfl))
  | maxStreams unidirectional limit =>
    simp only [FrameLoop.apply]
    split_ifs
    · exact .refl
    · exact .single (.peerMaxStreams l.transport l.transport.peerMaxStreamsBidi _)
    · exact .single (.peerMaxStreams l.transport _ l.transport.peerMaxStreamsUni)
  | maxStreamData id limit => exact .single (.peerStreamLimit l.transport id limit)
  | _ => exact .refl

theorem changes_applyAll (level : Level) (frames : List Frame)
    (hdecoded : ∀ f ∈ frames, DecodedLimits f) :
    Changes L l.transport (FrameLoop.applyAll now level frames l).2.transport := by
  induction frames generalizing l with
  | nil => exact .refl
  | cons f frames ih =>
    have hstep := changes_apply (L := L) l now level (hdecoded f mem_cons_self)
    rw [FrameLoop.applyAll]
    generalize l.apply now level f = r at hstep ⊢
    obtain ⟨result,l'⟩ := r
    cases result with
    | error e => exact hstep
    | ok => exact hstep.trans (ih l' fun x hx => hdecoded x (mem_cons_of_mem _ hx))

theorem exists_flags_scheduleAck :
    ∃ pending deadline, t.scheduleAck env level = t.withFlags level pending deadline := by
  cases hpending : (t.spaces level).ackPending with
  | false =>
    refine ⟨true,none,t.modifySpace_congr ?_⟩
    simp [hpending]
  | true =>
    cases hdeadline : (t.spaces level).ackDeadline with
    | none =>
      refine ⟨_,_,(t.modifySpace_of_eq ?_).trans (t.withFlags_self level).symm⟩
      simp [hpending,hdeadline]
    | some deadline =>
      by_cases hlate : env.now < deadline
      · refine ⟨true,some (env.now+t.currentAckDelay env),t.modifySpace_congr ?_⟩
        simp [hpending,hdeadline,hlate]
      · refine ⟨_,_,(t.modifySpace_of_eq ?_).trans (t.withFlags_self level).symm⟩
        simp [hpending,hdeadline,hlate]

theorem changes_detectLostPackets : Changes L t (t.detectLostPackets env level) := by
  simp only [detectLostPackets]
  split_ifs
  · exact .refl
  refine .head (.shrink t level _ fun pn packet hpacket => ⟨packet,?_,rfl⟩)
    (.single (.estimate _ _ _ _ _ _))
  rw [OrderedMap.get_foldl_erase] at hpacket
  split_ifs at hpacket
  exact hpacket

theorem changes_sampleRtt (sample : Option ℕ) : Changes L t (t.sampleRtt sample) := by
  unfold sampleRtt
  split
  · exact .refl
  · split
    · exact .single (.estimate t _ _ _ _ _)
    · exact .single (.estimate t _ _ _ _ _)

theorem changes_onAcknowledgement (bytes : ℕ) (sample : Option ℕ) (level : Level) :
    Changes L t (t.onAcknowledgement env bytes sample level) :=
  ((t.changes_sampleRtt sample).tail (.estimate _ _ _ _ _ _)).trans
    (changes_detectLostPackets _ env level)

theorem changes_applyFrames (frames : List Frame) (hdecoded : ∀ f ∈ frames, DecodedLimits f) :
    Changes L t (t.applyFrames env level frames).2 := by
  have hloop := changes_applyAll (L := L) { transport := t } env.now level frames hdecoded
  rw [applyFrames]
  generalize FrameLoop.applyAll env.now level frames { transport := t } = r at hloop ⊢
  obtain ⟨result,l⟩ := r
  cases result with
  | error e => exact hloop
  | ok =>
    have hack : Changes L t (if frames.any Frame.isAckEliciting then l.transport.scheduleAck env level
        else l.transport) := by
      split_ifs
      · obtain ⟨pending,deadline,h⟩ := l.transport.exists_flags_scheduleAck env level
        rw [h]
        exact hloop.tail (.flags _ level pending deadline)
      · exact hloop
    dsimp only
    generalize (if frames.any Frame.isAckEliciting then l.transport.scheduleAck env level
      else l.transport) = u at hack ⊢
    split_ifs
    · exact hack.trans (u.changes_onAcknowledgement env _ _ level)
    · exact hack

theorem decoded_of_decodeQuicFramesFrom {count : ℕ} {buf : List UInt8}
    (h : decodeQuicFramesFrom count buf = .ok frames) : ∀ f ∈ frames, DecodedLimits f := by
  fun_induction decodeQuicFramesFrom count buf generalizing frames with
  | case1 =>
    cases h
    simp
  | case2 | case3 | case4 | case5 => cases h
  | case6 count buf _ _ frame used hdecode _ rest hrest ih =>
    rw [← Except.ok.inj h]
    intro f hf
    rcases mem_cons.1 hf with rfl | hf
    · intro limit hlimit
      exact Frame.maxData_le_of_decode (hlimit ▸ hdecode)
    · exact ih hrest f hf

theorem changes_openNew : Changes L (t.recordPacket p p.number) (t.openNew env p p.number).2 := by
  rw [openNew]
  cases hdecode : decodeQuicFrames p.payload with
  | error e => exact .refl
  | ok frames =>
    have hdecoded : ∀ f ∈ frames, DecodedLimits f := by
      rw [decodeQuicFrames] at hdecode
      split_ifs at hdecode
      exact decoded_of_decodeQuicFramesFrom hdecode
    have happly : Changes L (t.recordPacket p p.number) _ :=
      (t.recordPacket p p.number).changes_applyFrames env p.level frames hdecoded
    dsimp only
    generalize (t.recordPacket p p.number).applyFrames env p.level frames = r at happly ⊢
    obtain ⟨result,u⟩ := r
    cases result with
    | error | ok => exact happly

theorem openPacketWithKey_eq {p : Packet} {key : PacketKey} {expected : ℕ} {phase : Option Bool}
    (h : openPacketWithKey p key expected phase = some pn) :
    p.key = key ∧ pn = p.number ∧ phase.all (· = p.phase) = true := by
  simp only [openPacketWithKey] at h
  split_ifs at h with hphase hopen
  exact ⟨hopen.1,(hopen.2.trans (Option.some.inj h)).symm,hphase⟩

def followed (p : Packet) : Transport :=
  match t.unprotect p with
  | some (_, true) => t.followKeyPhase
  | _ => t

/-- A packet that opens has its own number, and the key that sealed it is the receive key,
    of the next phase when that one was followed. -/
theorem unprotect_eq {p : Packet} {next : Bool} (h : t.unprotect p = some (pn,next)) :
    pn = p.number ∧ ∃ key, t.receiveKey p.level = some key ∧
      match next with
      | false => p.key = key ∧ (p.level = .application → p.phase = t.applicationRecvPhase)
      | true => p.level = .application ∧ p.key = key.nextKeyPhase ∧
          p.phase = !t.applicationRecvPhase := by
  rw [unprotect] at h
  split at h
  · cases h
  next key hkey =>
  split at h
  swap
  · cases h
  dsimp only at h
  split at h
  · next pn' hopen =>
    cases h
    obtain ⟨hsealed,hnumber,hphase⟩ := openPacketWithKey_eq hopen
    refine ⟨hnumber,key,hkey,hsealed,fun hlevel => ?_⟩
    rw [if_pos hlevel] at hphase
    exact (by simpa using hphase : t.applicationRecvPhase = p.phase).symm
  · split_ifs at h with hlevel
    obtain ⟨pn',hnext,hpn⟩ := Option.map_eq_some_iff.1 h
    cases hpn
    obtain ⟨hsealed,hnumber,hphase⟩ := openPacketWithKey_eq hnext
    refine ⟨hnumber,key,hkey,hlevel,hsealed,?_⟩
    exact (by simpa using hphase : (!t.applicationRecvPhase) = p.phase).symm

/-- The application keys move on: each direction keeps its key or takes the next one. -/
def KeyUpdate (t t' : Transport) : Prop :=
  ∃ recv send sendPhase recvPhase pending packets,
    t' = { t with
      applicationRecv := recv, applicationSend := send, applicationSendPhase := sendPhase,
      applicationRecvPhase := recvPhase, sendUpdatePending := pending,
      keyPhasePackets := packets } ∧
    (recv = t.applicationRecv ∨ recv = t.applicationRecv.map PacketKey.nextKeyPhase) ∧
    (send = t.applicationSend ∨ send = t.applicationSend.map PacketKey.nextKeyPhase)

theorem KeyUpdate.refl : KeyUpdate t t := ⟨_,_,_,_,_,_,rfl, .inl rfl, .inl rfl⟩

theorem keyUpdate_maybeKeyUpdate : KeyUpdate t (t.maybeKeyUpdate env) := by
  rw [maybeKeyUpdate]
  split_ifs
  · exact .refl t
  cases hkey : t.applicationSend with
  | none => exact .refl t
  | some key => exact ⟨_,_,_,_,_,_,rfl,.inl rfl,.inr (by rw [hkey]; rfl)⟩

theorem exists_mirrorSendKey : ∃ send phase,
    t.mirrorSendKey = { t with applicationSend := send, applicationSendPhase := phase } ∧
      (send = t.applicationSend ∨ send = t.applicationSend.map PacketKey.nextKeyPhase) := by
  rw [mirrorSendKey]
  split_ifs
  · exact ⟨_,_,rfl,.inl rfl⟩
  cases hkey : t.applicationSend with
  | none => exact ⟨_,_,rfl,.inl hkey⟩
  | some key => exact ⟨_,_,rfl,.inr rfl⟩

theorem applicationRecv_followKeyPhase :
    t.followKeyPhase.applicationRecv = t.applicationRecv.map PacketKey.nextKeyPhase := by
  obtain ⟨send,phase,heq,-⟩ := exists_mirrorSendKey { t with
    applicationRecv := t.applicationRecv.map PacketKey.nextKeyPhase
    applicationRecvPhase := !t.applicationRecvPhase }
  rw [followKeyPhase,heq]

theorem keyUpdate_followKeyPhase : KeyUpdate t t.followKeyPhase := by
  obtain ⟨send,phase,heq,hsend⟩ := exists_mirrorSendKey { t with
    applicationRecv := t.applicationRecv.map PacketKey.nextKeyPhase
    applicationRecvPhase := !t.applicationRecvPhase }
  rw [followKeyPhase,heq]
  exact ⟨_,_,_,_,_,_,rfl,.inr rfl,hsend⟩

theorem keyUpdate_followed : KeyUpdate t (t.followed p) := by
  rw [followed]
  split
  · exact t.keyUpdate_followKeyPhase
  · exact .refl t

/-- New keys and parameters touch neither the frames nor the counters. -/
structure Rekeyed (t t' : Transport) : Prop where
  spaces : t'.spaces = t.spaces
  hist : t'.hist = t.hist
  queued : t'.queuedStreams = t.queuedStreams
  sentData : t'.sentData = t.sentData
  sentStreamData : t'.sentStreamData = t.sentStreamData
  receivedData : t'.receivedData = t.receivedData
  receivedStreamData : t'.receivedStreamData = t.receivedStreamData

theorem KeyUpdate.rekeyed {t t' : Transport} (h : KeyUpdate t t') : Rekeyed t t' := by
  obtain ⟨_,_,_,_,_,_,rfl,-⟩ := h
  exact ⟨rfl,rfl,rfl,rfl,rfl,rfl,rfl⟩

theorem receiveKey_followed {p : Packet} {r : ℕ × Bool} (h : t.unprotect p = some r) :
    (t.followed p).receiveKey p.level = some p.key := by
  obtain ⟨pn,next⟩ := r
  obtain ⟨-,key,hkey,hnext⟩ := t.unprotect_eq h
  rw [followed,h]
  cases next with
  | false => rw [hkey,hnext.1]
  | true =>
    obtain ⟨hlevel,hsealed,-⟩ := hnext
    rw [hlevel] at hkey
    have hkey : t.applicationRecv = some key := hkey
    rw [hlevel,hsealed]
    change t.followKeyPhase.applicationRecv = _
    rw [applicationRecv_followKeyPhase,hkey]
    rfl

/-- The ways a call of `open` can end. -/
inductive Opens (env : Env) (t : Transport) (p : Packet) :
    Except Error (Option Opened) × Transport → Prop
  /-- no key opens the packet -/
  | closed (h : t.unprotect p = none) : Opens env t p (.ok none, t)
  /-- its number is remembered -/
  | again (next : Bool) (h : t.unprotect p = some (p.number, next))
    (hseen : (t.spaces p.level).received.contains p.number = true) :
    Opens env t p ((t.followed p).openAgain env p.level p.number)
  /-- its number is new -/
  | fresh (next : Bool) (h : t.unprotect p = some (p.number, next))
    (hkey : (t.followed p).receiveKey p.level = some p.key)
    (hnew : (t.spaces p.level).received.contains p.number = false) :
    Opens env t p ((t.followed p).openNew env p p.number)

theorem Opens.of_open : Opens env t p (t.open env p) := by
  rw [Transport.open]
  cases hopen : t.unprotect p with
  | none => exact .closed hopen
  | some r =>
    obtain ⟨pn,next⟩ := r
    obtain ⟨rfl,-⟩ := t.unprotect_eq hopen
    have hfollowed : (if next then t.followKeyPhase else t) = t.followed p := by
      rw [followed,hopen]
      cases next <;> rfl
    have hreceive := t.receiveKey_followed hopen
    have hspaces := (t.keyUpdate_followed p).rekeyed.spaces
    dsimp only
    rw [hfollowed]
    cases hseen : (t.spaces p.level).received.contains p.number with
    | true =>
      rw [if_pos (by rw [hspaces,hseen])]
      exact .again next hopen hseen
    | false =>
      rw [if_neg (by rw [hspaces,hseen]; simp)]
      exact .fresh next hopen hreceive hseen

theorem changes_open (hrecords : L.records) : Changes L (t.followed p) (t.open env p).2 := by
  have h := Opens.of_open t env p
  generalize t.open env p = r at h ⊢
  cases h with
  | closed h => rw [followed,h]
  | again next h hseen => exact .single (.flags _ p.level true _)
  | fresh next h hkey hnew =>
    refine .head (.record _ p hkey ?_ hrecords) (changes_openNew _ env p)
    rw [(t.keyUpdate_followed p).rekeyed.spaces]
    exact hnew

theorem changes_acceptStreamData (id offset length : ℕ) (hreceives : L.receives) :
    Changes L t (t.acceptStreamData id offset length).2 := by
  rw [acceptStreamData]
  split_ifs
  · exact .refl
  cases hid : t.acceptStreamId id with
  | error e => exact .refl
  | ok u =>
    have hu : Changes L t u := by
      simp only [acceptStreamId] at hid
      split_ifs at hid <;> cases hid
      · exact .single (.receivedStreams t t.receivedStreamsBidi _)
      · exact .single (.receivedStreams t _ t.receivedStreamsUni)
      · exact .refl
    dsimp only
    cases hrange : u.acceptRange id offset length with
    | error e => exact hu
    | ok v => exact hu.tail (.accept u v id offset length hrange hreceives)

/-- A Retry is discarded, or it comes to a client that has seen none and has only its Initial
    keys, and the transport starts again. -/
theorem onRetry_cases (dcid token : List UInt8) : t.onRetry dcid token = t ∨
    t.server = false ∧ t.retrySeen = false ∧ t.handshakeSend = none ∧ t.applicationSend = none ∧
      t.onRetry dcid token =
        t.restart dcid token ⟨.initial dcid false,0⟩ ⟨.initial dcid true,0⟩ := by
  rw [onRetry]
  split_ifs with hkeys
  · exact .inl rfl
  rw [applyRetry]
  split_ifs with hdiscard hmalformed
  · exact .inl rfl
  · exact .inl rfl
  have hlen : ¬ (dcid = [] ∨ 20 < dcid.length) := by tauto
  obtain ⟨hserver,hseen⟩ : t.server = false ∧ t.retrySeen = false := by simpa using hdiscard
  obtain ⟨hnone,hnone'⟩ : t.handshakeSend = none ∧ t.applicationSend = none := by
    simpa using hkeys
  refine .inr ⟨hserver,hseen,hnone,hnone',?_⟩
  simp only [PacketKey.initial,if_neg hlen]

/-! ### Every call -/

theorem start_eq {localCid remoteCid initialDcid : List UInt8} {server : Bool} {window : ℕ}
    (h : Transport.start localCid remoteCid initialDcid server window = .ok t) :
    t = Transport.new localCid remoteCid initialDcid server ⟨.initial initialDcid server,0⟩
      ⟨.initial initialDcid !server,0⟩ window := by
  simp only [Transport.start,PacketKey.initial] at h
  split_ifs at h
  · cases h
  · exact (Except.ok.inj h).symm

def rekey (t : Transport) : Op → Transport
  | .setHandshakeKeys recv send => t.setHandshakeKeys recv send
  | .setApplicationKeys recv send => t.setApplicationKeys recv send
  | .setPeerTransport parameters => t.setPeerTransport parameters
  | .setLocalTransport parameters => t.setLocalTransport parameters
  | .retry dcid token => t.onRetry dcid token
  | .receive _ p => t.followed p
  | .maybeKeyUpdate env => t.maybeKeyUpdate env
  | _ => t

def Op.Free (L : License) : Op → Prop
  | .sendStream _ id _ | .sendStreamAppend _ id _ | .queueStreamWire id _
  | .sendRequestChunks _ id _ _ => L.free id
  | .acceptStreamData .. => L.receives
  | .receive .. => L.records
  | _ => True

theorem changes_step (op : Op) (hheld : L.Held (t.rekey op)) (hfree : op.Free L) :
    Changes L (t.rekey op) (t.step op) := by
  cases op with
  | receive env p => exact t.changes_open env p hfree
  | acceptStreamData id offset length => exact t.changes_acceptStreamData id offset length hfree
  | sendCrypto env level bytes =>
    change Changes L t (t.sendCrypto env level bytes).2
    rw [sendCrypto]
    split_ifs
    · exact .refl
    · exact t.changes_sendCryptoFrom env level _
  | sendStream env id bytes => exact t.changes_sendStreamChunk env false hfree fun _ => rfl
  | sendStreamAppend env id bytes =>
    change Changes L t (t.sendStreamAppend env .application id bytes).2
    rw [sendStreamAppend]
    split_ifs with hbytes
    · exact .refl
    · exact t.changes_sendStreamChunk env false hfree fun h => absurd h hbytes
  | queueStreamWire id wire =>
    change Changes L t (t.queueStreamWire id wire).2
    simp only [queueStreamWire]
    split_ifs
    · exact .refl
    · exact .refl
    refine .single (.queue t _ fun q hq => ?_)
    rcases mem_append.1 hq with hq | hq
    · exact hheld.queued q hq
    · rw [mem_singleton.1 hq]
      exact hfree
  | sendRequestChunks env id wire offset => exact t.changes_sendRequestChunks env wire offset hfree
  | sendStreamSignal env id code size => exact t.changes_sendStreamSignal env id code size
  | sendConnectionClose env code frameType reason =>
    exact t.changes_control env _ _ (by simp [Frame.isStream])
  | initiatePathValidation env candidate token =>
    exact t.changes_initiatePathValidation env candidate token
  | handlePathChallenge env token =>
    exact t.changes_control env .application false (by simp [Frame.isStream])
  | handlePathResponse token source =>
    change Changes L t (t.handlePathResponse token source)
    rw [handlePathResponse]
    split_ifs
    · exact .refl
    · exact .single (.path t (some source) none none none t.pathValidationRetries)
  | checkPathValidationTimeout env => exact t.changes_checkPathValidationTimeout env
  | flushAcks env =>
    exact t.changes_andThen
      (t.changes_andThen (t.changes_flushAck env .initial) (changes_flushAck _ env .handshake))
      (changes_flushAck _ env .application)
  | replenishConnectionWindow env => exact t.changes_replenishConnectionWindow env
  | replenishStreamWindows env => exact t.changes_replenishStreamWindows env
  | replenishStreamLimits env =>
    exact t.changes_andThen (t.changes_raiseStreamCount env false _)
      (changes_raiseStreamCount _ env true _)
  | retransmit env => exact t.changes_retransmit env hheld
  | setHandshakeKeys | setApplicationKeys | setPeerTransport | setLocalTransport | retry
  | maybeKeyUpdate => exact .refl

theorem changes_step_any (op : Op) : Changes License.any (t.rekey op) (t.step op) :=
  t.changes_step op ⟨fun _ _ _ _ _ _ => trivial,fun _ _ _ _ _ => trivial,fun _ _ => trivial⟩
    (by cases op <;> exact trivial)

/-! ### Licences and counters under new keys -/

theorem rekeyed_rekey {op : Op} (h : ∀ dcid token, op ≠ .retry dcid token) :
    Rekeyed t (t.rekey op) := by
  cases op with
  | retry dcid token => exact absurd rfl (h dcid token)
  | receive env p => exact (t.keyUpdate_followed p).rekeyed
  | maybeKeyUpdate env => exact (t.keyUpdate_maybeKeyUpdate env).rekeyed
  | _ => exact ⟨rfl,rfl,rfl,rfl,rfl,rfl,rfl⟩

end Transport

theorem License.Held.rekeyed {L : License} {t t' : Transport} (h : L.Held t)
    (hr : Transport.Rekeyed t t') : L.Held t' :=
  h.of_eq (fun level => by rw [hr.spaces]) (by rw [hr.hist]) hr.queued fun id => by
    rw [Transport.counted,Transport.counted,hr.sentStreamData]

end Courierust.Quic
