import Courierust.Lib.Run
import Courierust.Quic.Calls

/-!
# Packets that arrive again

A space remembers the numbers it received in a set that is trimmed from below once it holds
`MAX_RECEIVED` of them. A number that was trimmed reads as new, so a packet below a full set
is processed again. Short of that, and as long as keys and spaces are not set back under
packets that were opened with them, a packet is processed once.
-/

namespace Courierust.Quic

open List
open Std (ExtTreeSet)

/-! ### The set of received numbers -/

def PacketSpace.Forgotten (s : PacketSpace) (n : ℕ) : Prop :=
  MAX_RECEIVED ≤ s.received.size ∧ ∀ x ∈ s.received.toList, n < x

instance (s : PacketSpace) (n : ℕ) : Decidable (s.Forgotten n) :=
  inferInstanceAs (Decidable (_ ∧ _))

namespace Transport

variable {n : ℕ}

theorem remember_of_size_lt {received : ExtTreeSet ℕ} (hnew : n ∉ received)
    (hsize : received.size < MAX_RECEIVED) : remember received n = received.insert n := by
  have hcontains : received.contains n = false := by
    rwa [Bool.eq_false_iff,ne_eq,ExtTreeSet.contains_iff_mem]
  rw [remember,if_neg]
  rw [ExtTreeSet.size_insert,hcontains]
  simpa using hsize

theorem exists_remember_eq_erase {received : ExtTreeSet ℕ} (hnew : n ∉ received)
    (hsize : MAX_RECEIVED ≤ received.size) :
    ∃ first, remember received n = (received.insert n).erase first ∧
      first ∈ received.insert n ∧ (∀ x ∈ received.insert n, first ≤ x) ∧
      (remember received n).size = received.size := by
  have hcontains : received.contains n = false := by
    rwa [Bool.eq_false_iff,ne_eq,ExtTreeSet.contains_iff_mem]
  have hgrown : (received.insert n).size = received.size+1 := by
    rw [ExtTreeSet.size_insert,hcontains]
    rfl
  cases hmin : (received.insert n).min? with
  | none =>
    rw [ExtTreeSet.min?_eq_none_iff] at hmin
    rw [hmin] at hgrown
    simp at hgrown
  | some first =>
    obtain ⟨hmem,hle⟩ := ExtTreeSet.min?_eq_some_iff_mem_and_forall.1 hmin
    have heq : remember received n = (received.insert n).erase first := by
      rw [remember,if_pos (by rw [hgrown]; exact Nat.lt_succ_of_le hsize),hmin]
    refine ⟨first,heq,hmem,fun x hx => Nat.isLE_compare.1 (hle x hx),?_⟩
    rw [heq,ExtTreeSet.size_erase,ExtTreeSet.contains_iff_mem.2 hmem,if_pos rfl,hgrown]
    rfl

theorem remember_or_forgotten {s s' : PacketSpace} {m : ℕ} (hnew : n ∉ s.received)
    (hwindow : ¬ s.Forgotten n) (hreceived : s'.received = remember s.received n)
    (hm : m = n ∨ m ∈ s.received ∨ s.Forgotten m) : m ∈ s'.received ∨ s'.Forgotten m := by
  rw [PacketSpace.Forgotten,hreceived]
  by_cases hsize : s.received.size < MAX_RECEIVED
  · rw [remember_of_size_lt hnew hsize]
    rcases hm with rfl | hm | hm
    · exact .inl (by simp)
    · exact .inl (by simp [hm])
    · exact absurd hm.1 (not_le.2 hsize)
  obtain ⟨first,heq,hfirst,hle,hkept⟩ := exists_remember_eq_erase hnew (not_lt.1 hsize)
  have hfull : MAX_RECEIVED ≤ (remember s.received n).size := hkept ▸ not_lt.1 hsize
  have hin : ∀ x, x ∈ remember s.received n ↔ first ≠ x ∧ (x = n ∨ x ∈ s.received) := by
    intro x
    rw [heq,ExtTreeSet.mem_erase,ExtTreeSet.mem_insert]
    simp only [ne_eq,Nat.compare_eq_eq,eq_comm (a := n)]
  by_cases hold : m = n ∨ m ∈ s.received
  · by_cases hdropped : first = m
    · refine .inr ⟨hfull,fun x hx => ?_⟩
      obtain ⟨hne,hx⟩ := (hin x).1 (ExtTreeSet.mem_toList.1 hx)
      have hmem : x ∈ s.received.insert n := by
        rw [ExtTreeSet.mem_insert,Nat.compare_eq_eq]
        exact hx.imp_left Eq.symm
      exact hdropped ▸ lt_of_le_of_ne (hle x hmem) hne
    · exact .inl ((hin m).2 ⟨hdropped,hold⟩)
  · -- A number trimmed before is below a remembered one that the new number does not precede.
    have hm : s.Forgotten m := by tauto
    have hbelow : m < n := by
      by_contra hge
      exact hwindow ⟨hm.1,fun x hx => lt_of_le_of_lt (not_lt.1 hge) (hm.2 x hx)⟩
    refine .inr ⟨hfull,fun x hx => ?_⟩
    rcases ((hin x).1 (ExtTreeSet.mem_toList.1 hx)).2 with rfl | hx
    · exact hbelow
    · exact hm.2 x (ExtTreeSet.mem_toList.2 hx)

/-! ### What the receive side remembers -/

structure Unread (t t' : Transport) : Prop where
  received : ∀ level, (t'.spaces level).received = (t.spaces level).received
  largest : ∀ level, (t'.spaces level).largestReceived = (t.spaces level).largestReceived
  opened : t'.hist.opened = t.hist.opened
  earlier : t'.hist.earlier = t.hist.earlier
  localCid : t'.localCid = t.localCid

namespace Unread

variable {t t' t'' : Transport}

theorem refl (t : Transport) : Unread t t := ⟨fun _ => rfl,fun _ => rfl,rfl,rfl,rfl⟩

theorem trans (h : Unread t t') (h' : Unread t' t'') : Unread t t'' where
  received := fun level => (h'.received level).trans (h.received level)
  largest := fun level => (h'.largest level).trans (h.largest level)
  opened := h'.opened.trans h.opened
  earlier := h'.earlier.trans h.earlier
  localCid := h'.localCid.trans h.localCid

theorem modifySpace (t : Transport) (level : Level) {f : PacketSpace → PacketSpace}
    (hreceived : (f (t.spaces level)).received = (t.spaces level).received)
    (hlargest : (f (t.spaces level)).largestReceived = (t.spaces level).largestReceived) :
    Unread t (t.modifySpace level f) :=
  ⟨t.modifySpace_frame (·.received) hreceived,t.modifySpace_frame (·.largestReceived) hlargest,
    rfl,rfl,rfl⟩

theorem withFlags (t : Transport) (level : Level) (pending : Bool) (deadline : Option ℕ) :
    Unread t (t.withFlags level pending deadline) :=
  modifySpace t level rfl rfl

theorem ready (t : Transport) (level : Level) (pending : Bool) (deadline : Option ℕ) :
    Unread t (t.ready level pending deadline) := by
  have hnumber : Unread t (t.takeNumber level) := modifySpace t level rfl rfl
  exact hnumber.trans (withFlags _ level pending deadline)

theorem recordSent (t : Transport) (env : Env) (level : Level) (pn wire : ℕ)
    (frames : List Frame) (padInitial : Bool) (retransmits : ℕ) :
    Unread t (t.recordSent env level pn wire frames padInitial retransmits) := by
  rw [Transport.recordSent]
  refine ⟨modifySpace_frame _ (·.received) ?_,modifySpace_frame _ (·.largestReceived) ?_,rfl,rfl,
    rfl⟩
  all_goals
    split_ifs <;> rfl

theorem sendFramesInner (t : Transport) (env : Env) (level : Level) (frames : List Frame)
    (padInitial : Bool) (retransmits : ℕ) :
    Unread t (t.sendFramesInner env level frames padInitial retransmits).2 := by
  have h := Sends.of_sendFramesInner t env level frames padInitial retransmits
  generalize t.sendFramesInner env level frames padInitial retransmits = r at h ⊢
  have hready := Unread.ready t level
  have hhand : ∀ (u : Transport) packet frames', Unread u (u.handWire env packet frames') :=
    fun _ _ _ => ⟨fun _ => rfl,fun _ => rfl,rfl,rfl,rfl⟩
  cases h with
  | unnumbered e pending deadline => exact withFlags t level pending deadline
  | refused e pending deadline => exact hready pending deadline
  | blocked e pending deadline => exact (hready pending deadline).trans (hhand _ _ _)
  | sent pending deadline =>
    exact ((hready pending deadline).trans (hhand _ _ _)).trans (recordSent _ env level _ _ _ _ _)

end Unread

end Transport

open Transport

def License.unread : License := { License.any with records := False }

variable {t t' : Transport}

theorem Change.unread (h : Change License.unread t t') : Unread t t' := by
  cases h with
  | send env level frames padInitial retransmits hframes =>
    exact .sendFramesInner t env level frames padInitial retransmits
  | charge _ id offset length hcharge _ =>
    obtain ⟨-,-,rfl⟩ := charge_eq hcharge
    exact ⟨fun _ => rfl,fun _ => rfl,rfl,rfl,rfl⟩
  | accept _ id offset length haccept _ =>
    obtain ⟨received,streams,rfl⟩ := acceptRange_eq haccept
    exact ⟨fun _ => rfl,fun _ => rfl,rfl,rfl,rfl⟩
  | record p hkey hnew hrecords => exact hrecords.elim
  | flags | shrink | acked => exact .modifySpace t _ rfl rfl
  | keep env r hframes =>
    rw [keepForResend]
    exact .modifySpace t _ rfl rfl
  | _ => exact ⟨fun _ => rfl,fun _ => rfl,rfl,rfl,rfl⟩

theorem Changes.unread (h : Changes License.unread t t') : Unread t t' := by
  induction h with
  | refl => exact .refl t
  | tail _ hchange ih => exact ih.trans hchange.unread

/-! ### The property -/

def Packet.Same (p q : Packet) : Prop := p.level = q.level ∧ p.key = q.key ∧ p.number = q.number

namespace Transport

def Ignored (t : Transport) (env : Env) (p : Packet) : Prop :=
  t.open env p = (.ok none, t) ∨
    ∃ deadline, t.open env p =
      (.ok (some ⟨p.level, p.number, []⟩), t.withFlags p.level true deadline)

structure ProcessedOnce (t : Transport) : Prop where
  /-- in a space each number is taken as new once -/
  once : t.hist.opened.Pairwise fun p q => ¬ (p.level = q.level ∧ p.number = q.number)
  /-- also across a Retry no packet is taken as new twice -/
  apart : (t.hist.earlier ++ t.hist.opened).Pairwise fun p q => ¬ p.Same q
  /-- `open` returns frames of packets it takes as new -/
  returned : ∀ (env : Env) (p : Packet) (o : Opened), (t.open env p).1 = .ok (some o) →
    o.frames ≠ [] → (t.open env p).2.hist.opened = t.hist.opened ++ [p]
  /-- a packet that arrives again is ignored -/
  replayed : ∀ (env : Env) (p : Packet), (∃ q ∈ t.hist.earlier ++ t.hist.opened, p.Same q) →
    ¬ (t.spaces p.level).Forgotten p.number → t.Ignored env p

/-- The call loses no record of an opened packet: an arriving packet is not below everything
    a full space remembers, application keys are not set back after an update, and a Retry
    that can still be applied brings other Initial keys. -/
def Retains (t : Transport) : Op → Prop
  | .receive _ p => ¬ (t.spaces p.level).Forgotten p.number
  | .setApplicationKeys .. => t.applicationRecv.all (·.generation = 0)
  | .retry dcid _ => t.retrySeen ∨ dcid ≠ t.initialDcid
  | _ => True

instance (t : Transport) (op : Op) : Decidable (t.Retains op) := by
  induction op using Op.casesOn with
  | receive _ p => exact inferInstanceAs (Decidable (¬ (t.spaces p.level).Forgotten p.number))
  | setApplicationKeys =>
    exact inferInstanceAs (Decidable (t.applicationRecv.all (·.generation = 0) = true))
  | retry dcid _ => exact inferInstanceAs (Decidable (t.retrySeen ∨ dcid ≠ t.initialDcid))
  | _ => exact instDecidableTrue

end Transport

/-! ### The invariant -/

structure ReplayInvariant (t : Transport) : Prop where
  once : t.hist.opened.Pairwise fun p q => ¬ (p.level = q.level ∧ p.number = q.number)
  remembered : ∀ p ∈ t.hist.opened,
    p.number ∈ (t.spaces p.level).received ∨ (t.spaces p.level).Forgotten p.number
  initial : ∀ p ∈ t.hist.opened, p.level = .initial → p.key = t.initialRecv
  generation : ∀ p ∈ t.hist.opened, p.level = .application →
    ∃ key, t.applicationRecv = some key ∧ p.key.generation ≤ key.generation
  keyed : ∀ p ∈ t.hist.opened, p.level ≠ .initial →
    t.handshakeSend.isSome ∨ t.applicationSend.isSome
  handshakeKeys : t.handshakeRecv.isSome → t.handshakeSend.isSome
  applicationKeys : t.applicationRecv.isSome → t.applicationSend.isSome
  initialKey : t.initialRecv = ⟨.initial t.initialDcid !t.server, 0⟩
  /-- before a Retry only Initial packets can have been opened, under other keys -/
  earlier : ∀ p ∈ t.hist.earlier, p.level = .initial ∧ p.key ≠ t.initialRecv
  earlierOnce : t.hist.earlier.Pairwise fun p q => ¬ (p.level = q.level ∧ p.number = q.number)
  first : t.retrySeen = false → t.hist.earlier = []

namespace ReplayInvariant

section

variable (h : ReplayInvariant t)
include h

theorem of_unread (hu : Unread t t') (hk : t'.keyring = t.keyring) :
    ReplayInvariant t' := by
  have hforgotten : ∀ level n, (t.spaces level).Forgotten n → (t'.spaces level).Forgotten n := by
    intro level n hf
    rw [PacketSpace.Forgotten,hu.received]
    exact hf
  simp only [keyring,Keyring.mk.injEq] at hk
  constructor
  · rw [hu.opened]
    exact h.once
  · rw [hu.opened]
    intro p hp
    rw [hu.received]
    exact (h.remembered p hp).imp_right (hforgotten _ _)
  · simp only [hu.opened,hk]
    exact h.initial
  · simp only [hu.opened,hk]
    exact h.generation
  · simp only [hu.opened,hk]
    exact h.keyed
  · simp only [hk]
    exact h.handshakeKeys
  · simp only [hk]
    exact h.applicationKeys
  · simp only [hk]
    exact h.initialKey
  · simp only [hu.earlier,hk]
    exact h.earlier
  · rw [hu.earlier]
    exact h.earlierOnce
  · simp only [hu.earlier,hk]
    exact h.first

theorem rekeyApplication {recv send : Option PacketKey}
    {sendPhase recvPhase pending : Bool} {packets : ℕ}
    (hrecv : ∀ key, t.applicationRecv = some key →
      ∃ key', recv = some key' ∧ ∀ p ∈ t.hist.opened, p.key.generation ≤ key.generation →
        p.level = .application → p.key.generation ≤ key'.generation)
    (hkeys : recv.isSome → send.isSome) (hsend : t.applicationSend.isSome → send.isSome) :
    ReplayInvariant { t with
      applicationRecv := recv, applicationSend := send, applicationSendPhase := sendPhase,
      applicationRecvPhase := recvPhase, sendUpdatePending := pending,
      keyPhasePackets := packets } :=
  { h with
    generation := fun p hp hlevel => by
      obtain ⟨key,hkey,hle⟩ := h.generation p hp hlevel
      obtain ⟨key',hkey',hle'⟩ := hrecv key hkey
      exact ⟨key',hkey',hle' p hp hle hlevel⟩
    keyed := fun p hp hlevel => (h.keyed p hp hlevel).imp_right hsend
    applicationKeys := hkeys }

theorem keyUpdate (hu : KeyUpdate t t') : ReplayInvariant t' := by
  obtain ⟨recv,send,_,_,_,_,rfl,hrecv,hsend⟩ := hu
  have hrecvSome : recv.isSome = t.applicationRecv.isSome := by
    rcases hrecv with rfl | rfl
    · rfl
    · exact Option.isSome_map
  have hsendSome : send.isSome = t.applicationSend.isSome := by
    rcases hsend with rfl | rfl
    · rfl
    · exact Option.isSome_map
  refine h.rekeyApplication (fun key hkey => ?_) ?_ hsendSome.ge
  · rcases hrecv with rfl | rfl
    · exact ⟨key,hkey,fun _ _ hle _ => hle⟩
    · exact ⟨key.nextKeyPhase,by rw [hkey]; rfl,fun _ _ hle _ => hle.trans (Nat.le_succ _)⟩
  · rw [hrecvSome,hsendSome]
    exact h.applicationKeys

theorem setApplicationKeys {recv send : List UInt8}
    (hzero : t.applicationRecv.all (·.generation = 0)) :
    ReplayInvariant (t.setApplicationKeys recv send) := by
  refine h.rekeyApplication (fun key hkey => ⟨_,rfl,fun p _ hle _ => ?_⟩) (fun _ => rfl)
    fun _ => rfl
  rw [hkey] at hzero
  have hgeneration : key.generation = 0 := by simpa using hzero
  exact hgeneration ▸ hle

/-- A Retry sets the spaces back, and what was opened before was opened with other keys. -/
theorem onRetry {dcid token : List UInt8}
    (hfresh : t.retrySeen = true ∨ dcid ≠ t.initialDcid) :
    ReplayInvariant (t.onRetry dcid token) := by
  rcases t.onRetry_cases dcid token with hsame | ⟨hserver,hseen,hnone,hnone',hrestart⟩
  · rw [hsame]
    exact h
  rw [hrestart]
  have hdcid : dcid ≠ t.initialDcid := hfresh.resolve_left (by simp [hseen])
  have hinitial : ∀ p ∈ t.hist.opened, p.level = .initial := by
    intro p hp
    by_contra hlevel
    have hkeyed := h.keyed p hp hlevel
    rw [hnone,hnone'] at hkeyed
    simp at hkeyed
  have hearlier : (t.restart dcid token ⟨.initial dcid false,0⟩
      ⟨.initial dcid true,0⟩).hist.earlier = t.hist.opened := by
    change t.hist.earlier ++ t.hist.opened = _
    rw [h.first hseen,nil_append]
  refine ⟨.nil,forall_mem_nil _,forall_mem_nil _,forall_mem_nil _,forall_mem_nil _,
    (fun hsome => by cases hsome),(fun hsome => by cases hsome),?_,?_,?_,?_⟩
  · change _ = (⟨.initial dcid !t.server,0⟩ : PacketKey)
    rw [hserver]
    rfl
  · rw [hearlier]
    intro p hp
    refine ⟨hinitial p hp,?_⟩
    rw [h.initial p hp (hinitial p hp),h.initialKey]
    intro heq
    have hroot := congrArg PacketKey.root heq
    exact hdcid (KeyRoot.initial.inj hroot).1.symm
  · rw [hearlier]
    exact h.once
  · intro hfirst
    cases hfirst

end

variable {p : Packet}

/-- A packet that is in no remembered number and not below a full space was not opened. -/
theorem not_opened (h : ReplayInvariant t) (hnew : p.number ∉ (t.spaces p.level).received)
    (hwindow : ¬ (t.spaces p.level).Forgotten p.number) :
    ∀ q ∈ t.hist.opened, ¬ (q.level = p.level ∧ q.number = p.number) := by
  rintro q hq ⟨hlevel,hnumber⟩
  have hremembered := h.remembered q hq
  rw [hlevel,hnumber] at hremembered
  exact hremembered.elim hnew hwindow

theorem recordPacket (h : ReplayInvariant t) (hkey : t.receiveKey p.level = some p.key)
    (hnew : p.number ∉ (t.spaces p.level).received)
    (hwindow : ¬ (t.spaces p.level).Forgotten p.number) :
    ReplayInvariant (t.recordPacket p p.number) := by
  have hopened : ∀ {q}, q ∈ (t.recordPacket p p.number).hist.opened → q ∈ t.hist.opened ∨ q = p :=
    fun hq => (mem_append.1 hq).imp_right mem_singleton.1
  refine { h with once := ?_, remembered := ?_, initial := ?_, generation := ?_, keyed := ?_ }
  · change (t.hist.opened ++ [p]).Pairwise _
    rw [pairwise_append]
    refine ⟨h.once,pairwise_singleton _ _,fun q hq q' hq' => ?_⟩
    rw [mem_singleton.1 hq']
    exact h.not_opened hnew hwindow q hq
  · intro q hq
    by_cases hlevel : q.level = p.level
    · have hspace : ((t.recordPacket p p.number).spaces p.level).received =
          remember (t.spaces p.level).received p.number := by
        simp [Transport.recordPacket]
      rw [hlevel]
      refine remember_or_forgotten hnew hwindow hspace ?_
      rcases hopened hq with hold | rfl
      · exact .inr (hlevel ▸ h.remembered q hold)
      · exact .inl rfl
    · have hspace : (t.recordPacket p p.number).spaces q.level = t.spaces q.level := by
        simp only [Transport.recordPacket,Function.update_of_ne hlevel]
      rw [hspace]
      rcases hopened hq with hold | rfl
      · exact h.remembered q hold
      · exact absurd rfl hlevel
  · intro q hq hlevel
    rcases hopened hq with hold | rfl
    · exact h.initial q hold hlevel
    · rw [hlevel] at hkey
      exact (Option.some.inj hkey).symm
  · intro q hq hlevel
    rcases hopened hq with hold | rfl
    · exact h.generation q hold hlevel
    · rw [hlevel] at hkey
      exact ⟨q.key,hkey,le_rfl⟩
  · intro q hq hlevel
    rcases hopened hq with hold | rfl
    · exact h.keyed q hold hlevel
    cases hspace : q.level with
    | initial => exact absurd hspace hlevel
    | handshake =>
      rw [hspace] at hkey
      have hkey : t.handshakeRecv = some q.key := hkey
      exact .inl (h.handshakeKeys (by rw [hkey]; rfl))
    | application =>
      rw [hspace] at hkey
      have hkey : t.applicationRecv = some q.key := hkey
      exact .inr (h.applicationKeys (by rw [hkey]; rfl))

theorem «open» (h : ReplayInvariant t) (env : Env)
    (hwindow : ¬ (t.spaces p.level).Forgotten p.number) : ReplayInvariant (t.open env p).2 := by
  have hspaces := (t.keyUpdate_followed p).rekeyed.spaces
  have hopens := Opens.of_open t env p
  generalize t.open env p = r at hopens ⊢
  cases hopens with
  | closed => exact h
  | again next hopen hseen =>
    exact (h.keyUpdate (t.keyUpdate_followed p)).of_unread (.withFlags _ p.level true _) rfl
  | fresh next hopen hkey hnew =>
    have hrecord : ReplayInvariant ((t.followed p).recordPacket p p.number) := by
      refine (h.keyUpdate (t.keyUpdate_followed p)).recordPacket hkey ?_ ?_
      · rw [hspaces,← ExtTreeSet.contains_iff_mem,hnew]
        simp
      · rw [hspaces]
        exact hwindow
    have hchanges : Changes License.unread ((t.followed p).recordPacket p p.number) _ :=
      (t.followed p).changes_openNew env p
    exact hrecord.of_unread hchanges.unread hchanges.keyring

theorem step (h : ReplayInvariant t) {op : Op} (hretains : t.Retains op) :
    ReplayInvariant (t.step op) := by
  by_cases hreceive : ∃ env p, op = .receive env p
  · obtain ⟨env,p,rfl⟩ := hreceive
    exact h.open env hretains
  have hrekey : ReplayInvariant (t.rekey op) := by
    cases op with
    | setHandshakeKeys recv send =>
      exact { h with
        keyed := fun _ _ _ => .inl rfl
        handshakeKeys := fun _ => rfl }
    | setApplicationKeys recv send => exact h.setApplicationKeys hretains
    | setPeerTransport | setLocalTransport =>
      exact h.of_unread ⟨fun _ => rfl,fun _ => rfl,rfl,rfl,rfl⟩ rfl
    | retry dcid token => exact h.onRetry (by simpa [Retains] using hretains)
    | receive env p => exact absurd ⟨env,p,rfl⟩ hreceive
    | maybeKeyUpdate env => exact h.keyUpdate (t.keyUpdate_maybeKeyUpdate env)
    | _ => exact h
  have hfree : op.Free License.unread := by
    cases op with
    | receive env p => exact absurd ⟨env,p,rfl⟩ hreceive
    | _ => exact trivial
  have hheld : License.unread.Held (t.rekey op) :=
    ⟨fun _ _ _ _ _ _ => trivial,fun _ _ _ _ _ => trivial,fun _ _ => trivial⟩
  have hchanges := t.changes_step op hheld hfree
  exact hrekey.of_unread hchanges.unread hchanges.keyring

theorem of_start {localCid remoteCid initialDcid : List UInt8} {server : Bool} {window : ℕ}
    (hstart : Transport.start localCid remoteCid initialDcid server window = .ok t) :
    ReplayInvariant t := by
  obtain rfl := t.start_eq hstart
  exact
    { once := .nil
      remembered := forall_mem_nil _
      initial := forall_mem_nil _
      generation := forall_mem_nil _
      keyed := forall_mem_nil _
      handshakeKeys := fun hsome => by cases hsome
      applicationKeys := fun hsome => by cases hsome
      initialKey := rfl
      earlier := forall_mem_nil _
      earlierOnce := .nil
      first := fun _ => rfl }

theorem followed_eq (h : ReplayInvariant t) (hq : ∃ q ∈ t.hist.earlier ++ t.hist.opened, p.Same q) :
    t.followed p = t := by
  obtain ⟨q,hq,hlevel,hkey,-⟩ := hq
  rw [Transport.followed]
  split
  next pn hopen =>
    obtain ⟨-,key,hreceive,happlication,hsealed,-⟩ := t.unprotect_eq hopen
    rw [happlication] at hlevel hreceive
    have hreceive : t.applicationRecv = some key := hreceive
    rcases mem_append.1 hq with hearlier | hopened
    · rw [(h.earlier q hearlier).1] at hlevel
      cases hlevel
    · obtain ⟨key',hkey',hle⟩ := h.generation q hopened hlevel.symm
      rw [hreceive] at hkey'
      rw [← hkey,hsealed,← Option.some.inj hkey'] at hle
      exact absurd hle (Nat.not_succ_le_self _)
  next => rfl

theorem replayed (h : ReplayInvariant t) (env : Env)
    (hq : ∃ q ∈ t.hist.earlier ++ t.hist.opened, p.Same q)
    (hwindow : ¬ (t.spaces p.level).Forgotten p.number) : t.Ignored env p := by
  have hfollowed := h.followed_eq hq
  have hopens := Opens.of_open t env p
  rw [Ignored]
  generalize t.open env p = r at hopens ⊢
  cases hopens with
  | closed => exact .inl rfl
  | again next hopen hseen =>
    rw [hfollowed]
    exact .inr ⟨_,rfl⟩
  | fresh next hopen hkey hnew =>
    obtain ⟨q,hq,hlevel,hsealed,hnumber⟩ := hq
    rw [hfollowed] at hkey
    rcases mem_append.1 hq with hearlier | hopened
    · obtain ⟨hinitial,hne⟩ := h.earlier q hearlier
      rw [hlevel,hinitial] at hkey
      exact absurd (hsealed.symm.trans (Option.some.inj hkey).symm) hne
    · have hunknown : p.number ∉ (t.spaces p.level).received := by
        rw [← ExtTreeSet.contains_iff_mem,hnew]
        simp
      exact absurd ⟨hlevel.symm,hnumber.symm⟩ (h.not_opened hunknown hwindow q hopened)

theorem processedOnce (h : ReplayInvariant t) : t.ProcessedOnce where
  once := h.once
  apart := by
    have hsame : ∀ {p q : Packet}, ¬ (p.level = q.level ∧ p.number = q.number) → ¬ p.Same q :=
      fun hne hsame => hne ⟨hsame.1,hsame.2.2⟩
    rw [pairwise_append]
    refine ⟨h.earlierOnce.imp hsame,h.once.imp hsame,fun p hp q hq hsame => ?_⟩
    obtain ⟨hinitial,hne⟩ := h.earlier p hp
    exact hne (hsame.2.1.trans (h.initial q hq (hsame.1 ▸ hinitial)))
  returned := fun env p o => by
    have hhist := (t.keyUpdate_followed p).rekeyed.hist
    have hopens := Opens.of_open t env p
    revert hopens
    generalize t.open env p = r
    intro hopens hresult hframes
    cases hopens with
    | closed => cases hresult
    | again => exact absurd (congrArg Opened.frames (Option.some.inj (Except.ok.inj hresult))).symm hframes
    | fresh =>
      have hchanges : Changes License.unread ((t.followed p).recordPacket p p.number) _ :=
        (t.followed p).changes_openNew env p
      rw [hchanges.unread.opened,← hhist]
      rfl
  replayed := fun env _ hq hwindow => h.replayed env hq hwindow

end ReplayInvariant

/-- In every run whose calls lose no record of an opened packet, no packet is processed
    twice. -/
theorem processed_once {localCid remoteCid initialDcid : List UInt8} {server : Bool}
    {window : ℕ} {t : Transport}
    (hstart : Transport.start localCid remoteCid initialDcid server window = .ok t)
    (ops : List Op) (hretains : Run.Along Transport.step Retains t ops) :
    (Run.run Transport.step t ops).ProcessedOnce :=
  (Run.invariant (fun _ _ h hok => h.step hok)
    (ReplayInvariant.of_start hstart) hretains).processedOnce

/-! ### A replay below a full set -/

/-- A PING from the peer of `establishedClient`. -/
def ping (n : ℕ) : Packet where
  level := .application
  dcid := [1]
  scid := []
  key := ⟨.application [5], 0⟩
  phase := false
  number := n
  numberLen := 4
  payload := [1]

theorem processed_once_pings :
    (Run.run Transport.step (Transport.new [1] [2] [3] false ⟨.initial [3] false, 0⟩
      ⟨.initial [3] true, 0⟩ 12000) [.setApplicationKeys [5] [6], .receive { now := 0 } (ping 0),
        .receive { now := 1 } (ping 2), .receive { now := 2 } (ping 0)]).ProcessedOnce :=
  @processed_once [1] [2] [3] false 12000 _ rfl _ (by decide +kernel)

/-- The client has received the PINGs below `n`. -/
structure Pinged (n : ℕ) (t : Transport) : Prop where
  keyring : t.keyring = establishedClient.keyring
  localCid : t.localCid = [1]
  largest : (t.spaces .application).largestReceived = if n = 0 then none else some (n - 1)
  size : (t.spaces .application).received.size = min n MAX_RECEIVED
  received : ∀ k, k ∈ (t.spaces .application).received ↔ k < n ∧ n ≤ k + MAX_RECEIVED
  opened : t.hist.opened = (List.range n).map ping

namespace Pinged

theorem zero : Pinged 0 establishedClient where
  keyring := rfl
  localCid := rfl
  largest := rfl
  size := rfl
  received := fun k => by simp [establishedClient,setApplicationKeys,new]
  opened := rfl

variable {n k : ℕ}

theorem decodePn_eq (hk : k ≤ n) (hn : n ≤ MAX_RECEIVED+1) : decodePn (k%256^4) n 4 = k := by
  simp only [MAX_RECEIVED] at hn
  exact Packet.decodePn_near (by decide) (by omega) (by omega) (by omega)

theorem unprotect (h : Pinged n t) (hk : k ≤ n) (hn : n ≤ MAX_RECEIVED+1) :
    t.unprotect (ping k) = some (k,false) := by
  have hrecv := congrArg Keyring.applicationRecv h.keyring
  have hphase : t.applicationRecvPhase = false := congrArg Keyring.applicationRecvPhase h.keyring
  have hexpected : (((t.spaces .application).largestReceived.map (satAdd · 1)).getD 0) = n := by
    rw [h.largest]
    simp only [MAX_RECEIVED] at hn
    split_ifs with hzero
    · exact hzero.symm
    · simp only [Option.map_some,Option.getD_some,satAdd,u64Max]
      omega
  have hopen : openPacketWithKey (ping k) ⟨.application [5],0⟩ n (some false) = some k := by
    simp only [openPacketWithKey,ping,decodePn_eq hk hn]
    simp
  have haddressed : t.addressed (ping k) = true := by
    simp [addressed,ping,h.localCid]
  have hkey : t.receiveKey (ping k).level = some ⟨.application [5],0⟩ := hrecv
  have hlevel : (ping k).level = .application := rfl
  rw [Transport.unprotect,hkey]
  simp only [haddressed,hlevel,if_true,hexpected,hphase,hopen]

theorem exists_record (h : Pinged n t) (hk : k ≤ n) (hn : n ≤ MAX_RECEIVED+1)
    (hnew : k ∉ (t.spaces .application).received) (env : Env) :
    Unread (t.recordPacket (ping k) k) (t.open env (ping k)).2 ∧
      (t.open env (ping k)).2.keyring = t.keyring := by
  have hunprotect := h.unprotect hk hn
  have hfollowed : t.followed (ping k) = t := by
    rw [followed,hunprotect]
  have hopens := Opens.of_open t env (ping k)
  generalize t.open env (ping k) = r at hopens ⊢
  cases hopens with
  | closed hnone => cases hunprotect.symm.trans hnone
  | again next hopen hseen => exact absurd (ExtTreeSet.contains_iff_mem.1 hseen) hnew
  | fresh next hopen hkey hcontains =>
    have hchanges : Changes License.unread ((t.followed (ping k)).recordPacket (ping k) k) _ :=
      (t.followed (ping k)).changes_openNew env (ping k)
    rw [hfollowed] at hchanges ⊢
    exact ⟨hchanges.unread,hchanges.keyring⟩

theorem step (h : Pinged n t) (hn : n ≤ MAX_RECEIVED) (env : Env) :
    Pinged (n+1) (t.open env (ping n)).2 := by
  have hnew : n ∉ (t.spaces .application).received := fun hmem =>
    absurd ((h.received n).1 hmem).1 (lt_irrefl n)
  obtain ⟨hunread,hkeyring⟩ := h.exists_record le_rfl (hn.trans (Nat.le_succ _)) hnew env
  have hreceived : ((t.open env (ping n)).2.spaces .application).received =
    remember (t.spaces .application).received n := hunread.received .application
  constructor
  · exact hkeyring.trans h.keyring
  · exact hunread.localCid.trans h.localCid
  · rw [hunread.largest .application]
    change (Function.update t.spaces .application _ .application).largestReceived = _
    rw [Function.update_self,if_neg n.succ_ne_zero]
    change (if (t.spaces .application).largestReceived.all (· < n) then some n else _) = _
    rw [if_pos,Nat.add_sub_cancel]
    rw [h.largest]
    split_ifs with hzero
    · rfl
    · simpa using Nat.sub_one_lt hzero
  · rw [hreceived]
    by_cases hsize : (t.spaces .application).received.size < MAX_RECEIVED
    · rw [remember_of_size_lt hnew hsize,ExtTreeSet.size_insert,if_neg]
      · rw [h.size] at hsize ⊢
        omega
      · rwa [ExtTreeSet.contains_iff_mem]
    · obtain ⟨first,-,-,-,hkept⟩ := exists_remember_eq_erase hnew (not_lt.1 hsize)
      rw [hkept]
      rw [h.size] at hsize ⊢
      omega
  · intro k
    have hinsert : ∀ x, x ∈ (t.spaces .application).received.insert n ↔
        x ≤ n ∧ n ≤ x+MAX_RECEIVED := by
      intro x
      rw [ExtTreeSet.mem_insert,Nat.compare_eq_eq,h.received]
      omega
    rw [hreceived]
    by_cases hsize : (t.spaces .application).received.size < MAX_RECEIVED
    · rw [remember_of_size_lt hnew hsize,hinsert]
      rw [h.size] at hsize
      omega
    obtain ⟨first,heq,hfirst,hle,-⟩ := exists_remember_eq_erase hnew (not_lt.1 hsize)
    rw [h.size] at hsize
    have hlow := hle (n-MAX_RECEIVED) ((hinsert _).2 (by omega))
    rw [heq,ExtTreeSet.mem_erase,hinsert,ne_eq,Nat.compare_eq_eq]
    omega
  · rw [hunread.opened]
    change t.hist.opened ++ [ping n] = _
    rw [h.opened,range_succ,map_append]
    rfl

theorem run (env : Env) (hn : n ≤ MAX_RECEIVED+1) :
    Pinged n (Run.run Transport.step establishedClient
      ((List.range n).map fun k => .receive env (ping k))) := by
  induction n with
  | zero => exact .zero
  | succ n ih =>
    rw [range_succ,map_append,Run.run_append]
    exact (ih (by omega)).step (by omega) env

theorem reopened (h : Pinged (MAX_RECEIVED+1) t) (env : Env) :
    ¬ (Run.run Transport.step t [.receive env (ping 0)]).ProcessedOnce := by
  intro hp
  have hp : (t.open env (ping 0)).2.ProcessedOnce := hp
  have hnew : 0 ∉ (t.spaces .application).received := by
    rw [h.received]
    omega
  have honce := hp.once
  rw [(h.exists_record (Nat.zero_le _) le_rfl hnew env).1.opened] at honce
  change (t.hist.opened ++ [ping 0]).Pairwise _ at honce
  rw [h.opened,pairwise_append] at honce
  refine honce.2.2 (ping 0) ?_ (ping 0) (mem_singleton_self _) ⟨rfl,rfl⟩
  exact mem_map_of_mem (mem_range.2 (Nat.succ_pos _))

end Pinged

/-- The packets 0 to 8192 arrive in order, and then the first one again: it is taken as new a
    second time. -/
theorem forgotten_packet_reopened :
    ¬ (Run.run Transport.step establishedClient ((List.range (MAX_RECEIVED + 1) ++ [0]).map
      fun n => .receive { now := 0 } (ping n))).ProcessedOnce := by
  rw [map_append,Run.run_append,map_singleton]
  exact (Pinged.run { now := 0 } le_rfl).reopened { now := 0 }

end Courierust.Quic
