import Courierust.Lib.Run
import Courierust.Quic.Calls

/-!
# Key-phase agreement

Two endpoints exchange 1-RTT packets over a network that loses, delays, duplicates and
reorders them. An endpoint starts a key update unless one of its own is pending, and
follows an update of its peer when a packet of the next phase opens. A pending update also
counts as confirmed when the peer's own update arrives, although the peer may have seen
nothing of it yet; a second update is then one too many for the receiver.
-/

namespace Courierust.Quic

open Transport

/-! ### Two endpoints -/

structure Link where
  client : Transport
  server : Transport

namespace Link

/-- The end on one side; `true` is the server's. -/
def side (l : Link) : Bool → Transport
  | false => l.client
  | true => l.server

def set (l : Link) (s : Bool) (t : Transport) : Link :=
  match s with
  | false => { l with client := t }
  | true => { l with server := t }

@[simp] theorem side_set (l : Link) (s s' : Bool) (t : Transport) :
    (l.set s t).side s' = if s' = s then t else l.side s' := by
  cases s <;> cases s' <;> rfl

inductive Op where
  /-- one end makes a call that is no arrival -/
  | call (s : Bool) (op : Transport.Op)
  /-- a packet that the peer's socket took arrives, for the first time or again -/
  | deliver (s : Bool) (env : Env) (i : ℕ)
  /-- a packet that was not sealed with the peer's keys arrives -/
  | inject (s : Bool) (env : Env) (p : Packet)

def isLocal : Transport.Op → Bool
  | .receive .. | .setApplicationKeys .. => false
  | _ => true

def foreign (t : Transport) (p : Packet) : Bool :=
  t.applicationRecv.all fun key => key.root ≠ p.key.root

def step (l : Link) : Op → Link
  | .call s op => if isLocal op then l.set s ((l.side s).step op) else l
  | .deliver s env i =>
    match (l.side !s).hist.handed[i]? with
    | some h => if h.result = .sent then l.set s ((l.side s).open env h.packet).2 else l
    | none => l
  | .inject s env p =>
    if foreign (l.side s) p then l.set s ((l.side s).open env p).2 else l

/-- The handshake is complete: each end has the keys of both directions, and no 1-RTT packet
    was sealed yet. -/
structure Established (l : Link) (secret : Bool → List UInt8) : Prop where
  sendKey : ∀ s, (l.side s).applicationSend = some ⟨.application (secret s), 0⟩
  recvKey : ∀ s, (l.side s).applicationRecv = some ⟨.application (secret !s), 0⟩
  sendPhase : ∀ s, (l.side s).applicationSendPhase = false
  recvPhase : ∀ s, (l.side s).applicationRecvPhase = false
  pending : ∀ s, (l.side s).sendUpdatePending = false
  unsent : ∀ s, ∀ h ∈ (l.side s).hist.handed, h.packet.level ≠ .application

/-- In each direction the sender is at the receiver's generation or one ahead; a packet is
    opened with the key that sealed it, and one that does not open changes nothing. -/
structure Agrees (l : Link) : Prop where
  generation : ∀ s, ∃ send recv, (l.side s).applicationSend = some send ∧
    (l.side !s).applicationRecv = some recv ∧ send.root = recv.root ∧
      (send.generation = recv.generation ∨ send.generation = recv.generation + 1)
  opened : ∀ s (env : Env) (p : Packet) (r : ℕ × Bool), (l.side s).unprotect p = some r →
    ((l.side s).open env p).2.receiveKey p.level = some p.key
  closed : ∀ s (env : Env) (p : Packet), (l.side s).unprotect p = none →
    (l.side s).open env p = (.ok none, l.side s)

def Confirmed (l : Link) : Op → Prop
  | .call s (.maybeKeyUpdate env) =>
    (l.side s).sendUpdatePending ∨ (l.side s).keyPhasePackets < env.keyUpdateThreshold ∨
      (l.side !s).applicationRecv.map PacketKey.generation =
        (l.side s).applicationSend.map PacketKey.generation
  | _ => True

instance (l : Link) (op : Op) : Decidable (l.Confirmed op) := by
  unfold Confirmed
  split <;> infer_instance

end Link

/-! ### The keys of one end -/

/-- An end that seals under generation `send` and opens under generation `recv`. -/
structure Keyed (own peer : List UInt8) (send recv : ℕ) (t : Transport) : Prop where
  sendKey : t.applicationSend = some ⟨.application own, send⟩
  recvKey : t.applicationRecv = some ⟨.application peer, recv⟩
  sendPhase : t.applicationSendPhase = send.bodd
  recvPhase : t.applicationRecvPhase = recv.bodd
  /-- an end is one update ahead exactly while its own update is pending -/
  ahead : send = recv + t.sendUpdatePending.toNat
  flight : ∀ h ∈ t.hist.handed, h.packet.level = .application →
    h.packet.key.root = .application own ∧ h.packet.key.generation ≤ send

namespace Keyed

variable {own peer : List UInt8} {send recv : ℕ} {t t' : Transport}

section

variable (h : Keyed own peer send recv t)
include h

theorem change {L : License} (hchange : Change L t t') :
    Keyed own peer send recv t' := by
  have hk := hchange.keyring
  refine ⟨(congrArg Keyring.applicationSend hk).trans h.sendKey,
    (congrArg Keyring.applicationRecv hk).trans h.recvKey,
    (congrArg Keyring.applicationSendPhase hk).trans h.sendPhase,
    (congrArg Keyring.applicationRecvPhase hk).trans h.recvPhase,?_,?_⟩
  · simp only [keyring,Keyring.mk.injEq] at hk
    simp only [hk]
    exact h.ahead
  rcases hchange.send_or_steady with ⟨env,level,frames,padInitial,retransmits,-,rfl⟩ | hs
  · obtain ⟨new,hn⟩ := exists_hands_sendFramesInner t env level frames padInitial retransmits
    rw [hn.handed]
    intro entry hentry hlevel
    rcases List.mem_append.1 hentry with hold | hnew
    · exact h.flight entry hold hlevel
    · have hkey := hn.key entry hnew
      rw [hlevel,Transport.sendKey,h.sendKey] at hkey
      rw [← Except.ok.inj hkey]
      exact ⟨rfl,le_rfl⟩
  · rw [hs.handed]
    exact h.flight

theorem changes {L : License} (hchanges : Changes L t t') :
    Keyed own peer send recv t' := by
  induction hchanges with
  | refl => exact h
  | tail _ hchange ih => exact ih.change hchange

theorem maybeKeyUpdate (env : Env) :
    t.maybeKeyUpdate env = t ∨
      ¬ (t.sendUpdatePending ∨ t.keyPhasePackets < env.keyUpdateThreshold) ∧
        Keyed own peer (send+1) recv (t.maybeKeyUpdate env) := by
  rw [Transport.maybeKeyUpdate]
  by_cases hdue : t.sendUpdatePending ∨ t.keyPhasePackets < env.keyUpdateThreshold
  · exact .inl (if_pos hdue)
  rw [if_neg hdue,h.sendKey]
  refine .inr ⟨hdue,rfl,h.recvKey,?_,h.recvPhase,?_,fun entry hentry hlevel => ?_⟩
  · rw [h.sendPhase,Nat.bodd_succ]
  · have hahead := h.ahead
    rw [show t.sendUpdatePending = false by simpa using (not_or.1 hdue).1] at hahead
    rw [hahead]
    rfl
  · obtain ⟨hroot,hle⟩ := h.flight entry hentry hlevel
    exact ⟨hroot,hle.trans (Nat.le_succ _)⟩

/-- An end that follows its peer's update has both directions at the peer's generation. -/
theorem followKeyPhase :
    Keyed own peer (recv+1) (recv+1) t.followKeyPhase := by
  have hhist := t.keyUpdate_followKeyPhase.rekeyed.hist
  have hflight : ∀ entry ∈ t.followKeyPhase.hist.handed, entry.packet.level = .application →
      entry.packet.key.root = .application own ∧ entry.packet.key.generation ≤ recv+1 := by
    rw [hhist]
    intro entry hentry hlevel
    obtain ⟨hroot,hle⟩ := h.flight entry hentry hlevel
    refine ⟨hroot,hle.trans ?_⟩
    rw [h.ahead]
    exact Nat.add_le_add_left (Bool.toNat_le _) _
  have hrecv : t.followKeyPhase.applicationRecv = some ⟨.application peer,recv+1⟩ := by
    rw [applicationRecv_followKeyPhase,h.recvKey]
    rfl
  have hphase : (!t.applicationRecvPhase) = (recv+1).bodd := by
    rw [h.recvPhase,Nat.bodd_succ]
  cases hpending : t.sendUpdatePending with
  | false =>
    -- Both directions were at the same phase, so the send keys follow.
    have hsend : send = recv := by simpa [hpending] using h.ahead
    have hdiffer : t.applicationSendPhase ≠ !t.applicationRecvPhase := by
      rw [h.sendPhase,h.recvPhase,hsend]
      cases recv.bodd <;> decide
    simp only [Transport.followKeyPhase,mirrorSendKey,if_neg hdiffer,h.sendKey] at hrecv hflight ⊢
    exact ⟨by rw [hsend]; rfl,hrecv,hphase,hphase,by simp,hflight⟩
  | true =>
    -- Our own update is the one the peer follows, and it is no longer pending.
    have hsend : send = recv+1 := by simpa [hpending] using h.ahead
    have hsame : t.applicationSendPhase = !t.applicationRecvPhase := by
      rw [h.sendPhase,hsend,hphase]
    simp only [Transport.followKeyPhase,mirrorSendKey,if_pos hsame] at hrecv hflight ⊢
    exact ⟨by rw [← hsend]; exact h.sendKey,hrecv,hsame.trans hphase,hphase,
      by simp,hflight⟩

theorem followed (p : Packet) :
    t.followed p = t ∨ p.level = .application ∧ p.key = ⟨.application peer,recv+1⟩ ∧
      Keyed own peer (recv+1) (recv+1) (t.followed p) := by
  rw [Transport.followed]
  split
  next pn hopen =>
    obtain ⟨-,key,hkey,hlevel,hsealed,-⟩ := t.unprotect_eq hopen
    rw [hlevel] at hkey
    have hkey : t.applicationRecv = some key := hkey
    rw [h.recvKey] at hkey
    refine .inr ⟨hlevel,?_,h.followKeyPhase⟩
    rw [hsealed,← Option.some.inj hkey]
    rfl
  next => exact .inl rfl

theorem call {op : Transport.Op}
    (hlocal : Link.isLocal op = true) :
    Keyed own peer send recv (t.step op) ∨
      ∃ env, op = .maybeKeyUpdate env ∧
        ¬ (t.sendUpdatePending ∨ t.keyPhasePackets < env.keyUpdateThreshold) ∧
        Keyed own peer (send+1) recv (t.step op) := by
  have hchanges := t.changes_step_any op
  cases op with
  | receive | setApplicationKeys => cases hlocal
  | setHandshakeKeys | setPeerTransport | setLocalTransport =>
    exact .inl ⟨h.sendKey,h.recvKey,h.sendPhase,h.recvPhase,h.ahead,h.flight⟩
  | retry dcid token =>
    refine .inl ?_
    change Keyed own peer send recv (t.onRetry dcid token)
    rw [onRetry,if_pos (.inr (by rw [h.sendKey]; rfl))]
    exact h
  | maybeKeyUpdate env =>
    change Keyed own peer send recv (t.maybeKeyUpdate env) ∨ _
    rcases h.maybeKeyUpdate env with hsame | ⟨hdue,hnext⟩
    · rw [hsame]
      exact .inl h
    · exact .inr ⟨env,rfl,hdue,hnext⟩
  | _ => exact .inl (h.changes hchanges)

end

end Keyed

/-! ### Both ends -/

/-- The generations of both ends, and in each direction the sender at most one ahead. -/
structure PhaseInvariant (secret : Bool → List UInt8) (l : Link) (send recv : Bool → ℕ) : Prop where
  keyed : ∀ s, Keyed (secret s) (secret !s) (send s) (recv s) (l.side s)
  across : ∀ s, send s = recv (!s) ∨ send s = recv (!s) + 1

namespace PhaseInvariant

variable {secret : Bool → List UInt8} {l : Link} {send recv : Bool → ℕ}

section

variable (h : PhaseInvariant secret l send recv)
include h

theorem own (s : Bool) :
    send s = recv s ∨ send s = recv s+1 := by
  have hahead := (h.keyed s).ahead
  cases hpending : (l.side s).sendUpdatePending with
  | false => exact .inl (by simpa [hpending] using hahead)
  | true => exact .inr (by simpa [hpending] using hahead)

theorem set {s : Bool} {t : Transport} {x y : ℕ}
    (hkeyed : Keyed (secret s) (secret !s) x y t)
    (hsend : x = recv (!s) ∨ x = recv (!s)+1) (hrecv : send (!s) = y ∨ send (!s) = y+1) :
    PhaseInvariant secret (l.set s t) (Function.update send s x) (Function.update recv s y) where
  keyed := fun s' => by
    rw [Link.side_set]
    by_cases hs : s' = s
    · subst hs
      rw [if_pos rfl,Function.update_self,Function.update_self]
      exact hkeyed
    · rw [if_neg hs,Function.update_of_ne hs,Function.update_of_ne hs]
      exact h.keyed s'
  across := fun s' => by
    by_cases hs : s' = s
    · subst hs
      rw [Function.update_self,Function.update_of_ne (by simp)]
      exact hsend
    · obtain rfl : s' = !s := by cases s <;> cases s' <;> simp at hs ⊢
      rw [Bool.not_not,Function.update_self,Function.update_of_ne hs]
      exact hrecv

theorem set_same {s : Bool} {t : Transport}
    (hkeyed : Keyed (secret s) (secret !s) (send s) (recv s) t) :
    PhaseInvariant secret (l.set s t) (Function.update send s (send s))
      (Function.update recv s (recv s)) :=
  h.set hkeyed (h.across s) (by simpa using h.across (!s))

theorem «open» (s : Bool) (env : Env) (p : Packet)
    (hsealed : p.level = .application → p.key.root = .application (secret !s) →
      p.key.generation ≤ send (!s)) :
    ∃ send' recv', PhaseInvariant secret (l.set s ((l.side s).open env p).2) send' recv' := by
  have hchanges : Changes License.any _ _ := (l.side s).changes_open env p trivial
  rcases (h.keyed s).followed p with hsame | ⟨hlevel,hkey,hfollowed⟩
  · rw [hsame] at hchanges
    exact ⟨_,_,h.set_same ((h.keyed s).changes hchanges)⟩
  have hle := hsealed hlevel (by rw [hkey])
  rw [hkey] at hle
  have hle : recv s+1 ≤ send (!s) := hle
  have hacross := h.across (!s)
  rw [Bool.not_not] at hacross
  have hpeer := h.own (!s)
  exact ⟨_,_,h.set (hfollowed.changes hchanges) (by omega) (by omega)⟩

theorem step {op : Link.Op} (hok : l.Confirmed op) :
    ∃ send' recv', PhaseInvariant secret (l.step op) send' recv' := by
  cases op with
  | call s op =>
    simp only [Link.step]
    split_ifs with hlocal
    · rcases (h.keyed s).call hlocal with hsame | ⟨env,rfl,hdue,hnext⟩
      · exact ⟨_,_,h.set_same hsame⟩
      have hconfirmed : recv (!s) = send s := by
        rcases hok with hpending | hfew | hgeneration
        · exact absurd (.inl hpending) hdue
        · exact absurd (.inr hfew) hdue
        · rw [(h.keyed !s).recvKey,(h.keyed s).sendKey] at hgeneration
          exact Option.some.inj hgeneration
      exact ⟨_,_,h.set hnext (.inr (by rw [hconfirmed])) (by simpa using h.across (!s))⟩
    · exact ⟨_,_,h⟩
  | deliver s env i =>
    simp only [Link.step]
    cases hentry : (l.side !s).hist.handed[i]? with
    | none => exact ⟨_,_,h⟩
    | some entry =>
      dsimp only
      split_ifs
      · refine h.open s env entry.packet fun hlevel _ => ?_
        exact ((h.keyed !s).flight entry (List.mem_of_getElem? hentry) hlevel).2
      · exact ⟨_,_,h⟩
  | inject s env p =>
    simp only [Link.step]
    split_ifs with hforeign
    · refine h.open s env p fun _ hroot => ?_
      rw [Link.foreign,(h.keyed s).recvKey] at hforeign
      exact absurd hroot.symm (by simpa using hforeign)
    · exact ⟨_,_,h⟩

theorem agrees : l.Agrees where
  generation := fun s => by
    have hrecv := (h.keyed !s).recvKey
    rw [Bool.not_not] at hrecv
    exact ⟨_,_,(h.keyed s).sendKey,hrecv,rfl,h.across s⟩
  opened := fun s env p r hopen => by
    have hkeys := ((l.side s).changes_open (L := License.any) env p trivial).keyring
    simp only [keyring,Keyring.mk.injEq] at hkeys
    rw [← (l.side s).receiveKey_followed hopen]
    cases p.level <;> simp only [receiveKey,hkeys]
  closed := fun s env p hopen => by
    rw [Transport.open,hopen]

end

theorem of_established (h : l.Established secret) :
    PhaseInvariant secret l (fun _ => 0) (fun _ => 0) where
  keyed := fun s =>
    { sendKey := h.sendKey s
      recvKey := h.recvKey s
      sendPhase := h.sendPhase s
      recvPhase := h.recvPhase s
      ahead := by rw [h.pending s]; rfl
      flight := fun entry hentry hlevel => absurd hlevel (h.unsent s entry hentry) }
  across := fun _ => .inl rfl

end PhaseInvariant

/-- When every update that starts finds the last one followed, the key phases agree in every
    state the two ends reach. -/
theorem key_phases_agree {secret : Bool → List UInt8} {l : Link} (hstart : l.Established secret)
    (ops : List Link.Op) (hconfirmed : Run.Along Link.step Link.Confirmed l ops) :
    (Run.run Link.step l ops).Agrees := by
  have hstep : ∀ (l : Link) (op : Link.Op),
      (∃ send recv, PhaseInvariant secret l send recv) → l.Confirmed op →
        ∃ send recv, PhaseInvariant secret (l.step op) send recv := by
    rintro l op ⟨send,recv,h⟩ hok
    exact h.step hok
  obtain ⟨send,recv,h⟩ :=
    Run.invariant hstep ⟨_,_,PhaseInvariant.of_established hstart⟩ hconfirmed
  exact h.agrees

def establishedLink : Link where
  client := establishedClient
  server := (Transport.new [2] [1] [3] true ⟨.initial [3] true, 0⟩ ⟨.initial [3] false, 0⟩
    12000).setApplicationKeys [6] [5]

def establishedSecret : Bool → List UInt8
  | false => [6]
  | true => [5]

theorem established_establishedLink : establishedLink.Established establishedSecret := by
  constructor
  · rintro (_ | _) <;> rfl
  · rintro (_ | _) <;> rfl
  · rintro (_ | _) <;> rfl
  · rintro (_ | _) <;> rfl
  · rintro (_ | _) <;> rfl
  · rintro (_ | _) h hh <;> cases hh

def signalThenUpdate (s : Bool) : List Link.Op :=
  [.call s (.sendStreamSignal { now := 0 } 0 0 none),
    .call s (.maybeKeyUpdate { now := 0, keyUpdateThreshold := 1 })]

/-- The client updates its keys, the server follows, and updates in its turn when the client
    has seen that. -/
theorem key_phases_agree_two_updates :
    (Run.run Link.step establishedLink (signalThenUpdate false ++
      [.call false (.sendStreamSignal { now := 1 } 4 0 none), .deliver true { now := 2 } 1,
        .call true (.sendStreamSignal { now := 3 } 1 0 none), .deliver false { now := 4 } 0] ++
      signalThenUpdate true)).Agrees :=
  key_phases_agree established_establishedLink _ (by decide +kernel)

/-- Both ends update at once. The server's update arrives and clears the client's pending
    flag, the client updates again, and is two generations ahead of the server. -/
theorem crossed_updates_diverge :
    ¬ (Run.run Link.step establishedLink (signalThenUpdate false ++ signalThenUpdate true ++
      [.call true (.sendStreamSignal { now := 1 } 1 0 none), .deliver false { now := 2 } 1] ++
      signalThenUpdate false)).Agrees := by
  intro h
  obtain ⟨send,recv,hsend,hrecv,-,hgeneration⟩ := h.generation false
  have hsent : send.generation = 2 := by
    refine Option.some.inj ((congrArg (Option.map PacketKey.generation) hsend).symm.trans ?_)
    decide +kernel
  have hreceived : recv.generation = 0 := by
    refine Option.some.inj ((congrArg (Option.map PacketKey.generation) hrecv).symm.trans ?_)
    decide
  omega

end Courierust.Quic
