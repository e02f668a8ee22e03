import Courierust.Lib.Run
import Courierust.Quic.Calls

/-!
# Packet numbers are nonces

A packet is sealed with a key and its number, so no two packets on the wire may share
both. Numbers are used up even when a send fails and continue over key updates; what resets
them is a Retry, which is safe exactly as far as it brings new Initial keys.
-/

namespace Courierust.Quic

namespace Transport

/-- Of two packets under one key, both are of the same space and the later one has the
    larger number. -/
def FreshNonces (t : Transport) : Prop :=
  t.hist.handed.Pairwise fun a b => a.packet.key = b.packet.key →
    a.packet.level = b.packet.level ∧ a.packet.number < b.packet.number

/-- A Retry that can still be applied names another connection id than the one the Initial
    keys come from. -/
def FreshRetry (t : Transport) : Op → Prop
  | .retry dcid _ => t.retrySeen ∨ dcid ≠ t.initialDcid
  | _ => True

instance (t : Transport) (op : Op) : Decidable (t.FreshRetry op) := by
  induction op using Op.casesOn with
  | retry dcid _ => exact inferInstanceAs (Decidable (t.retrySeen ∨ dcid ≠ t.initialDcid))
  | _ => exact instDecidableTrue

end Transport

def KeyRoot.level : KeyRoot → Level
  | .initial .. => .initial
  | .handshake _ => .handshake
  | .application _ => .application

open Transport

/-- What is known about the packets handed over and the keys in use. -/
structure NonceInvariant (t : Transport) : Prop where
  fresh : t.FreshNonces
  level : ∀ h ∈ t.hist.handed, h.packet.key.root.level = h.packet.level
  /-- a packet is older than the next number, or its key was replaced by a Retry -/
  below : ∀ h ∈ t.hist.handed, h.packet.number < (t.spaces h.packet.level).nextSend ∨
    t.retrySeen = true ∧ h.packet.level = .initial ∧ h.packet.key ≠ t.initialSend
  initial : t.retrySeen = false → ∀ h ∈ t.hist.handed, h.packet.level = .initial →
    h.packet.key = t.initialSend
  keyed : ∀ h ∈ t.hist.handed, ∃ key, t.sendKey h.packet.level = .ok key
  sendKeys : ∀ level key, t.sendKey level = .ok key → key.root.level = level
  initialKey : t.initialSend = ⟨.initial t.initialDcid t.server, 0⟩

namespace NonceInvariant

variable {L : License} {t t' : Transport}

theorem pairwise_of_length_le_one {α : Type} {R : α → α → Prop} {l : List α}
    (h : l.length ≤ 1) : l.Pairwise R := by
  match l, h with
  | [], _ => exact .nil
  | [a], _ => exact List.pairwise_singleton R a

section

variable (h : NonceInvariant t)
include h

theorem hands {new : List Handed} (hkeys : t'.keyring = t.keyring)
    (hn : Hands t t' new) : NonceInvariant t' := by
  simp only [keyring,Keyring.mk.injEq] at hkeys
  have hsendKey : ∀ level, t'.sendKey level = t.sendKey level := by
    rintro ⟨⟩ <;> simp only [sendKey,hkeys]
  obtain ⟨hserver,hdcid,hretry,hinitial,-⟩ := hkeys
  constructor
  · rw [FreshNonces,hn.handed,List.pairwise_append]
    refine ⟨h.fresh,pairwise_of_length_le_one hn.single,fun a ha b hb hkey => ?_⟩
    have hb' := hn.key b hb
    have hlevel : a.packet.level = b.packet.level := by
      rw [← h.level a ha,hkey]
      exact h.sendKeys _ _ hb'
    refine ⟨hlevel,?_⟩
    rw [(hn.number b hb).1,← hlevel]
    rcases h.below a ha with hlt | ⟨-,hl,hne⟩
    · exact hlt
    · -- A packet of the Initial space is sealed with the key in use, so its key was not replaced.
      rw [← hlevel,hl] at hb'
      exact absurd (hkey.trans (Except.ok.inj hb').symm) hne
  · rw [hn.handed]
    intro entry hentry
    rcases List.mem_append.1 hentry with hold | hnew
    · exact h.level entry hold
    · exact h.sendKeys _ _ (hn.key entry hnew)
  · rw [hn.handed,hretry,hinitial]
    intro entry hentry
    rcases List.mem_append.1 hentry with hold | hnew
    · exact (h.below entry hold).imp_left fun hlt => hlt.trans_le (hn.nextSend _)
    · rw [(hn.number entry hnew).1]
      exact .inl (hn.number entry hnew).2
  · rw [hn.handed,hretry,hinitial]
    intro hfirst entry hentry hlevel
    rcases List.mem_append.1 hentry with hold | hnew
    · exact h.initial hfirst entry hold hlevel
    · have hkey := hn.key entry hnew
      rw [hlevel] at hkey
      exact (Except.ok.inj hkey).symm
  · rw [hn.handed]
    intro entry hentry
    rw [hsendKey]
    rcases List.mem_append.1 hentry with hold | hnew
    · exact h.keyed entry hold
    · exact ⟨_,hn.key entry hnew⟩
  · intro level key hkey
    rw [hsendKey] at hkey
    exact h.sendKeys level key hkey
  · rw [hinitial,hdcid,hserver]
    exact h.initialKey

theorem change (hchange : Change L t t') : NonceInvariant t' := by
  have hkeys := hchange.keyring
  rcases hchange.send_or_steady with ⟨env,level,frames,padInitial,retransmits,-,rfl⟩ | hs
  · obtain ⟨new,hn⟩ := exists_hands_sendFramesInner t env level frames padInitial retransmits
    exact h.hands hkeys hn
  · exact h.hands hkeys (.of_steady hs)

theorem changes (hchanges : Changes L t t') : NonceInvariant t' := by
  induction hchanges with
  | refl => exact h
  | tail _ hchange ih => exact ih.change hchange

/-- New keys of the Handshake or the application space leave everything on the wire as
    it is. -/
theorem rekeyed (hsame : (t'.hist,t'.spaces,t'.retrySeen,t'.initialSend,
      t'.initialDcid,t'.server) = (t.hist,t.spaces,t.retrySeen,t.initialSend,t.initialDcid,
      t.server))
    (hkeys : ∀ level, t'.sendKey level = t.sendKey level ∨
      ∃ key, t'.sendKey level = .ok key ∧ key.root.level = level) : NonceInvariant t' := by
  simp only [Prod.mk.injEq] at hsame
  obtain ⟨hhist,hspaces,hretry,hinitial,hdcid,hserver⟩ := hsame
  constructor
  · rw [FreshNonces,hhist]
    exact h.fresh
  · rw [hhist]
    exact h.level
  · rw [hhist,hspaces,hretry,hinitial]
    exact h.below
  · rw [hhist,hretry,hinitial]
    exact h.initial
  · rw [hhist]
    intro entry hentry
    rcases hkeys entry.packet.level with hkey | ⟨key,hkey,-⟩
    · rw [hkey]
      exact h.keyed entry hentry
    · exact ⟨key,hkey⟩
  · intro level key hkey
    rcases hkeys level with hsame | ⟨key',hkey',hlevel⟩
    · exact h.sendKeys level key (hsame ▸ hkey)
    · cases hkey'.symm.trans hkey
      exact hlevel
  · rw [hinitial,hdcid,hserver]
    exact h.initialKey

theorem keyUpdate (hu : KeyUpdate t t') : NonceInvariant t' := by
  obtain ⟨_,send,_,_,_,_,rfl,-,hsend⟩ := hu
  refine h.rekeyed rfl fun level => ?_
  cases level with
  | application =>
    cases hkey : t.applicationSend with
    | none => exact .inl (by simp [sendKey,hkey,show send = none by simpa [hkey] using hsend])
    | some key =>
      have hlevel := h.sendKeys .application key (by simp only [sendKey,hkey])
      rcases hsend with rfl | rfl
      · exact .inl rfl
      · exact .inr ⟨key.nextKeyPhase,by simp [sendKey,hkey],hlevel⟩
  | initial | handshake => exact .inl rfl

theorem onRetry {dcid token : List UInt8}
    (hfresh : t.retrySeen = true ∨ dcid ≠ t.initialDcid) :
    NonceInvariant (t.onRetry dcid token) := by
  rcases t.onRetry_cases dcid token with hsame | ⟨hserver,hseen,hnone,hnone',hrestart⟩
  · rw [hsame]
    exact h
  rw [hrestart]
  have hdcid : dcid ≠ t.initialDcid := hfresh.resolve_left (by simp [hseen])
  -- Without handshake and application keys, everything so far was sealed with the old key.
  have hinitial : ∀ entry ∈ t.hist.handed, entry.packet.level = .initial := by
    intro entry hentry
    obtain ⟨key,hkey⟩ := h.keyed entry hentry
    cases hlevel : entry.packet.level with
    | initial => rfl
    | handshake =>
      rw [hlevel,sendKey,hnone] at hkey
      cases hkey
    | application =>
      rw [hlevel,sendKey,hnone'] at hkey
      cases hkey
  constructor
  · exact h.fresh
  · exact h.level
  · intro entry hentry
    refine .inr ⟨rfl,hinitial entry hentry,?_⟩
    rw [h.initial hseen entry hentry (hinitial entry hentry),h.initialKey]
    intro heq
    have hroot := congrArg PacketKey.root heq
    exact hdcid (KeyRoot.initial.inj hroot).1.symm
  · intro hfirst
    cases hfirst
  · intro entry hentry
    rw [hinitial entry hentry]
    exact ⟨_,rfl⟩
  · intro level key hkey
    cases level with
    | initial => rw [← Except.ok.inj hkey]; rfl
    | handshake | application => cases hkey
  · change _ = (⟨.initial dcid t.server,0⟩ : PacketKey)
    rw [hserver]
    rfl

theorem step {op : Op} (hfresh : t.FreshRetry op) :
    NonceInvariant (t.step op) := by
  have hrekey : NonceInvariant (t.rekey op) := by
    cases op with
    | setHandshakeKeys recv send | setApplicationKeys recv send =>
      refine h.rekeyed rfl fun level => ?_
      cases level <;> first | exact .inl rfl | exact .inr ⟨_,rfl,rfl⟩
    | setPeerTransport parameters | setLocalTransport parameters =>
      exact h.hands rfl (.of_steady ⟨rfl,fun _ => rfl⟩)
    | retry dcid token => exact h.onRetry (by simpa [FreshRetry] using hfresh)
    | receive env p => exact h.keyUpdate (t.keyUpdate_followed p)
    | maybeKeyUpdate env => exact h.keyUpdate (t.keyUpdate_maybeKeyUpdate env)
    | _ => exact h
  exact hrekey.changes (t.changes_step_any op)

end

theorem of_start {localCid remoteCid initialDcid : List UInt8} {server : Bool} {window : ℕ}
    (hstart : Transport.start localCid remoteCid initialDcid server window = .ok t) :
    NonceInvariant t := by
  obtain rfl := t.start_eq hstart
  exact
    { fresh := .nil
      level := List.forall_mem_nil _
      below := List.forall_mem_nil _
      initial := fun _ => List.forall_mem_nil _
      keyed := List.forall_mem_nil _
      sendKeys := fun level key hkey => by
        cases level with
        | initial => rw [← Except.ok.inj hkey]; rfl
        | handshake | application => cases hkey
      initialKey := rfl }

end NonceInvariant

/-- In every run whose Retries name another connection id than the one in use, no two packets
    handed to the socket share key and number, and the numbers of one key increase. -/
theorem nonces_unique {localCid remoteCid initialDcid : List UInt8} {server : Bool}
    {window : ℕ} {t : Transport}
    (hstart : Transport.start localCid remoteCid initialDcid server window = .ok t)
    (ops : List Op) (hretry : Run.Along Transport.step FreshRetry t ops) :
    (Run.run Transport.step t ops).FreshNonces :=
  (Run.invariant (fun _ _ h hok => h.step hok)
    (NonceInvariant.of_start hstart) hretry).fresh

/-- A client that sends its hello, is given the Retry connection id `dcid` and sends the
    hello again. -/
def helloAgain (dcid : List UInt8) : List Op :=
  let hello := List.replicate 100 1
  [.sendCrypto { now := 0 } .initial hello, .retry dcid [7],
    .sendCrypto { now := 1 } .initial hello]

theorem nonces_unique_hello_again :
    (Run.run Transport.step (Transport.new [1] [2] [3] false ⟨.initial [3] false, 0⟩
      ⟨.initial [3] true, 0⟩ 12000) (helloAgain [4])).FreshNonces :=
  @nonces_unique [1] [2] [3] false 12000 _ rfl (helloAgain [4]) (by decide +kernel)

/-- A Retry that names the connection id in use leads to the same keys, and the numbers
    start again. -/
theorem retry_reuses_nonce :
    ∃ t, Transport.start [1] [2] [3] false 12000 = .ok t ∧
      ∃ a ∈ (Run.run Transport.step t (helloAgain [3])).hist.handed,
        ∃ b ∈ (Run.run Transport.step t (helloAgain [3])).hist.handed,
          a.packet ≠ b.packet ∧ a.packet.key = b.packet.key ∧
            a.packet.number = b.packet.number :=
  ⟨_,rfl,by decide +kernel⟩

end Courierust.Quic
