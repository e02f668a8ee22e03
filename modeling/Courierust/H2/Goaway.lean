import Courierust.H2.Refine

/-!
# The promise of a GOAWAY

A server that has queued a GOAWAY refuses every stream above the last id it knows, and an id
that is not above it cannot be accepted any more. So no stream joins its table and no
request is delivered afterwards, although malformed requests still move the last id.
-/

namespace Courierust.H2

open Hpack (HeaderField)

def Event.headersOf : Event → Option ℕ
  | .headers id _ _ _ => some id
  | _ => none

/-- What follows the GOAWAY of a server: no request is delivered, no stream is added. -/
structure Frozen (e e' : Endpoint) : Prop where
  client : e'.client = false
  sent : e'.goawaySent = true
  events : ∃ es, e'.delivered = e.delivered ++ es ∧ ∀ ev ∈ es, ev.headersOf = none
  streams : ∀ id, (e'.stream id).isSome = true → (e.stream id).isSome = true

namespace Endpoint

variable {P : Permits} {e e' : Endpoint}

theorem isSome_set {id x : ℕ} {v v' : StreamView} (hv : e.stream id = some v)
    (h : ((e.set id v').stream x).isSome = true) : (e.stream x).isSome = true := by
  simp only [set,Function.update_apply] at h
  split_ifs at h with hx
  · rw [hx,hv]
    rfl
  · exact h

theorem isSome_drop {id x : ℕ} (h : ((e.drop id).stream x).isSome = true) :
    (e.stream x).isSome = true := by
  simp only [drop,Function.update_apply] at h
  split_ifs at h
  · cases h
  · exact h

theorem frozen_change (hclient : e.client = false) (hsent : e.goawaySent = true)
    (h : Change P e e') : Frozen e e' := by
  have hsame : ∃ es, e.delivered = e.delivered ++ es ∧ ∀ ev ∈ es, ev.headersOf = none :=
    ⟨[],by simp,by simp⟩
  have hone : ∀ ev : Event, ev.headersOf = none →
      ∃ es, e.delivered ++ [ev] = e.delivered ++ es ∧ ∀ ev ∈ es, ev.headersOf = none :=
    fun ev hev => ⟨[ev],rfl,by simpa using hev⟩
  have hterminal : ∀ {ev : Event} {id : ℕ}, ev.terminal = some id → ev.headersOf = none := by
    intro ev id hev
    cases ev <;> first | rfl | cases hev
  cases h with
  | accept | frame | flushed | connCredit | tableSize => exact ⟨hclient,hsent,hsame,fun _ h => h⟩
  | goaway hquiet => exact ⟨hclient,rfl,hsame,fun _ h => h⟩
  | @notice ev hev =>
    refine ⟨hclient,hsent,hone ev ?_,fun _ h => h⟩
    cases ev <;> first | rfl | cases hev
  | request hclient' | responded hclient' =>
    rw [hclient] at hclient'
    cases hclient'
  | opened _ hquiet => cases hsent.symm.trans hquiet
  | refused _ _ _ hev => exact ⟨hclient,hsent,hone _ (hterminal hev),fun _ h => h⟩
  | close id => exact ⟨hclient,hsent,hsame,fun _ h => isSome_drop h⟩
  | finish hev => exact ⟨hclient,hsent,hone _ (hterminal hev),fun _ h => isSome_drop h⟩
  | data hv | trailers hv => exact ⟨hclient,hsent,hone _ rfl,fun _ h => isSome_set hv h⟩
  | swallowed hv | head hv | enqueue hv | localEnd hv | streamCredit hv =>
    exact ⟨hclient,hsent,hsame,fun _ h => isSome_set hv h⟩
  | headClosed hv => exact ⟨hclient,hsent,hone _ rfl,fun _ h => isSome_drop h⟩
  | @emit id v chunk rest hv hqueue hsendable =>
    generalize Conn.take (e.sendable v) chunk rest = t
    unfold Endpoint.emit
    cases t.trailers <;> exact ⟨hclient,hsent,hsame,fun _ h => isSome_set hv h⟩
  | settings => exact ⟨hclient,hsent,hsame,fun id h => by simpa [adopt] using h⟩

theorem frozen_changes (h : Changes P e e') (hclient : e.client = false)
    (hsent : e.goawaySent = true) : Frozen e e' := by
  induction h with
  | refl => exact ⟨hclient,hsent,⟨[],by simp,by simp⟩,fun _ h => h⟩
  | tail _ hchange ih =>
    obtain ⟨es,heq,hes⟩ := ih.events
    have hnext := frozen_change ih.client ih.sent hchange
    obtain ⟨es',heq',hes'⟩ := hnext.events
    refine ⟨hnext.client,hnext.sent,⟨es ++ es',?_,?_⟩,fun id h => ih.streams id (hnext.streams id h)⟩
    · rw [heq',heq,List.append_assoc]
    · intro ev hev
      rcases List.mem_append.1 hev with hev | hev
      · exact hes ev hev
      · exact hes' ev hev

def Remembers (e : Endpoint) : Prop :=
  ∀ last code debug, Frame.goAway last code debug ∈ e.queued → e.goawaySent = true

theorem Remembers.push (h : e.Remembers) {fs : List Frame}
    (hfs : ∀ last code debug, Frame.goAway last code debug ∉ fs) : (e.push fs).Remembers := by
  intro last code debug hmem
  rcases List.mem_append.1 hmem with hmem | hmem
  · exact h last code debug hmem
  · exact absurd hmem (hfs last code debug)

theorem Remembers.sendBlock (h : e.Remembers) (id : ℕ) (fields : List HeaderField)
    (endStream : Bool) : (e.sendBlock id fields endStream).Remembers := by
  exact h.push fun _ _ _ hmem =>
    nomatch forall_headerFrames (P := (·.isBlock)) (fun _ _ _ => rfl) (fun _ _ _ => rfl) _ hmem

theorem Remembers.change (h : e.Remembers) (hchange : Change P e e') : e'.Remembers := by
  cases hchange with
  | @frame f hf =>
    refine h.push fun _ _ _ hmem => ?_
    rw [← List.mem_singleton.1 hmem] at hf
    cases hf
  | goaway => exact fun _ _ _ _ => rfl
  | head => exact Remembers.sendBlock h _ _ _
  | @headClosed id v fields endStream fs _ _ _ hfs =>
    exact Remembers.sendBlock (h.push fun _ _ _ hmem => nomatch hfs _ hmem) id fields endStream
  | @emit id v chunk rest hv hqueue hsendable =>
    generalize Conn.take (e.sendable v) chunk rest = t
    unfold Endpoint.emit
    simp only
    cases t.trailers with
    | none => exact Remembers.push h fun _ _ _ hmem => by simp at hmem
    | some fields => exact Remembers.sendBlock h _ _ _
  | _ => exact h

end Endpoint

open Conn in
/-- Once a server has queued a GOAWAY, no request above the id it carries is delivered, and no
    stream above that id joins the table. -/
theorem goaway_promise (config : Config) (hserver : config.client = false) (upgrade : Bool)
    (ops later : List Op) (last : ℕ) (code : ErrorCode) (debug : List UInt8)
    (hgoaway : Frame.goAway last code debug ∈
      (Run.run Conn.step (start config upgrade) ops).hist.queued) :
    let c := Run.run Conn.step (start config upgrade) ops
    let c' := Run.run Conn.step c later
    (∃ events, c'.hist.delivered = c.hist.delivered ++ events ∧
      ∀ id fields endStream priority, Event.headers id fields endStream priority ∈ events →
        id ≤ last) ∧
      ∀ id, last < id → (c'.streams.get id).isSome = true → (c.streams.get id).isSome = true := by
  intro c c'
  have hall : ∀ (c : Conn) (ops : List Op), Run.Along Conn.step Permits.any.allows c ops :=
    Run.along_of_forall Permits.any_allows
  have hremembers : c.endpoint.Remembers := by
    refine invariant_run Endpoint.Remembers.change (hall _ ops) fun last code debug hmem => ?_
    cases upgrade <;> cases hmem
  have hclient : c.endpoint.client = false := by
    refine invariant_run
      (fun he hchange => hchange.client_eq.trans he) (hall _ ops) ?_
    cases upgrade <;> exact hserver
  have hfrozen := Endpoint.frozen_changes (changes_run (hall c later)) hclient
    (hremembers last code debug hgoaway)
  obtain ⟨events,heq,hevents⟩ := hfrozen.events
  refine ⟨⟨events,heq,fun id fields endStream priority hmem => ?_⟩,fun id _ hid => ?_⟩
  · cases hevents _ hmem
  · simpa [endpoint] using hfrozen.streams id (by simpa [endpoint] using hid)

/-- A request is served, the server goes away, and the next request is refused. -/
theorem goaway_promise_two_requests :
    let request : ℕ → Op := fun id => .receive ⟨1, 5, id, [0x82, 0x84, 0x86]⟩
    let c := Run.run Conn.step (Conn.start { client := false } false)
      [request 1, .sendGoaway .noError []]
    let c' := Run.run Conn.step c [request 3]
    c.hist.delivered.length = 1 ∧ (∃ events, c'.hist.delivered = c.hist.delivered ++ events ∧
      ∀ id fields endStream priority, Event.headers id fields endStream priority ∈ events →
        id ≤ 1) ∧
      ∀ id, 1 < id → (c'.streams.get id).isSome = true → (c.streams.get id).isSome = true :=
  ⟨by decide, goaway_promise { client := false } rfl false
    [.receive ⟨1,5,1,[0x82,0x84,0x86]⟩, .sendGoaway .noError []]
    [.receive ⟨1,5,3,[0x82,0x84,0x86]⟩] 1 .noError [] (by decide)⟩

end Courierust.H2
