import Courierust.Ws.ClientIp

/-!
# The headers of a forwarded request

What the reverse proxy sends upstream: the fields of the request without those of the connection,
its own entry in `Via`, and the forwarding metadata. The chain of a trusted peer is kept and gets
the address of that peer; anyone else's is replaced by it.
-/

namespace Courierust.Server

open List
open Str (Text split trim eqIgnoreAsciiCase elements)
open Http (HeaderMap HeaderValue isValidFieldText isValidFieldText_append)
open Net (IpAddr IpNet isTrustedProxy)
open Ws (xForwardedFor xForwardedProto xForwardedHost loopback)

def isHopByHop (name : Text) : Bool :=
  ["connection", "keep-alive", "proxy-connection", "transfer-encoding", "upgrade",
    "proxy-authenticate", "proxy-authorization", "te", "trailer"].any (·.toList = name)

/-- `is_hop_by_hop_for`: the fields that `Connection` names are added to the fixed ones. -/
def isHopByHopFor (headers : HeaderMap) (name : Text) : Bool :=
  isHopByHop name ||
    (headers.entries.filter fun field => eqIgnoreAsciiCase field.1 "connection".toList).any
      fun field => field.2.toStr.any fun tokens =>
        (split ',' tokens).any fun token => eqIgnoreAsciiCase (trim token) name

def via : Text := "via".toList

def host : Text := "host".toList

/-- `HeaderValue::from_bytes` of a text, with the value that stands in for an invalid one. -/
def fieldValue (s : Text) (otherwise : String) : HeaderValue :=
  if isValidFieldText s then .text s else .text otherwise.toList

structure ConnectionInfo where
  peer : IpAddr
  secure : Bool

def previous (headers : HeaderMap) (name : Text) : Option Text :=
  ((headers.getStr name).map trim).filter (!·.isEmpty)

def forwarded (trustedPeers : List IpNet) (headers : HeaderMap) (peer : IpAddr) : Text :=
  let chain := if isTrustedProxy peer trustedPeers then previous headers xForwardedFor else none
  match chain with
  | some chain => chain ++ ", ".toList ++ peer.display
  | none => peer.display

/-- The header part of `forward`. -/
def upstreamHeaders (pseudonym : Text) (trustedPeers : List IpNet) (headers : HeaderMap)
    (info : Option ConnectionInfo) : HeaderMap :=
  let relayed : HeaderMap := ⟨headers.entries.filter fun field =>
    !(isHopByHopFor headers field.1 || field.1 = host ||
      [via, xForwardedFor, xForwardedProto, xForwardedHost].contains field.1)⟩
  let hop := "1.1 ".toList ++ pseudonym
  let relayed := relayed.insert via (fieldValue (match previous headers via with
    | some entries => entries ++ ", ".toList ++ hop
    | none => hop) "1.1 courierust")
  let relayed := match info with
    | some info =>
      (relayed.insert xForwardedFor
        (fieldValue (forwarded trustedPeers headers info.peer) "unknown")).insert xForwardedProto
        (.text (if info.secure then "https".toList else "http".toList))
    | none => relayed
  match headers.get host with
  | some value => relayed.insert xForwardedHost value
  | none => relayed

theorem getAll_upstreamHeaders (pseudonym : Text) (trustedPeers : List IpNet) (headers : HeaderMap)
    (info : ConnectionInfo) :
    (upstreamHeaders pseudonym trustedPeers headers (some info)).getAll xForwardedFor =
      [fieldValue (forwarded trustedPeers headers info.peer) "unknown"] := by
  simp only [upstreamHeaders]
  cases headers.get host with
  | some value =>
    rw [HeaderMap.getAll_insert,if_neg (by decide),HeaderMap.getAll_insert,if_neg (by decide),
      HeaderMap.getAll_insert,if_pos (by decide)]
  | none =>
    rw [HeaderMap.getAll_insert,if_neg (by decide),HeaderMap.getAll_insert,if_pos (by decide)]

/-! ### The chain -/

def fieldElements : HeaderValue → List HeaderValue
  | .text s => (elements s).map .text
  | .binary octets => [.binary octets]

/-- The upstream request carries the chain of a trusted peer with the peer at its end, or the
peer alone. -/
def Relayed (trustedPeers : List IpNet) (headers : HeaderMap) (peer : IpAddr)
    (upstream : HeaderMap) : Prop :=
  if isTrustedProxy peer trustedPeers then
    (upstream.getAll xForwardedFor).flatMap fieldElements =
      (headers.getAll xForwardedFor).flatMap fieldElements ++ [.text peer.display]
  else upstream.getAll xForwardedFor = [.text peer.display]

def FirstLineOnly : List HeaderValue → Prop
  | [] => True
  | first :: rest => (first.toStr.map trim).any isValidFieldText ∧ rest.flatMap fieldElements = []

variable (peer : IpAddr)

theorem isValidFieldText_display : isValidFieldText peer.display = true := by
  have hchars : ∀ c ∈ Net.addressChars, isValidFieldText [c] = true :=
    Str.forall_mem_of_all (by decide)
  rw [isValidFieldText,all_eq_true]
  intro c hc
  have := hchars c (Net.mem_display peer c hc)
  rwa [isValidFieldText,all_cons,all_nil,Bool.and_true] at this

theorem elements_display : elements peer.display = [peer.display] := by
  obtain ⟨hne,hcomma,htrim⟩ := Net.display_spec peer
  rw [Str.elements_of_notMem hcomma,htrim,if_neg (by rwa [List.isEmpty_iff])]

theorem elements_chain (chain : Text) (peer : IpAddr) :
    elements (chain ++ ", ".toList ++ peer.display) = elements chain ++ [peer.display] := by
  have hsplit : chain ++ ", ".toList ++ peer.display = chain ++ ',' :: ([' '] ++ peer.display) := by
    rw [append_assoc]
    rfl
  rw [hsplit,Str.elements_append,Str.elements_append_left (Str.forall_mem_of_all (by decide)),
    elements_display]

theorem fieldValue_display : fieldValue peer.display "unknown" = .text peer.display := by
  rw [fieldValue,if_pos (isValidFieldText_display peer)]

theorem display_ne_unknown : peer.display ≠ "unknown".toList := by
  intro h
  have hmem : 'u' ∈ Net.addressChars := Net.mem_display peer 'u' (by rw [h]; decide)
  exact absurd hmem (by decide)

theorem fieldElements_forwarded {trustedPeers : List IpNet} {peer : IpAddr}
    (hpeer : isTrustedProxy peer trustedPeers = true) (headers : HeaderMap) :
    fieldElements (fieldValue (forwarded trustedPeers headers peer) "unknown") =
      match headers.getStr xForwardedFor with
      | none => [.text peer.display]
      | some s =>
        if isValidFieldText (trim s) then (elements s).map .text ++ [.text peer.display]
        else [.text "unknown".toList] := by
  rw [forwarded,hpeer,if_pos rfl,previous]
  cases hfirst : headers.getStr xForwardedFor with
  | none =>
    dsimp only [Option.map_none,Option.filter_none]
    rw [fieldValue_display,fieldElements,elements_display]
    rfl
  | some s =>
    dsimp only [Option.map_some]
    by_cases hempty : (trim s).isEmpty
    · have hnil := isEmpty_iff.1 hempty
      have hnone : elements s = [] := by
        rw [← Str.elements_trim,hnil]
        rfl
      rw [Option.filter_some_neg (by simp [hempty]),hnil,
        if_pos (show isValidFieldText [] = true from rfl),hnone]
      rw [fieldValue_display,fieldElements,elements_display]
      rfl
    · rw [Option.filter_some_pos (by simp [hempty])]
      have hvalid : isValidFieldText (trim s ++ ", ".toList ++ peer.display) =
          isValidFieldText (trim s) := by
        rw [isValidFieldText_append,isValidFieldText_append,isValidFieldText_display,
          show isValidFieldText ", ".toList = true by decide,Bool.and_true,Bool.and_true]
      rw [fieldValue,hvalid]
      split_ifs
      · rw [fieldElements,elements_chain,Str.elements_trim,map_append]
        rfl
      · decide

theorem text_ne_unknown (front : List HeaderValue) :
    [HeaderValue.text "unknown".toList] ≠ front ++ [.text peer.display] := by
  intro h
  have hlast := congrArg List.getLast? h
  rw [getLast?_append] at hlast
  exact display_ne_unknown peer (HeaderValue.text.inj (Option.some.inj hlast)).symm

/-- The chain goes upstream as a whole exactly when it stands in the first line; behind a peer
that is not trusted there is nothing but the peer. -/
theorem chain_relayed (pseudonym : Text) (trustedPeers : List IpNet) (headers : HeaderMap)
    (info : ConnectionInfo) :
    Relayed trustedPeers headers info.peer
        (upstreamHeaders pseudonym trustedPeers headers (some info)) ↔
      (isTrustedProxy info.peer trustedPeers = true →
        FirstLineOnly (headers.getAll xForwardedFor)) := by
  rw [Relayed,getAll_upstreamHeaders]
  by_cases hpeer : isTrustedProxy info.peer trustedPeers = true
  · rw [if_pos hpeer,flatMap_singleton,fieldElements_forwarded hpeer,HeaderMap.getStr,
      HeaderMap.get_eq_head?]
    refine Iff.trans ?_ (forall_prop_of_true hpeer).symm
    cases headers.getAll xForwardedFor with
    | nil => exact iff_of_true rfl trivial
    | cons first rest =>
      rw [flatMap_cons,FirstLineOnly]
      cases first with
      | binary octets =>
        refine iff_of_false ?_ (fun h => by cases h.1)
        intro h
        have hlen := congrArg length h
        simp [fieldElements,HeaderValue.toStr] at hlen
      | text s =>
        change (if isValidFieldText (trim s) then _ else _) = _ ↔ isValidFieldText (trim s) = true ∧ _
        split_ifs with hvalid
        · rw [append_left_inj,fieldElements]
          simp [hvalid]
        · exact iff_of_false (text_ne_unknown _ _) (fun h => hvalid h.1)
  · rw [if_neg hpeer,forwarded,if_neg hpeer]
    exact iff_of_true (by rw [fieldValue_display]) (fun h => absurd h hpeer)

/-- The client sends a line and the trusted peer adds its own: the entry of the peer is dropped,
and the one the client wrote goes upstream. -/
theorem chain_not_relayed :
    ¬ Relayed [⟨loopback, 32⟩]
      ⟨[(xForwardedFor, .text "6.6.6.6".toList), (xForwardedFor, .text "192.0.2.1".toList)]⟩ loopback
      (upstreamHeaders "courierust".toList [⟨loopback, 32⟩]
        ⟨[(xForwardedFor, .text "6.6.6.6".toList), (xForwardedFor, .text "192.0.2.1".toList)]⟩
        (some ⟨loopback, false⟩)) := by
  rw [Relayed,if_pos (by decide)]
  decide

end Courierust.Server
