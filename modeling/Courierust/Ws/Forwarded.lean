import Courierust.Ws.ClientIp

/-!
# The scheme and the host behind a proxy

`is_secure` and `effective_host` believe `X-Forwarded-Proto` and `X-Forwarded-Host` of a trusted
proxy. One takes the first element of the first field line, the other the last.
-/

namespace Courierust.Ws

open Str (Text split trim eqIgnoreAsciiCase toAsciiLowercase)
open Http (HeaderMap)
open Net (IpAddr IpNet isTrustedProxy)

def xForwardedServer : Text := "x-forwarded-server".toList

def lastElement (value : Text) : Option Text :=
  ((split ',' value).reverse.map trim).find? (!·.isEmpty)

def effectiveHost (headers : HeaderMap) (peer : IpAddr) (trusted : List IpNet) : Option Text :=
  let forwarded := if isTrustedProxy peer trusted then
      [xForwardedHost, xForwardedServer].findSome? fun name => headers.getStr name >>= lastElement
    else none
  match forwarded with
  | some last => some (toAsciiLowercase last)
  | none => (headers.getStr "host".toList).map fun s => toAsciiLowercase (trim s)

def saysSecure (value : Text) : Bool :=
  let first := trim ((split ',' value).headD [])
  eqIgnoreAsciiCase first "https".toList || eqIgnoreAsciiCase first "wss".toList

def isSecure (tlsActive : Bool) (headers : HeaderMap) (peer : IpAddr) (trusted : List IpNet) : Bool :=
  if tlsActive then true
  else if !isTrustedProxy peer trusted then false
  else (headers.getStr xForwardedProto).any saysSecure

variable {headers : HeaderMap} {addition : Addition} {peer : IpAddr} {trusted : List IpNet}

theorem saysSecure_extended (value token : Text) :
    saysSecure (value ++ ',' :: token) = saysSecure value := by
  rw [saysSecure,saysSecure,Str.split_append]
  cases hsplit : split ',' value with
  | nil => exact absurd hsplit (List.splitOnP_ne_nil _ _)
  | cons first rest => rfl

/-- Behind a line that is there already, nothing that is added is looked at. -/
theorem isSecure_addTo_of_ne_nil (h : headers.getAll xForwardedProto ≠ []) (token : Text) :
    isSecure false (addition.addTo xForwardedProto headers token) peer trusted =
      isSecure false headers peer trusted := by
  have hsame : ((addition.addTo xForwardedProto headers token).getStr xForwardedProto).any
      saysSecure = (headers.getStr xForwardedProto).any saysSecure := by
    rw [HeaderMap.getStr,HeaderMap.getStr,HeaderMap.get_eq_head?,HeaderMap.get_eq_head?]
    rcases getAll_addTo addition xForwardedProto headers token with
      ⟨-,hlines⟩ | ⟨-,lines,last,hold,hlines⟩
    · rw [hlines,List.head?_append_of_ne_nil _ h]
    rw [hlines,hold]
    rcases lines with _ | ⟨first,lines⟩
    · cases last with
      | text s => exact saysSecure_extended s token
      | binary octets => rfl
    · rfl
  rw [isSecure,isSecure,hsame]

theorem lastElement_of_split {value token : Text} {front : List Text}
    (hsplit : split ',' value = front ++ split ',' token) (hcomma : ',' ∉ token)
    (htoken : trim token ≠ []) : lastElement value = some (trim token) := by
  rw [lastElement,hsplit,Str.split_of_notMem hcomma,List.reverse_append,List.reverse_singleton,
    List.singleton_append,List.map_cons,List.find?_cons_of_pos (by simpa using htoken)]

theorem effectiveHost_added (h : addition.SeenIn xForwardedHost headers) {token : Text}
    (hpeer : isTrustedProxy peer trusted = true) (hcomma : ',' ∉ token) (htoken : trim token ≠ []) :
    effectiveHost (addition.addTo xForwardedHost headers token) peer trusted =
      some (toAsciiLowercase (trim token)) := by
  obtain ⟨value,front,hvalue,hsplit⟩ := getStr_addTo_of_seen h token
  have hfound : (some value >>= lastElement) = some (trim token) :=
    lastElement_of_split hsplit hcomma htoken
  rw [effectiveHost,hpeer,if_pos rfl,List.findSome?_cons,hvalue,hfound]

theorem effectiveHost_addTo_of_not_seen (h : ¬ addition.SeenIn xForwardedHost headers)
    (token : Text) : effectiveHost (addition.addTo xForwardedHost headers token) peer trusted =
      effectiveHost headers peer trusted := by
  have hother : ∀ other, eqIgnoreAsciiCase xForwardedHost other = false →
      (addition.addTo xForwardedHost headers token).getStr other = headers.getStr other :=
    fun other hne => getStr_addTo_of_ne hne addition headers token
  simp only [effectiveHost,List.findSome?_cons,List.findSome?_nil,
    getStr_addTo_of_not_seen h token,hother xForwardedServer (by decide),
    hother "host".toList (by decide)]

theorem seenIn_empty (addition : Addition) (name : Text) : addition.SeenIn name {} := by
  cases addition with
  | element => exact ⟨Nat.zero_le _,nofun⟩
  | line => rfl

/-- What a trusted proxy adds decides, whatever the client sent: this holds for the scheme exactly
when the client sent no line, and for the host exactly when its lines leave the first one to the
proxy. -/
theorem forwarded_by_closest_iff (addition : Addition) (headers : HeaderMap) :
    ((∀ trusted peer token, isTrustedProxy peer trusted = true →
      isSecure false (addition.addTo xForwardedProto headers token) peer trusted =
        isSecure false (addition.addTo xForwardedProto {} token) peer trusted) ↔
      headers.getAll xForwardedProto = []) ∧
    ((∀ trusted peer token, isTrustedProxy peer trusted = true → ',' ∉ token → trim token ≠ [] →
      effectiveHost (addition.addTo xForwardedHost headers token) peer trusted =
        effectiveHost (addition.addTo xForwardedHost {} token) peer trusted) ↔
      addition.SeenIn xForwardedHost headers) := by
  refine ⟨⟨fun hall => ?_,fun hnil trusted peer token _ => ?_⟩,fun hall => ?_,
    fun hseen trusted peer token hpeer hcomma htoken => ?_⟩
  · by_contra hlines
    have hone := hall [⟨loopback,32⟩] loopback "https".toList (by decide)
    have htwo := hall [⟨loopback,32⟩] loopback "http".toList (by decide)
    rw [isSecure_addTo_of_ne_nil hlines] at hone htwo
    have hdiffer := hone.symm.trans htwo
    cases addition <;> exact absurd hdiffer (by decide)
  · have hvalue : ∀ headers : HeaderMap, headers.getAll xForwardedProto = [] →
        (addition.addTo xForwardedProto headers token).getStr xForwardedProto = some token := by
      intro headers hnil
      rw [HeaderMap.getStr,HeaderMap.get_eq_head?]
      rcases getAll_addTo addition xForwardedProto headers token with
        ⟨-,hlines⟩ | ⟨-,lines,last,hold,-⟩
      · rw [hlines,hnil]
        rfl
      · exact absurd (hold.symm.trans hnil) (by simp)
    rw [isSecure,isSecure,hvalue headers hnil,hvalue {} rfl]
  · by_contra hseen
    have hone := hall [⟨loopback,32⟩] loopback ['a'] (by decide) (by decide) (by decide)
    have htwo := hall [⟨loopback,32⟩] loopback ['b'] (by decide) (by decide) (by decide)
    rw [effectiveHost_addTo_of_not_seen hseen] at hone htwo
    have hdiffer := hone.symm.trans htwo
    cases addition <;> exact absurd hdiffer (by decide)
  · rw [effectiveHost_added hseen hpeer hcomma htoken,
      effectiveHost_added (seenIn_empty addition _) hpeer hcomma htoken]

/-- The client of a plain connection claims `https` before the proxy adds `http`, and names a host
in a line before the one of the proxy: both are believed. -/
theorem forwarded_forged :
    isSecure false (Addition.element.addTo xForwardedProto
        ⟨[(xForwardedProto, .text "https".toList)]⟩ "http".toList) loopback [⟨loopback, 32⟩] = true ∧
      effectiveHost (Addition.line.addTo xForwardedHost ⟨[(xForwardedHost, .text ['e'])]⟩ ['w'])
        loopback [⟨loopback, 32⟩] = some ['e'] :=
  ⟨by decide,by decide⟩

end Courierust.Ws
