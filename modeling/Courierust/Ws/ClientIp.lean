import Courierust.Http.Fields
import Courierust.Net.Ip

/-!
# The address of a client behind a proxy

`client_ip` believes `X-Forwarded-For` when the peer is a trusted proxy, and takes the right-most
address that is not a trusted proxy itself. A header may come in several field lines, and `get`
sees the first: what the proxy added is found there or not at all.
-/

namespace Courierust.Ws

open List
open Str (Text split trim splitOnce isDigit)
open Http (HeaderMap HeaderValue)
open Net (IpAddr IpNet isTrustedProxy)

def parseForwardedIp (token : Text) : Option IpAddr :=
  let token := trim token
  if token.isEmpty then none
  else
    match token with
    | '[' :: rest => splitOnce ']' rest >>= fun p => IpAddr.parse p.1
    | token =>
      match splitOnce ':' token with
      | some (host, port) =>
        -- a single colon with a number behind it is a port
        if !host.contains ':' && !port.isEmpty && port.all isDigit then IpAddr.parse host
        else IpAddr.parse token
      | none => IpAddr.parse token

example : parseForwardedIp " 192.0.2.1:8080".toList = some (.v4 0xc0000201) := by decide

example : parseForwardedIp "[2001:db8::1]:443".toList =
    some (.v6 0x20010db8000000000000000000000001) := by decide

/-- `x-forwarded-for`. -/
def xForwardedFor : Text := "x-forwarded-for".toList

/-- `x-forwarded-proto`. -/
def xForwardedProto : Text := "x-forwarded-proto".toList

/-- `x-forwarded-host`. -/
def xForwardedHost : Text := "x-forwarded-host".toList

/-- `x-real-ip`. -/
def xRealIp : Text := "x-real-ip".toList

def rightMostUntrusted (trusted : List IpNet) (value : Text) : Option IpAddr :=
  (split ',' value).reverse.findSome? fun part =>
    (parseForwardedIp part).filter fun ip => !isTrustedProxy ip trusted

def clientIp (peer : IpAddr) (headers : HeaderMap) (trusted : List IpNet) : IpAddr :=
  if !isTrustedProxy peer trusted then peer
  else
    match headers.getStr xForwardedFor >>= rightMostUntrusted trusted with
    | some ip => ip
    | none =>
      match headers.getStr xRealIp >>= parseForwardedIp with
      | some ip => ip
      | none => peer

/-! ### What a proxy adds -/

/-- The two ways to add an address: behind the elements of the last field line, or in a field
line of its own. -/
inductive Addition where
  | element
  | line

def extend (token : Text) : HeaderValue → HeaderValue
  | .text s => .text (s ++ ',' :: token)
  | .binary octets => .binary (octets ++ 0x2c :: token.flatMap String.utf8EncodeChar)

def extendLast (name token : Text) : List (Text × HeaderValue) → List (Text × HeaderValue)
  | [] => []
  | field :: rest =>
    if rest.any (HeaderMap.named name) = false ∧ HeaderMap.named name field then
      (field.1, extend token field.2) :: rest
    else field :: extendLast name token rest

def Addition.addTo (addition : Addition) (name : Text) (headers : HeaderMap) (token : Text) :
    HeaderMap :=
  match addition with
  | .element =>
    if headers.containsKey name then ⟨extendLast name token headers.entries⟩
    else headers.append name (.text token)
  | .line => headers.append name (.text token)

def Addition.add (addition : Addition) (headers : HeaderMap) (token : Text) : HeaderMap :=
  addition.addTo xForwardedFor headers token

structure Spells (token : Text) (ip : IpAddr) : Prop where
  element : ',' ∉ token
  parse : parseForwardedIp token = some ip

/-- What is added stands where `get` looks: the client sent no line, or a single one that is text
and that the proxy extends. -/
def Addition.SeenIn (addition : Addition) (name : Text) (headers : HeaderMap) : Prop :=
  match addition with
  | .element => (headers.getAll name).length ≤ 1 ∧ ∀ v ∈ headers.getAll name, v.toStr.isSome
  | .line => headers.getAll name = []

def Addition.Seen (addition : Addition) (headers : HeaderMap) : Prop :=
  addition.SeenIn xForwardedFor headers

variable {name other : Text}

theorem extendLast_filter
    (h : ∀ field, HeaderMap.named name field → HeaderMap.named other field = false)
    (token : Text) (entries : List (Text × HeaderValue)) :
    (extendLast name token entries).filter (HeaderMap.named other) =
      entries.filter (HeaderMap.named other) := by
  induction entries with
  | nil => rfl
  | cons field rest ih =>
    rw [extendLast]
    split_ifs with hlast
    · have hold := h field hlast.2
      have hnew : HeaderMap.named other (field.1,extend token field.2) = false := hold
      rw [filter_cons,filter_cons,hnew,hold]
      rfl
    · rw [filter_cons,filter_cons,ih]

theorem getAll_extendLast (token : Text) {entries : List (Text × HeaderValue)}
    {lines : List HeaderValue} {last : HeaderValue}
    (h : HeaderMap.getAll ⟨entries⟩ name = lines ++ [last]) :
    HeaderMap.getAll ⟨extendLast name token entries⟩ name = lines ++ [extend token last] := by
  induction entries generalizing lines with
  | nil => exact absurd h.symm (append_ne_nil_of_right_ne_nil _ (cons_ne_nil _ _))
  | cons field rest ih =>
    rw [HeaderMap.getAll_cons] at h
    rw [extendLast]
    by_cases hrest : rest.any (HeaderMap.named name) = false
    · rw [HeaderMap.getAll_eq_nil.2 hrest] at h
      split_ifs at h with hfield
      · have hnew : HeaderMap.named name (field.1,extend token field.2) := hfield
        obtain ⟨rfl,hlast⟩ := append_eq_singleton_iff.1 h.symm |>.resolve_right (by simp)
        rw [if_pos ⟨hrest,hfield⟩,HeaderMap.getAll_cons,if_pos hnew,
          HeaderMap.getAll_eq_nil.2 hrest,singleton_inj.1 hlast]
        rfl
      · exact absurd h.symm (append_ne_nil_of_right_ne_nil _ (cons_ne_nil _ _))
    · have hsome : HeaderMap.getAll ⟨rest⟩ name ≠ [] := by
        rwa [ne_eq,HeaderMap.getAll_eq_nil]
      rw [if_neg fun hlast => hrest hlast.1,HeaderMap.getAll_cons]
      split_ifs at h ⊢ with hfield
      · cases lines with
        | nil => exact absurd (List.cons.inj h).2 hsome
        | cons first lines =>
          obtain ⟨rfl,htail⟩ := List.cons.inj h
          rw [ih htail]
          rfl
      · exact ih h

variable {headers : HeaderMap} {addition : Addition}

theorem getStr_addTo_of_ne (hne : Str.eqIgnoreAsciiCase name other = false) (addition : Addition)
    (headers : HeaderMap) (token : Text) :
    (addition.addTo name headers token).getStr other = headers.getStr other := by
  have happend : (headers.append name (.text token)).getAll other = headers.getAll other := by
    rw [HeaderMap.getAll_append,if_neg (by rw [hne]; decide),append_nil]
  have hother : ∀ field, HeaderMap.named name field → HeaderMap.named other field = false := by
    intro field hfield
    rw [HeaderMap.named] at hfield ⊢
    rw [HeaderMap.eqIgnoreAsciiCase_trans hfield,hne]
  have hall : (addition.addTo name headers token).getAll other = headers.getAll other := by
    cases addition with
    | line => exact happend
    | element =>
      rw [Addition.addTo]
      split_ifs
      · exact congrArg (List.map Prod.snd) (extendLast_filter hother token headers.entries)
      · exact happend
  rw [HeaderMap.getStr,HeaderMap.getStr,HeaderMap.get_eq_head?,HeaderMap.get_eq_head?,hall]

theorem getAll_addTo (addition : Addition) (name : Text) (headers : HeaderMap) (token : Text) :
    ((addition = .line ∨ headers.getAll name = []) ∧
      (addition.addTo name headers token).getAll name = headers.getAll name ++ [.text token]) ∨
    (addition = .element ∧ ∃ lines last, headers.getAll name = lines ++ [last] ∧
      (addition.addTo name headers token).getAll name = lines ++ [extend token last]) := by
  have happend : (headers.append name (.text token)).getAll name =
      headers.getAll name ++ [.text token] := by
    rw [HeaderMap.getAll_append,if_pos (by simp [Str.eqIgnoreAsciiCase])]
  cases addition with
  | line => exact .inl ⟨.inl rfl,happend⟩
  | element =>
    rw [Addition.addTo,HeaderMap.containsKey,HeaderMap.get_eq_head?]
    rcases eq_nil_or_concat' (headers.getAll name) with hnil | ⟨lines,last,hlines⟩
    · rw [hnil]
      exact .inl ⟨.inr rfl,happend.trans (by rw [hnil])⟩
    · rw [hlines,if_pos (by simp)]
      exact .inr ⟨rfl,lines,last,rfl,getAll_extendLast token hlines⟩

theorem getStr_addTo_of_seen (h : addition.SeenIn name headers) (token : Text) :
    ∃ value front, (addition.addTo name headers token).getStr name = some value ∧
      split ',' value = front ++ split ',' token := by
  rw [HeaderMap.getStr,HeaderMap.get_eq_head?]
  rcases getAll_addTo addition name headers token with ⟨hway,hlines⟩ | ⟨rfl,lines,last,hold,hlines⟩
  · have hnil : headers.getAll name = [] := by
      rcases hway with rfl | hnil
      · exact h
      · exact hnil
    rw [hlines,hnil]
    exact ⟨token,[],rfl,rfl⟩
  · obtain ⟨hlen,htext⟩ := h
    rw [hold,length_append,length_singleton] at hlen
    obtain rfl : lines = [] := length_eq_zero_iff.1 (by omega)
    have hlast := htext last (by rw [hold]; exact mem_singleton_self last)
    cases last with
    | binary octets => cases hlast
    | text s =>
      rw [hlines]
      exact ⟨s ++ ',' :: token,split ',' s,rfl,Str.split_append ',' s token⟩

theorem getStr_addTo_of_not_seen (h : ¬ addition.SeenIn name headers) (token : Text) :
    (addition.addTo name headers token).getStr name = headers.getStr name := by
  rw [HeaderMap.getStr,HeaderMap.getStr,HeaderMap.get_eq_head?,HeaderMap.get_eq_head?]
  rcases getAll_addTo addition name headers token with ⟨hway,hlines⟩ | ⟨rfl,lines,last,hold,hlines⟩
  · have hne : headers.getAll name ≠ [] := by
      intro hnil
      refine h ?_
      cases addition with
      | line => exact hnil
      | element =>
        rw [Addition.SeenIn,hnil]
        exact ⟨Nat.zero_le _,by simp⟩
    rw [hlines,head?_append_of_ne_nil _ hne]
  · rw [hlines,hold]
    cases lines with
    | cons first lines => rfl
    | nil =>
      -- a single line that is not text stays unreadable
      cases last with
      | binary octets => rfl
      | text s =>
        refine absurd ⟨?_,?_⟩ h
        · rw [hold]
          exact le_rfl
        · rw [hold]
          simp [HeaderValue.toStr]

theorem clientIp_added (h : addition.Seen headers) {trusted : List IpNet} {peer ip : IpAddr}
    {token : Text} (hpeer : isTrustedProxy peer trusted = true)
    (hip : isTrustedProxy ip trusted = false) (htoken : Spells token ip) :
    clientIp peer (addition.add headers token) trusted = ip := by
  obtain ⟨value,front,hvalue,hsplit⟩ := getStr_addTo_of_seen h token
  have hfound : rightMostUntrusted trusted value = some ip := by
    rw [rightMostUntrusted,hsplit,Str.split_of_notMem htoken.element,reverse_append,
      reverse_singleton,singleton_append,findSome?_cons,htoken.parse,Option.filter_some,hip]
    rfl
  rw [clientIp,Addition.add,hpeer,hvalue,Option.bind_eq_bind,Option.bind_some,hfound]
  rfl

def loopback : IpAddr := .v4 0x7f000001

/-- Whatever the client sends, an untrusted address that a trusted proxy adds is the client's
address: this holds exactly when the lines of the client leave the first field line to the
proxy. -/
theorem client_not_forged (addition : Addition) (headers : HeaderMap) :
    (∀ trusted peer ip token, isTrustedProxy peer trusted = true →
      isTrustedProxy ip trusted = false → Spells token ip →
        clientIp peer (addition.add headers token) trusted = ip) ↔ addition.Seen headers := by
  constructor
  · intro hall
    by_contra hseen
    -- two addresses that are added without being seen give the same result
    have hsame : ∀ token, clientIp loopback (addition.add headers token) [⟨loopback,32⟩] =
        clientIp loopback headers [⟨loopback,32⟩] := by
      intro token
      have hfor : (addition.add headers token).getStr xForwardedFor = headers.getStr xForwardedFor :=
        getStr_addTo_of_not_seen hseen token
      have hreal : (addition.add headers token).getStr xRealIp = headers.getStr xRealIp :=
        getStr_addTo_of_ne (by decide) addition headers token
      simp only [clientIp,hfor,hreal]
    have hone := hall [⟨loopback,32⟩] loopback (.v4 0x01010101) "1.1.1.1".toList (by decide)
      (by decide) ⟨by decide,by decide⟩
    have htwo := hall [⟨loopback,32⟩] loopback (.v4 0x02020202) "2.2.2.2".toList (by decide)
      (by decide) ⟨by decide,by decide⟩
    rw [hsame] at hone htwo
    exact absurd (hone.symm.trans htwo) (by decide)
  · intro hseen trusted peer ip token hpeer hip htoken
    exact clientIp_added hseen hpeer hip htoken

/-- The client sends a line, and the proxy adds the address it saw in a line of its own: the
client has chosen its address. -/
theorem client_forged :
    Spells "192.0.2.1".toList (.v4 0xc0000201) ∧
      isTrustedProxy (.v4 0xc0000201) [⟨loopback, 32⟩] = false ∧
      clientIp loopback (Addition.line.add
        ⟨[(xForwardedFor, .text "6.6.6.6".toList)]⟩ "192.0.2.1".toList) [⟨loopback, 32⟩] =
          .v4 0x06060606 :=
  ⟨⟨by decide,by decide⟩,by decide,by decide⟩

end Courierust.Ws
