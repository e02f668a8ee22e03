import Courierust.Client.Isolation

/-!
# Redirects

`execute_with_redirects` of the client: the request of a hop, the resolution of its `Location`
and the request of the next hop. What the network answers, and what other clones of the client
do to the shared jar in the meantime, is an input; the transfer is what was sent for it.
-/

namespace Courierust.Client

open List
open Http
open Str (Text)

/-! ### Locations -/

def splitQuery (target : Text) : Text × Option Text :=
  match Str.splitOnce '?' target with
  | some (path, query) => (path, some query)
  | none => (target, none)

def mergePaths (basePath reference : Text) : Text :=
  match Str.rsplitOnce '/' basePath with
  | some (before, _) => before ++ '/' :: reference
  | none => '/' :: reference

/-- One segment of `remove_dot_segments`. -/
def pushSegment (out : List Text) (segment : Text) : List Text :=
  if segment = ".".toList then out
  else if segment = "..".toList then out.dropLast
  else out ++ [segment]

def removeDotSegments (path : Text) : Text :=
  let segments := Str.split '/' path
  let segments := if path.head? = some '/' then segments.tail else segments
  let result := '/' :: "/".toList.intercalate (segments.foldl pushSegment [])
  let directoryShaped := ["/", "/.", "/.."].any fun ending => ending.toList.isSuffixOf path
  if directoryShaped && result.getLast? ≠ some '/' then result ++ ['/'] else result

def resolveQuery (refPath : Text) (refQuery baseQuery : Option Text) : Option Text :=
  match refQuery with
  | some query => some query
  | none => if refPath = [] then baseQuery else none

def resolvePath (basePath refPath : Text) : Text :=
  if refPath = [] then basePath
  else if refPath.head? = some '/' then removeDotSegments refPath
  else removeDotSegments (mergePaths basePath refPath)

def resolveTarget (base : Url) (location : Text) : Text :=
  let (basePath, baseQuery) := splitQuery base.pathAndQuery
  let (refPath, refQuery) := splitQuery location
  let path := resolvePath basePath refPath
  (if path = [] then ['/'] else path) ++
    (resolveQuery refPath refQuery baseQuery).elim [] ('?' :: ·)

def resolveRedirect (base : Url) (location : Text) : Except Error Url :=
  let location := (Str.splitOnce '#' location).elim location Prod.fst
  if "//".toList.isPrefixOf location then
    Url.parse (base.scheme ++ "://".toList ++ location.drop 2)
  else if (Str.splitOnceText "://".toList location).isSome then Url.parse location
  else Url.parse (base.scheme ++ "://".toList ++ base.authority ++ resolveTarget base location)

/-! ### Requests -/

/-- `Method`, as far as redirects tell methods apart. -/
inductive Method where
  | get
  | post
  | other (name : Text)
  deriving DecidableEq

/-- `Body`. What a streaming body will yield is not known. -/
inductive Body where
  | empty
  | bytes (octets : List UInt8)
  | channel
  | stream
  deriving DecidableEq

def Body.isEmpty : Body → Bool
  | .empty => true
  | .bytes octets => octets.isEmpty
  | .channel => false
  | .stream => false

structure Request where
  method : Method
  uri : Text
  headers : HeaderMap := {}
  body : Body := .empty
  deriving DecidableEq

/-- `Response`, without its body. -/
structure Response where
  status : ℕ
  headers : HeaderMap := {}

/-- The part of `ClientConfig` that is used here. -/
structure Config where
  maxRedirects : ℕ := 10
  defaultHeaders : HeaderMap := {}
  acceptEncoding : Bool := true

def field (name : String) : Text := name.toList

/-- `with_default_headers`, on the fields. -/
def withDefaultHeaders (config : Config) (headers : HeaderMap) : HeaderMap :=
  config.defaultHeaders.entries.foldl
    (fun headers entry =>
      if headers.containsKey entry.1 then headers else headers.insert entry.1 entry.2) headers

def headDeclaresBody (headers : HeaderMap) : Bool :=
  if headers.containsKey (field "transfer-encoding") then true
  else
    match (headers.getStr (field "content-length")).map Str.trim with
    | some len => (Str.parseUnsigned (2 ^ 64 - 1) len).elim true fun n => 0 < n
    | none => false

def offerContentEncodings (config : Config) (headers : HeaderMap) : HeaderMap :=
  if !config.acceptEncoding || headers.containsKey (field "accept-encoding") then headers
  else headers.insert (field "accept-encoding") (.text "gzip, deflate".toList)

def storeCookies (jar : Option CookieJar) (url : Url) (resp : Response) (now : ℤ) :
    Option CookieJar :=
  jar.map fun jar => ((resp.headers.getAll (field "set-cookie")).filterMap HeaderValue.toStr).foldl
    (fun jar text => jar.storeAt url text now) jar

def nextMethod (status : ℕ) (method : Method) : Method :=
  if status = 303 then .get
  else if (status = 301 ∨ status = 302) ∧ method = .post then .get
  else method

def credentialFields : List Text :=
  [field "authorization", field "proxy-authorization", field "cookie"]

def bodyFields : List Text :=
  [field "content-length", field "content-type", field "transfer-encoding"]

def nextHeaders (url next : Url) (headers : HeaderMap) : HeaderMap :=
  let crossOrigin := next.authority ≠ url.authority ∨ next.scheme ≠ url.scheme
  bodyFields.foldl HeaderMap.remove
    (if crossOrigin then credentialFields.foldl HeaderMap.remove headers else headers)

/-- The next hop, if the response is a redirect that is followed. `req` is the request with the
default fields, before anything else is added to it. -/
def followUp (url : Url) (req : Request) (resp : Response) :
    Except Error (Option (Url × Request)) :=
  let hadBody := !req.body.isEmpty || headDeclaresBody req.headers
  let isRedirect := 300 ≤ resp.status ∧ resp.status < 400 ∧ resp.status ≠ 304
  if isRedirect then
    match resp.headers.getStr (field "location") with
    | none => .ok none
    | some location =>
      match resolveRedirect url location with
      | .error e => .error e
      | .ok next =>
        let method := nextMethod resp.status req.method
        if method = req.method ∧ hadBody then .ok none
        else
          .ok (some (next,
            { method, uri := next.pathAndQuery, headers := nextHeaders url next req.headers }))
  else .ok none

/-! ### Transfers -/

structure Sent where
  url : Url
  request : Request
  jar : Option CookieJar

/-- What one hop meets: the answer, whether its body can be decoded, the time, and the cookies
that others store in the jar before the next hop. -/
structure Exchange where
  response : Except Error Response
  decoding : Except Error Unit := .ok ()
  now : ℤ := 0
  others : List Store := []

structure Transfer where
  sent : List Sent
  outcome : Option (Except Error Response)

def original (config : Config) (depth : ℕ) (req : Request) : Request :=
  if depth = 0 then { req with headers := withDefaultHeaders config req.headers } else req

/-- The request that goes out. `execute_inner` puts the target of the URL in. -/
def outgoing (config : Config) (jar : Option CookieJar) (url : Url) (req : Request) : Sent where
  url := url
  jar := jar
  request :=
    { req with
      uri := if req.uri = ['/'] ∧ url.pathAndQuery ≠ ['/'] then url.pathAndQuery else req.uri
      headers := attachCookies jar url (offerContentEncodings config req.headers) }

/-- `execute_with_redirects`, as far as the network has answered. -/
def executeWithRedirects (config : Config) (depth : ℕ) (jar : Option CookieJar) (url : Url)
    (req : Request) : List Exchange → Transfer
  | [] => ⟨[outgoing config jar url (original config depth req)], none⟩
  | exchange :: later =>
    let first := outgoing config jar url (original config depth req)
    match exchange.response with
    | .error e => ⟨[first], some (.error e)⟩
    | .ok resp =>
      match exchange.decoding with
      | .error e => ⟨[first], some (.error e)⟩
      | .ok () =>
        if config.maxRedirects ≤ depth then ⟨[first], some (.ok resp)⟩
        else
          match followUp url (original config depth req) resp with
          | .error e => ⟨[first], some (.error e)⟩
          | .ok none => ⟨[first], some (.ok resp)⟩
          | .ok (some (next, req')) =>
            let jar := (storeCookies jar url resp exchange.now).map fun jar =>
              exchange.others.foldl CookieJar.apply jar
            let rest := executeWithRedirects config (depth + 1) jar next req' later
            ⟨first :: rest.sent, rest.outcome⟩

/-! ### Fields -/

def Lacks (name : Text) (headers : HeaderMap) : Prop := headers.getAll name = []

variable {name : Text} {headers : HeaderMap} {req : Request} {next : Url}
  {exchanges : List Exchange} (config : Config) (depth : ℕ) (jar : Option CookieJar) (url : Url)

theorem Lacks.foldl_remove (h : Lacks name headers) (names : List Text) :
    Lacks name (names.foldl HeaderMap.remove headers) := by
  induction names generalizing headers with
  | nil => exact h
  | cons other names ih => exact ih (by rw [Lacks,HeaderMap.getAll_remove,h,ite_self])

theorem lacks_foldl_remove {names : List Text} (hmem : name ∈ names) (headers : HeaderMap) :
    Lacks name (names.foldl HeaderMap.remove headers) := by
  induction names generalizing headers with
  | nil => exact absurd hmem not_mem_nil
  | cons other names ih =>
    rcases mem_cons.1 hmem with rfl | hmem
    · refine Lacks.foldl_remove ?_ names
      rw [Lacks,HeaderMap.getAll_remove,if_pos (by rw [Str.eqIgnoreAsciiCase]; simp)]
    · exact ih hmem _

theorem Lacks.insert {other : Text} {value : HeaderValue} (h : Lacks name headers)
    (hne : Str.eqIgnoreAsciiCase other name = false) : Lacks name (headers.insert other value) := by
  rw [Lacks,HeaderMap.getAll_insert,if_neg (by rw [hne]; decide),h]

theorem Lacks.offer (h : Lacks name headers)
    (hne : Str.eqIgnoreAsciiCase (field "accept-encoding") name = false) :
    Lacks name (offerContentEncodings config headers) := by
  rw [offerContentEncodings]
  split_ifs
  · exact h
  · exact h.insert hne

theorem Lacks.attach (h : Lacks name headers)
    (hne : Str.eqIgnoreAsciiCase cookieField name = false) :
    Lacks name (attachCookies jar url headers) := by
  unfold attachCookies
  repeat' split
  all_goals first
    | exact h
    | exact h.insert hne

theorem attachCookies_cookie (h : Lacks cookieField headers) :
    Lacks cookieField (attachCookies jar url headers) ∨
      ∃ own value, jar = some own ∧ own.headerValue url = some value ∧
        (attachCookies jar url headers).getAll cookieField = [.text value] := by
  cases jar with
  | none => exact .inl h
  | some own =>
    rw [attachCookies]
    split_ifs with hkey
    · exact .inl h
    cases hvalue : own.headerValue url with
    | none => exact .inl h
    | some value =>
      dsimp only
      split_ifs
      · refine .inr ⟨own,value,rfl,hvalue,?_⟩
        rw [HeaderMap.getAll_insert,if_pos (by decide)]
      · exact .inl h

/-! ### Chains -/

/-- The request carries nothing that the caller authenticates with: a cookie field, if there is
one, is the jar's for this URL. -/
structure Sent.Clean (sent : Sent) : Prop where
  authorization : Lacks (field "authorization") sent.request.headers
  proxyAuthorization : Lacks (field "proxy-authorization") sent.request.headers
  cookie : Lacks cookieField sent.request.headers ∨
    ∃ own value, sent.jar = some own ∧ own.headerValue sent.url = some value ∧
      sent.request.headers.getAll cookieField = [.text value]

structure Sent.Bare (sent : Sent) : Prop where
  body : sent.request.body = .empty
  fields : ∀ name ∈ bodyFields, Lacks name sent.request.headers

structure NextHop (url : Url) (req : Request) (next : Url) (req' : Request) : Prop where
  body : req'.body = .empty
  fields : ∀ name ∈ bodyFields, Lacks name req'.headers
  stripped : next.origin ≠ url.origin → ∀ name ∈ credentialFields, Lacks name req'.headers
  lacks : ∀ name, Lacks name req.headers → Lacks name req'.headers

theorem crossOrigin_iff (next : Url) :
    (next.authority ≠ url.authority ∨ next.scheme ≠ url.scheme) ↔ next.origin ≠ url.origin := by
  rw [Url.origin,Url.origin,ne_eq,ne_eq,ne_eq,authority_inj,Prod.mk.injEq,Prod.mk.injEq,
    ← not_and_or,and_comm]

theorem followUp_spec {url : Url} {req' : Request} {resp : Response}
    (h : followUp url req resp = .ok (some (next,req'))) : NextHop url req next req' := by
  rw [followUp] at h
  split_ifs at h with hredirect
  · cases hloc : resp.headers.getStr (field "location") with
    | none => rw [hloc] at h; cases h
    | some location =>
      rw [hloc] at h
      dsimp only at h
      cases hnext : resolveRedirect url location with
      | error e => rw [hnext] at h; cases h
      | ok target =>
        rw [hnext] at h
        split_ifs at h with hkept
        · cases h
        · cases h
          refine ⟨rfl,fun name hname => lacks_foldl_remove hname _,fun hcross name hname => ?_,
            fun name hname => Lacks.foldl_remove ?_ _⟩
          · rw [nextHeaders,if_pos ((crossOrigin_iff url next).2 hcross)]
            exact (lacks_foldl_remove hname _).foldl_remove _
          split_ifs
          · exact hname.foldl_remove _
          · exact hname
  · cases h

/-- What is sent after the first request of a call is what a call for the next hop sends. -/
theorem sent_cases (req : Request) (exchanges : List Exchange) :
    (executeWithRedirects config depth jar url req exchanges).sent =
        [outgoing config jar url (original config depth req)] ∨
    ∃ exchange later jar' next req', exchanges = exchange :: later ∧
      depth < config.maxRedirects ∧ NextHop url (original config depth req) next req' ∧
      (executeWithRedirects config depth jar url req exchanges).sent =
        outgoing config jar url (original config depth req) ::
          (executeWithRedirects config (depth+1) jar' next req' later).sent := by
  cases exchanges with
  | nil => exact .inl rfl
  | cons exchange later =>
    rw [executeWithRedirects]
    cases exchange.response with
    | error e => exact .inl rfl
    | ok resp =>
      cases exchange.decoding with
      | error e => exact .inl rfl
      | ok u =>
        dsimp only
        split_ifs with hdepth
        · exact .inl rfl
        cases hfollow : followUp url (original config depth req) resp with
        | error e => exact .inl rfl
        | ok target =>
          cases target with
          | none => exact .inl rfl
          | some target =>
            exact .inr ⟨exchange,later,_,target.1,target.2,rfl,not_le.1 hdepth,
              followUp_spec hfollow,rfl⟩

theorem outgoing_clean (h : ∀ name ∈ credentialFields, Lacks name req.headers) :
    (outgoing config jar url req).Clean := by
  have hauth := h (field "authorization") (by decide)
  have hproxy := h (field "proxy-authorization") (by decide)
  have hcookie : Lacks cookieField req.headers := h cookieField (by decide)
  exact ⟨(hauth.offer config (by decide)).attach jar url (by decide),
    (hproxy.offer config (by decide)).attach jar url (by decide),
    attachCookies_cookie jar url (hcookie.offer config (by decide))⟩

theorem outgoing_bare (hbody : req.body = .empty)
    (h : ∀ name ∈ bodyFields, Lacks name req.headers) : (outgoing config jar url req).Bare := by
  refine ⟨hbody,fun name hname => ?_⟩
  have hother : ∀ name ∈ bodyFields,
      Str.eqIgnoreAsciiCase (field "accept-encoding") name = false ∧
        Str.eqIgnoreAsciiCase cookieField name = false := by decide
  exact ((h name hname).offer config (hother name hname).1).attach jar url (hother name hname).2

/-- What every next hop keeps of a request can be seen in all the requests that follow it. -/
theorem forall_sent {config : Config} {P : Request → Prop} {Q : Sent → Prop}
    (hkept : ∀ url req next req', P req → NextHop url req next req' → P req')
    (hout : ∀ jar url req, P req → Q (outgoing config jar url req)) {depth : ℕ}
    {jar : Option CookieJar} {url : Url} (h : P req) :
    ∀ sent ∈ (executeWithRedirects config (depth+1) jar url req exchanges).sent, Q sent := by
  induction exchanges generalizing depth jar url req with
  | nil =>
    intro sent hsent
    rw [executeWithRedirects,mem_singleton,original,if_neg depth.succ_ne_zero] at hsent
    rw [hsent]
    exact hout jar url req h
  | cons exchange later ih =>
    intro sent hsent
    rcases sent_cases config (depth+1) jar url req (exchange :: later) with
      heq | ⟨_,_,jar',next,req',hexchanges,-,hop,heq⟩
    · rw [heq,mem_singleton,original,if_neg depth.succ_ne_zero] at hsent
      rw [hsent]
      exact hout jar url req h
    obtain ⟨rfl,rfl⟩ := List.cons.inj hexchanges
    rw [heq] at hsent
    rcases mem_cons.1 hsent with rfl | hsent
    · exact hout jar url req h
    · exact ih (hkept url req next req' h hop) sent hsent

/-- Credentials do not leave their origin: after a request to another origin than that of `url`,
none is sent that carries them, and no request but the first has a body. -/
structure Confined (url : Url) (followUps : ℕ) (sent : List Sent) : Prop where
  first : sent.head?.map Sent.url = some url
  credentials : ∀ (i j : ℕ) (a b : Sent), i ≤ j → sent[i]? = some a → sent[j]? = some b →
    a.url.origin ≠ url.origin → b.Clean
  length_le : sent.length ≤ followUps + 1
  bare : ∀ later ∈ sent.tail, later.Bare

theorem confined_singleton (req : Request) (followUps : ℕ) :
    Confined url followUps [outgoing config jar url req] := by
  refine ⟨rfl,fun i j a b hij ha hb hother => ?_,Nat.le_add_left 1 followUps,
    fun later hlater => absurd hlater not_mem_nil⟩
  obtain rfl : i = 0 := by
    have hi := (List.getElem?_eq_some_iff.1 ha).1
    rw [length_singleton] at hi
    omega
  cases ha
  exact absurd rfl hother

theorem confined_chain (req : Request) (exchanges : List Exchange) :
    Confined url (config.maxRedirects-depth)
      (executeWithRedirects config depth jar url req exchanges).sent := by
  induction exchanges generalizing depth jar url req with
  | nil => exact confined_singleton config jar url _ _
  | cons exchange later ih =>
    rcases sent_cases config depth jar url req (exchange :: later) with
      heq | ⟨_,_,jar',next,req',hexchanges,hdepth,hop,heq⟩
    · rw [heq]
      exact confined_singleton config jar url _ _
    obtain ⟨rfl,rfl⟩ := List.cons.inj hexchanges
    have hrest := ih (depth+1) jar' next req'
    rw [heq]
    refine ⟨rfl,?_,?_,forall_sent
      (P := fun req => req.body = .empty ∧ ∀ name ∈ bodyFields, Lacks name req.headers)
      (fun _ _ _ _ _ hop => ⟨hop.body,hop.fields⟩)
      (fun jar url _ hreq => outgoing_bare config jar url hreq.1 hreq.2) ⟨hop.body,hop.fields⟩⟩
    · intro i j a b hij ha hb hother
      cases i with
      | zero =>
        cases ha
        exact absurd rfl hother
      | succ i =>
        obtain ⟨j,rfl⟩ : ∃ k, j = k+1 := ⟨j-1,by omega⟩
        by_cases hnext : next.origin = url.origin
        · exact hrest.credentials i j a b (by omega) ha hb (by rwa [hnext])
        · refine forall_sent (fun _ _ _ _ hreq hop name hname => hop.lacks name (hreq name hname))
            (fun jar url _ hreq => outgoing_clean config jar url hreq) (hop.stripped hnext) b
            (mem_of_getElem? hb)
    · have hlen := hrest.length_le
      rw [length_cons]
      omega

/-- In every call, whatever the network answers, the credentials of the caller stay at their
origin, at most `max_redirects` follow-ups are sent, and none of them has a body. -/
theorem credentials_confined (config : Config) (jar : Option CookieJar) (url : Url) (req : Request)
    (exchanges : List Exchange) :
    Confined url config.maxRedirects
      (executeWithRedirects config 0 jar url req exchanges).sent :=
  confined_chain config 0 jar url req exchanges

def redirectTo (location : String) : Exchange where
  response := .ok ⟨302, ⟨[(field "location", .text location.toList)]⟩⟩

example :
    (executeWithRedirects {} 0 none ⟨field "https", field "a", 443, ['/'], none⟩
      { method := .get, uri := ['/'], headers := ⟨[(field "authorization", .text ['x'])]⟩ }
      [redirectTo "/next", redirectTo "//b/", redirectTo "https://a/"]).sent.map
        (fun sent => (sent.url.host, (sent.request.headers.getAll (field "authorization")).length)) =
      [(field "a", 1), (field "a", 1), (field "b", 0), (field "a", 0)] := by decide

end Courierust.Client
