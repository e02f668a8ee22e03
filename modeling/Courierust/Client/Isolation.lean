import Courierust.Client.Jar

/-!
# Histories of a cookie jar

What a jar holds after any sequence of `Set-Cookie` values from any URLs, and what it sends.
-/

namespace Courierust.Client

open List
open Http
open Str (Text)

/-! ### Histories -/

/-- A `Set-Cookie` value from a URL, at a time. -/
structure Store where
  url : Url
  setCookie : Text
  now : ℤ

/-- The operation leaves the cookie behind: the host may set it, and it is alive. `path` is what
the default path is made of. -/
def Store.Sets (path : Url → Text) (op : Store) (cookie : Cookie) : Prop :=
  ∃ parsed, parseSetCookie op.setCookie = some parsed ∧
    (∀ domain ∈ parsed.domain, DomainMatch op.url.host domain) ∧
    op.now < parsed.deletionAt op.now ∧
    cookie = { parsed.cookie op.url (path op.url) op.now with created := cookie.created }

variable {history : List Store} {op : Store}

namespace CookieJar

def apply (jar : CookieJar) (op : Store) : CookieJar := jar.storeAt op.url op.setCookie op.now

variable {jar : CookieJar} {cookie : Cookie}

theorem mem_place {c : Cookie} (hc : c ∈ (jar.place cookie).cookies) :
    c ∈ jar.cookies ∨ c = { cookie with created := c.created } := by
  rcases jar.place_cases cookie with ⟨i,old,-,-,heq⟩ | ⟨-,heq⟩
  · rw [heq] at hc
    rcases mem_or_eq_of_mem_set hc with hc | rfl
    · exact .inl hc
    · exact .inr rfl
  · rw [heq] at hc
    rcases mem_append.1 hc with hc | hc
    · exact .inl hc
    · rw [mem_singleton] at hc
      exact .inr (by rw [hc])

theorem sets_of_mem_apply (hmem : cookie ∈ (jar.apply op).cookies) :
    cookie ∈ jar.cookies ∨ op.Sets Url.pathAndQuery cookie := by
  rcases jar.storeAt_cases op.url op.setCookie op.now with
    ⟨cookies,heq,hsub⟩ | ⟨parsed,hparsed,hdomain,halive,heq⟩
  · rw [apply,heq] at hmem
    exact .inl (hsub.subset hmem)
  obtain ⟨cookies,hlimits,hsub,-⟩ :=
    enforceLimits_eq (jar.place (parsed.cookie op.url op.url.pathAndQuery op.now))
  rw [apply,heq,hlimits] at hmem
  rcases mem_place (hsub.subset hmem) with hold | hnew
  · exact .inl hold
  · exact .inr ⟨parsed,hparsed,hdomain,halive,hnew⟩

theorem sets_of_mem_run (hmem : cookie ∈ (Run.run apply jar history).cookies) :
    cookie ∈ jar.cookies ∨ ∃ op ∈ history, op.Sets Url.pathAndQuery cookie := by
  induction history generalizing jar with
  | nil => exact .inl hmem
  | cons op history ih =>
    rcases ih hmem with hfirst | ⟨later,hlater,hsets⟩
    · rcases sets_of_mem_apply hfirst with hold | hsets
      · exact .inl hold
      · exact .inr ⟨op,mem_cons_self,hsets⟩
    · exact .inr ⟨later,mem_cons_of_mem op hlater,hsets⟩

theorem within_apply (h : jar.Within) (op : Store) : (jar.apply op).Within := by
  rcases jar.storeAt_cases op.url op.setCookie op.now with ⟨cookies,heq,hsub⟩ | ⟨_,_,_,_,heq⟩
  · rw [apply,heq]
    exact ⟨hsub.length_le.trans h.total,fun host => hsub.countP_le.trans (h.perHost host)⟩
  · rw [apply,heq]
    obtain ⟨-,-,-,hwithin,-⟩ := enforceLimits_eq (jar.place _)
    exact hwithin

theorem within_run (maxCookies maxPerHost : ℕ) (history : List Store) :
    (Run.run apply (withLimits maxCookies maxPerHost) history).Within := by
  refine Run.invariant (I := Within) (fun _ op h _ => within_apply h op) ?_
    (Run.along_of_forall (fun _ _ => trivial) _ history)
  exact ⟨Nat.zero_le _,fun _ => Nat.zero_le _⟩

end CookieJar

/-! ### Births -/

/-- A jar, the births of its keys and the number of operations so far. -/
structure Chronicle where
  jar : CookieJar
  born : Text × Text × Text → ℕ := fun _ => 0
  now : ℕ := 0

variable {chronicle : Chronicle} {maxCookies maxPerHost : ℕ}

namespace Chronicle

def record (chronicle : Chronicle) (op : Store) : Chronicle where
  jar := chronicle.jar.apply op
  born := Stamped.births Cookie.key chronicle.jar.cookies chronicle.born chronicle.now
  now := chronicle.now + 1

def of (maxCookies maxPerHost : ℕ) (history : List Store) : Chronicle :=
  Run.run record { jar := CookieJar.withLimits maxCookies maxPerHost } history

theorem run_jar (chronicle : Chronicle) (history : List Store) :
    (Run.run record chronicle history).jar = Run.run CookieJar.apply chronicle.jar history := by
  induction history generalizing chronicle with
  | nil => rfl
  | cons op history ih => exact ih (chronicle.record op)

def Aged (chronicle : Chronicle) : Prop :=
  Stamped.Aged Cookie.key Cookie.created chronicle.born chronicle.jar.nextCreated chronicle.now
    chronicle.jar.cookies

theorem aged_record (h : chronicle.Aged) (op : Store) :
    (chronicle.record op).Aged := by
  rcases chronicle.jar.storeAt_cases op.url op.setCookie op.now with
    ⟨cookies,heq,hsub⟩ | ⟨parsed,-,-,-,heq⟩
  · rw [Aged,record,CookieJar.apply,heq]
    exact h.tick.sublist hsub
  obtain ⟨cookies,hlimits,hsub,-⟩ := CookieJar.enforceLimits_eq
    (chronicle.jar.place (parsed.cookie op.url op.url.pathAndQuery op.now))
  rw [Aged,record,CookieJar.apply,heq,hlimits]
  refine Stamped.Aged.sublist ?_ hsub
  rcases chronicle.jar.place_cases (parsed.cookie op.url op.url.pathAndQuery op.now) with
    ⟨i,old,hold,hkey,hplace⟩ | ⟨hkey,hplace⟩
  · rw [hplace]
    exact h.tick.replace hold hkey.symm rfl
  · rw [hplace]
    exact h.push hkey rfl

theorem aged_run (maxCookies maxPerHost : ℕ) (history : List Store) :
    (of maxCookies maxPerHost history).Aged :=
  Run.invariant (I := Aged) (fun _ op h _ => aged_record h op)
    (s := { jar := CookieJar.withLimits maxCookies maxPerHost }) Stamped.Aged.nil
    (Run.along_of_forall (fun _ _ => trivial) _ history)

/-- After any history, the limits hold, no two cookies have a key or a creation number in common,
and what a store evicts is always the oldest of a group over its limit. -/
theorem jar_invariant (maxCookies maxPerHost : ℕ) (history : List Store) :
    let jar := Run.run CookieJar.apply (CookieJar.withLimits maxCookies maxPerHost) history
    jar.Within ∧ (jar.cookies.map Cookie.key).Nodup ∧ (jar.cookies.map Cookie.created).Nodup ∧
      ∀ cookie, Relation.ReflTransGen (jar.place cookie).EvictsOldest (jar.place cookie).cookies
        (jar.place cookie).enforceLimits.cookies := by
  intro jar
  have hordered := (aged_run maxCookies maxPerHost history).ordered
  rw [of,run_jar] at hordered
  refine ⟨CookieJar.within_run maxCookies maxPerHost history,
    pairwise_map.2 (hordered.imp fun hlt heq => ?_),
    pairwise_map.2 (hordered.imp fun hlt => hlt.1.ne),fun cookie => ?_⟩
  · rw [heq] at hlt
    exact hlt.2.false
  · obtain ⟨cookies,heq,-,-,hevicts⟩ := (jar.place cookie).enforceLimits_eq
    rw [heq]
    exact hevicts

theorem sets_of_mem {cookie : Cookie}
    (hmem : cookie ∈ (of maxCookies maxPerHost history).jar.cookies) :
    ∃ op ∈ history, op.Sets Url.pathAndQuery cookie := by
  rw [of,run_jar] at hmem
  rcases CookieJar.sets_of_mem_run hmem with hempty | hsets
  · exact absurd hempty not_mem_nil
  · exact hsets

end Chronicle

/-! ### What is sent -/

/-- The cookie belongs into a request for this URL, whose path is given. -/
structure Cookie.Matches (url : Url) (requestPath : Text) (cookie : Cookie) : Prop where
  host : (cookie.domain = none ∧ url.host = cookie.host) ∨
    ∃ domain, cookie.domain = some domain ∧ DomainMatch url.host domain
  path : PathMatch requestPath cookie.path
  secure : cookie.secure = true → url.scheme = "https".toList

variable {cookie : Cookie} (url : Url)

theorem hostMatches_iff (cookie : Cookie) :
    cookie.hostMatches url = true ↔ (cookie.domain = none ∧ url.host = cookie.host) ∨
      ∃ domain, cookie.domain = some domain ∧ DomainMatch url.host domain := by
  rw [Cookie.hostMatches]
  cases hdomain : cookie.domain with
  | none => simp
  | some domain => simp [domainMatch_iff]

theorem sentTo_iff (cookie : Cookie) :
    cookie.sentTo url = true ↔ cookie.Matches url url.pathAndQuery := by
  rw [Cookie.sentTo,Bool.and_eq_true,Bool.and_eq_true,hostMatches_iff,pathMatch_iff]
  constructor
  · rintro ⟨⟨hhost,hpath⟩,hsecure⟩
    refine ⟨hhost,hpath,fun h => ?_⟩
    simpa [h] using hsecure
  · rintro ⟨hhost,hpath,hsecure⟩
    refine ⟨⟨hhost,hpath⟩,?_⟩
    cases h : cookie.secure with
    | false => rfl
    | true => simp [hsecure h]

theorem mem_matched {jar : CookieJar} {url : Url} :
    cookie ∈ jar.matched url ↔ cookie ∈ jar.cookies ∧ cookie.Matches url url.pathAndQuery := by
  rw [CookieJar.matched,(perm_insertionSort _ _).mem_iff,mem_filter,sentTo_iff]

def Cookie.pair (cookie : Cookie) : Text := cookie.name ++ '=' :: cookie.value

theorem cookieText_foldl (cookies : List Cookie) {out : Text} (hout : out ≠ []) :
    cookies.foldl (fun out cookie =>
        (if out.isEmpty then out else out ++ "; ".toList) ++ cookie.name ++ '=' :: cookie.value)
      out = "; ".toList.intercalate (out :: cookies.map Cookie.pair) := by
  induction cookies generalizing out with
  | nil => simp
  | cons cookie cookies ih =>
    rw [foldl_cons,if_neg (by simpa using hout),ih (by simp),map_cons,
      intercalate_cons_cons]
    cases cookies with
    | nil => simp [Cookie.pair]
    | cons other cookies =>
      simp [Cookie.pair]

theorem cookieText_eq (cookies : List Cookie) :
    cookieText cookies = "; ".toList.intercalate (cookies.map Cookie.pair) := by
  cases cookies with
  | nil => rfl
  | cons cookie cookies =>
    rw [cookieText,foldl_cons,cookieText_foldl _ (by simp)]
    rfl

/-- What is sent to `url` after a history. -/
structure Isolated (history : List Store) (chronicle : Chronicle) (url : Url) : Prop where
  /-- A cookie goes to the host that set it, or to one below the domain both belong to. -/
  origin : ∀ cookie ∈ chronicle.jar.matched url, ∃ op ∈ history, op.Sets Url.path cookie ∧
    (url.host = op.url.host ∨ ∃ domain, cookie.domain = some domain ∧
      DomainMatch op.url.host domain ∧ DomainMatch url.host domain)
  secure : ∀ cookie ∈ chronicle.jar.matched url, cookie.secure = true →
    url.scheme = "https".toList
  complete : ∀ cookie, cookie ∈ chronicle.jar.matched url ↔
    cookie ∈ chronicle.jar.cookies ∧ cookie.Matches url url.path
  ordered : (chronicle.jar.matched url).Pairwise fun a b => Str.len b.path < Str.len a.path ∨
    (Str.len a.path = Str.len b.path ∧ chronicle.born a.key < chronicle.born b.key)
  header : chronicle.jar.headerValue url =
    if (chronicle.jar.matched url).isEmpty then none
    else some ("; ".toList.intercalate ((chronicle.jar.matched url).map Cookie.pair))

theorem defaultPath_append {path query : Text} (h : '/' ∉ query) :
    defaultPath (path ++ query) = defaultPath path := by
  have hquery : ∀ c ∈ query.reverse, decide (c ≠ '/') = true := by
    intro c hc
    rw [mem_reverse] at hc
    exact decide_eq_true (ne_of_mem_of_not_mem hc h)
  rw [defaultPath,defaultPath,Str.rsplitOnce,Str.rsplitOnce,reverse_append,
    Str.splitOnce,Str.splitOnce,dropWhile_append_of_pos hquery]
  cases List.dropWhile (fun c => decide (c ≠ '/')) path.reverse with
  | nil => rfl
  | cons c rest => rfl

theorem path_append : url.path ++ url.pathAndQuery.dropWhile (· ≠ '?') = url.pathAndQuery :=
  takeWhile_append_dropWhile

theorem path_of_no_query {url : Url} (h : '?' ∉ url.pathAndQuery) : url.path = url.pathAndQuery :=
  takeWhile_eq_self_iff.2 fun _ hc => decide_eq_true (ne_of_mem_of_not_mem hc h)

def Store.PlainQuery (op : Store) : Prop := '/' ∉ op.url.pathAndQuery.dropWhile (· ≠ '?')

instance : DecidablePred Store.PlainQuery := fun op =>
  inferInstanceAs (Decidable ('/' ∉ op.url.pathAndQuery.dropWhile (· ≠ '?')))

theorem Store.Sets.path_of_plainQuery (h : op.Sets Url.pathAndQuery cookie)
    (hplain : op.PlainQuery) : op.Sets Url.path cookie := by
  obtain ⟨parsed,hparsed,hdomain,halive,heq⟩ := h
  have hpath : parsed.storedPath op.url.pathAndQuery = parsed.storedPath op.url.path := by
    rw [ParsedCookie.storedPath,ParsedCookie.storedPath,← path_append op.url,
      defaultPath_append hplain]
  refine ⟨parsed,hparsed,hdomain,halive,heq.trans ?_⟩
  rw [ParsedCookie.cookie,ParsedCookie.cookie,hpath]

/-- Whatever the URLs are, a cookie is only sent to where its host may have it, and a secure one
only over `https`. -/
theorem matched_origin {url : Url}
    (hcookie : cookie ∈ (Chronicle.of maxCookies maxPerHost history).jar.matched url) :
    (∃ op ∈ history, op.Sets Url.pathAndQuery cookie ∧
      (url.host = op.url.host ∨ ∃ domain, cookie.domain = some domain ∧
        DomainMatch op.url.host domain ∧ DomainMatch url.host domain)) ∧
    (cookie.secure = true → url.scheme = "https".toList) := by
  obtain ⟨hmem,hmatch⟩ := mem_matched.1 hcookie
  obtain ⟨op,hop,hsets⟩ := Chronicle.sets_of_mem hmem
  refine ⟨⟨op,hop,hsets,?_⟩,hmatch.secure⟩
  obtain ⟨parsed,-,hdomain,-,heq⟩ := hsets
  have hhost : cookie.host = op.url.host := by rw [heq]; rfl
  have hsame : cookie.domain = parsed.domain := by rw [heq]; rfl
  rcases hmatch.host with ⟨-,hown⟩ | ⟨domain,hsome,hbelow⟩
  · exact .inl (hown.trans hhost)
  · exact .inr ⟨domain,hsome,hdomain domain (by rw [← hsame,hsome]; rfl),hbelow⟩

/-- As long as no request has a query and none that sets a cookie has a slash in it, exactly the
cookies that belong into a request are sent. -/
theorem cookies_isolated (maxCookies maxPerHost : ℕ) (history : List Store) (url : Url)
    (hhistory : ∀ op ∈ history, op.PlainQuery) (hurl : '?' ∉ url.pathAndQuery) :
    Isolated history (Chronicle.of maxCookies maxPerHost history) url := by
  constructor
  · intro cookie hcookie
    obtain ⟨⟨op,hop,hsets,hhost⟩,-⟩ := matched_origin hcookie
    exact ⟨op,hop,hsets.path_of_plainQuery (hhistory op hop),hhost⟩
  · intro cookie hcookie
    exact (matched_origin hcookie).2
  · intro cookie
    rw [path_of_no_query hurl]
    exact mem_matched
  · have h := Chronicle.aged_run maxCookies maxPerHost history
    refine ((pairwise_insertionSort Cookie.before _).and
      ((perm_insertionSort _ _).nodup_iff.2 (h.nodup.filter _))).imp_of_mem ?_
    rintro a b ha hb ⟨hlonger | ⟨hsame,hcreated⟩,hne⟩
    · exact .inl hlonger
    · exact .inr ⟨hsame,h.births_lt (mem_matched.1 ha).1 (mem_matched.1 hb).1 hne hcreated⟩
  · rw [CookieJar.headerValue,cookieText_eq]

/-- A request for `/foo`, with a query or without. -/
def fooUrl (query : String) : Url where
  scheme := "https".toList
  host := "example.com".toList
  port := 443
  pathAndQuery := "/foo".toList ++ query.toList

/-- A cookie for `/foo`. -/
def setFoo : Store where
  url := fooUrl ""
  setCookie := "a=1; Path=/foo".toList
  now := 0

/-- With a shorter path, and from another host. -/
def threeCookies : List Store :=
  [{ setFoo with setCookie := "b=2".toList }, setFoo,
    { setFoo with url := { fooUrl "" with host := "example.org".toList } }]

theorem cookies_isolated_three :
    (Chronicle.of 3000 180 threeCookies).jar.headerValue (fooUrl "") = some "a=1; b=2".toList ∧
      Isolated threeCookies (Chronicle.of 3000 180 threeCookies) (fooUrl "") :=
  ⟨by decide,cookies_isolated 3000 180 threeCookies (fooUrl "") (by decide) (by decide)⟩

theorem exists_foo_cookie : ∃ cookie ∈ (Chronicle.of 3000 180 [setFoo]).jar.cookies,
    cookie.Matches (fooUrl "?x=1") (fooUrl "?x=1").path := by
  have hcookie : ∃ cookie ∈ (Chronicle.of 3000 180 [setFoo]).jar.cookies,
      (cookie.domain = none ∧ (fooUrl "?x=1").host = cookie.host) ∧
        (fooUrl "?x=1").path = cookie.path ∧ cookie.secure = false := by
    decide
  obtain ⟨cookie,hmem,hhost,hpath,hsecure⟩ := hcookie
  exact ⟨cookie,hmem,.inl hhost,.inl hpath,fun hs => by rw [hsecure] at hs; cases hs⟩

/-- With a query behind it the path `/foo` is another one: its cookie is held back. -/
theorem cookie_held_back :
    (Chronicle.of 3000 180 [setFoo]).jar.headerValue (fooUrl "?x=1") = none ∧
      ¬ Isolated [setFoo] (Chronicle.of 3000 180 [setFoo]) (fooUrl "?x=1") := by
  refine ⟨by decide,fun h => ?_⟩
  obtain ⟨cookie,hmem,hmatch⟩ := exists_foo_cookie
  exact absurd ((h.complete cookie).2 ⟨hmem,hmatch⟩) not_mem_nil

/-! ### Paths with a query -/

theorem mem_defaultPath {path : Text} {c : Char} (h : c ∈ defaultPath path) :
    c ∈ path ∨ c = '/' := by
  have hsub : path.reverse.dropWhile (· ≠ '/') ⊆ path.reverse := (dropWhile_suffix _).subset
  rw [defaultPath,Str.rsplitOnce,Str.splitOnce] at h
  cases hdrop : path.reverse.dropWhile (· ≠ '/') with
  | nil =>
    rw [hdrop] at h
    exact .inr (mem_singleton.1 h)
  | cons d rest =>
    simp only [hdrop,Option.map_some] at h hsub
    split_ifs at h with hempty
    · exact .inr (mem_singleton.1 h)
    · exact .inl (mem_reverse.1 (hsub (mem_cons_of_mem d (mem_reverse.1 h))))

theorem head_query {url : Url} {c : Char} (h : (url.pathAndQuery.dropWhile (· ≠ '?')).head? = some c) :
    c = '?' := by
  have hnot := head?_dropWhile_not (· ≠ '?') url.pathAndQuery
  rw [h] at hnot
  simpa using hnot

theorem plainQuery_iff :
    op.PlainQuery ↔ defaultPath op.url.pathAndQuery = defaultPath op.url.path := by
  rw [← path_append op.url]
  refine ⟨defaultPath_append,fun heq hslash => ?_⟩
  obtain ⟨back,front,hquery,hback⟩ := eq_append_cons_of_mem (mem_reverse.2 hslash)
  rw [reverse_eq_iff,reverse_append,reverse_cons,append_assoc,singleton_append] at hquery
  cases hfront : front.reverse with
  | nil =>
    rw [hfront] at hquery
    exact absurd (head_query (by rw [hquery]; rfl)) (by decide : '/' ≠ '?')
  | cons c rest =>
    rw [hfront] at hquery
    have hc : c = '?' := head_query (by rw [hquery]; rfl)
    rw [hquery,← singleton_append (l := back.reverse),← append_assoc,← append_assoc,
      defaultPath_append (by simpa using hback)] at heq
    have hmem : '?' ∈ defaultPath op.url.path := by
      rw [← heq]
      simp [defaultPath,Str.rsplitOnce,Str.splitOnce,hc]
    rcases mem_defaultPath hmem with hpath | hslash
    · exact absurd (mem_takeWhile_imp hpath) (by decide)
    · exact absurd hslash (by decide)

/-- No query matters: neither that of the URL that cookies are sent to, nor that of the one that
sets a cookie without a path. -/
structure PathOnly (url : Url) (op : Store) : Prop where
  sent : ∀ (maxCookies maxPerHost : ℕ) (history : List Store),
    let jar := (Chronicle.of maxCookies maxPerHost history).jar
    ∀ cookie ∈ jar.cookies, (cookie ∈ jar.matched url ↔ cookie.Matches url url.path)
  stored : ∀ parsed : ParsedCookie, parsed.path = none →
    (parsed.cookie op.url op.url.pathAndQuery op.now).path = defaultPath op.url.path

/-- A cookie without a path, from a request for `path` to the host of `url`. -/
theorem cookies_of_plain (url : Url) (path : Text) :
    (Chronicle.of 1 1 [⟨{ url with pathAndQuery := path },"a=1".toList,0⟩]).jar.cookies =
      [⟨['a'],['1'],url.host,none,defaultPath path,false,none,1⟩] := by
  change (CookieJar.enforceLimits
    ⟨[⟨['a'],['1'],url.host,none,defaultPath path,false,none,1⟩],1,1,1⟩).cookies = _
  simp [CookieJar.enforceLimits,CookieJar.limitHost,dropOver]

/-- Queries do not matter exactly if the request has none and that of the setting URL has no
slash. -/
theorem pathOnly_iff (url : Url) (op : Store) :
    PathOnly url op ↔ '?' ∉ url.pathAndQuery ∧ op.PlainQuery := by
  rw [plainQuery_iff]
  constructor
  · intro h
    refine ⟨fun hquery => ?_,h.stored { name := ['a'], value := [] } rfl⟩
    -- the default path of a longer URL is the whole target of this one
    have hdefault : defaultPath (url.pathAndQuery ++ ['/']) = url.pathAndQuery := by
      simp [defaultPath,Str.rsplitOnce,Str.splitOnce,ne_nil_of_mem hquery]
    have hjar := cookies_of_plain url (url.pathAndQuery ++ ['/'])
    rw [hdefault] at hjar
    have hmem := hjar ▸ mem_singleton_self _
    have hsent := (h.sent 1 1 _ _ hmem).1
      (mem_matched.2 ⟨hmem,.inl ⟨rfl,rfl⟩,.inl rfl,fun hsecure => by cases hsecure⟩)
    have hpath : '?' ∈ url.path := by
      rcases hsent.path with heq | ⟨rest,heq,-⟩
      · rwa [heq]
      · rw [heq]
        exact mem_append_left rest hquery
    exact absurd (mem_takeWhile_imp hpath) (by decide)
  · rintro ⟨hquery,hstored⟩
    refine ⟨fun _ _ _ cookie hmem => ?_,fun parsed hnone => ?_⟩
    · rw [path_of_no_query hquery,mem_matched,and_iff_right hmem]
    · rw [← hstored,ParsedCookie.cookie,ParsedCookie.storedPath,hnone]

/-- A cookie for `/foo` is not sent along with a query. -/
theorem query_decides : ¬ PathOnly (fooUrl "?x=1") setFoo := by
  intro h
  obtain ⟨cookie,hmem,hmatch⟩ := exists_foo_cookie
  exact absurd ((h.sent 3000 180 [setFoo] cookie hmem).2 hmatch) not_mem_nil

end Courierust.Client
