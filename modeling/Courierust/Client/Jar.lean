import Mathlib.Data.List.Sort
import Courierust.Client.Cookie
import Courierust.Http.Fields
import Courierust.Lib.Run
import Courierust.Lib.Stamped

/-!
# The cookie jar

`CookieJar` of `courierust_client::cookies`, and `attach_cookies` of the client.
-/

namespace Courierust.Client

open List
open Http
open Str (Text)

structure Cookie where
  name : Text
  value : Text
  host : Text
  domain : Option Text
  path : Text
  secure : Bool
  expiresAt : Option ℤ
  created : ℕ
  deriving DecidableEq

namespace Cookie

def effectiveDomain (cookie : Cookie) : Text := cookie.domain.getD cookie.host

def key (cookie : Cookie) : Text × Text × Text :=
  (cookie.name, cookie.effectiveDomain, cookie.path)

def hostMatches (url : Url) (cookie : Cookie) : Bool :=
  match cookie.domain with
  | none => url.host = cookie.host
  | some domain => domainMatch url.host domain

/-- The cookies that `header_value` keeps. -/
def sentTo (url : Url) (cookie : Cookie) : Bool :=
  hostMatches url cookie && pathMatch url.pathAndQuery cookie.path &&
    (!cookie.secure || url.scheme = "https".toList)

/-- The order of `header_value`: the longer path first, then the older cookie. -/
def before (a b : Cookie) : Prop :=
  Str.len b.path < Str.len a.path ∨ (Str.len a.path = Str.len b.path ∧ a.created ≤ b.created)

instance : DecidableRel before := fun _ _ => inferInstanceAs (Decidable (_ ∨ _ ∧ _))

instance : Std.Total before where
  total a b := by
    rw [before, before]
    omega

instance : IsTrans Cookie before where
  trans a b d hab hbd := by
    rw [before] at hab hbd ⊢
    omega

end Cookie

def maxCookieBytes : ℕ := 4096

def ParsedCookie.storedPath (parsed : ParsedCookie) (requestPath : Text) : Text :=
  match parsed.path with
  | some path => if path.head? = some '/' then path else defaultPath requestPath
  | none => defaultPath requestPath

def ParsedCookie.cookie (parsed : ParsedCookie) (url : Url) (requestPath : Text) (now : ℤ) :
    Cookie :=
  let dead := parsed.deletionAt now
  { name := parsed.name
    value := parsed.value
    host := url.host
    domain := parsed.domain
    path := parsed.storedPath requestPath
    secure := parsed.secure
    expiresAt := if dead = i64Max then none else some dead
    created := 0 }

structure CookieJar where
  cookies : List Cookie := []
  nextCreated : ℕ := 0 -- a `u64` that counts the cookies stored
  maxCookies : ℕ
  maxPerHost : ℕ

def dropOldest (keep : Cookie → Bool) (cookies : List Cookie) : List Cookie :=
  match ((cookies.filter keep).map Cookie.created).min? with
  | none => cookies
  | some oldest => cookies.eraseP fun cookie => keep cookie && cookie.created = oldest

/-- The loops of `enforce_limits`, for at most so many rounds: one is made for each cookie that is
dropped. -/
def dropOver (keep : Cookie → Bool) (limit : ℕ) : ℕ → List Cookie → List Cookie
  | 0, cookies => cookies
  | rounds + 1, cookies =>
    if cookies.countP keep ≤ limit then cookies
    else dropOver keep limit rounds (dropOldest keep cookies)

namespace CookieJar

def withLimits (maxCookies maxPerHost : ℕ) : CookieJar :=
  { maxCookies := max maxCookies 1, maxPerHost := max maxPerHost 1 }

/-- The loop of `enforce_limits` for one host. -/
def limitHost (jar : CookieJar) (host : Text) : CookieJar :=
  { jar with
    cookies := dropOver (fun cookie => cookie.host = host) jar.maxPerHost jar.cookies.length
      jar.cookies }

/-- `enforce_limits`. The hosts are not sorted: what is dropped for one host does not depend on
the others. -/
def enforceLimits (jar : CookieJar) : CookieJar :=
  let jar := { jar with
    cookies := dropOver (fun _ => true) jar.maxCookies jar.cookies.length jar.cookies }
  ((jar.cookies.map Cookie.host).dedup).foldl limitHost jar

def place (jar : CookieJar) (cookie : Cookie) : CookieJar :=
  match jar.cookies.findIdx? fun old => old.key = cookie.key with
  | some i =>
    let created := (jar.cookies.map Cookie.created).getD i 0
    { jar with cookies := jar.cookies.set i { cookie with created } }
  | none =>
    let created := jar.nextCreated + 1
    { jar with cookies := jar.cookies ++ [{ cookie with created }], nextCreated := created }

def delete (jar : CookieJar) (cookie : Cookie) : CookieJar :=
  match jar.cookies.findIdx? fun old => old.key = cookie.key with
  | some i => { jar with cookies := jar.cookies.eraseIdx i }
  | none => jar

def storeAt (jar : CookieJar) (url : Url) (setCookie : Text) (now : ℤ) : CookieJar :=
  match parseSetCookie setCookie with
  | none => jar
  | some parsed =>
    if parsed.domain.any fun domain => !domainMatch url.host domain then jar
    else if maxCookieBytes < Str.len parsed.name + Str.len parsed.value then jar
    else
      let cookie := parsed.cookie url url.pathAndQuery now
      if parsed.deletionAt now ≤ now then jar.delete cookie
      else (jar.place cookie).enforceLimits

/-- The cookies that `header_value` sends, in its order. -/
def matched (jar : CookieJar) (url : Url) : List Cookie :=
  (jar.cookies.filter (Cookie.sentTo url)).insertionSort Cookie.before

end CookieJar

/-- The loop of `header_value`. -/
def cookieText (cookies : List Cookie) : Text :=
  cookies.foldl (fun out cookie =>
    (if out.isEmpty then out else out ++ "; ".toList) ++ cookie.name ++ '=' :: cookie.value) []

def CookieJar.headerValue (jar : CookieJar) (url : Url) : Option Text :=
  if (jar.matched url).isEmpty then none else some (cookieText (jar.matched url))

def cookieField : Text := "cookie".toList

def attachCookies (jar : Option CookieJar) (url : Url) (headers : HeaderMap) : HeaderMap :=
  match jar with
  | none => headers
  | some jar =>
    if headers.containsKey cookieField then headers
    else
      match jar.headerValue url with
      | none => headers
      | some value =>
        if isValidFieldText value then headers.insert cookieField (.text value) else headers

/-! ### Limits -/

variable (keep : Cookie → Bool)

/-- A group is over its limit, and its oldest cookie goes. -/
def Evicts (limit : ℕ) (before after : List Cookie) : Prop :=
  limit < before.countP keep ∧ ∃ front cookie back, before = front ++ cookie :: back ∧
    after = front ++ back ∧ keep cookie = true ∧
    ∀ other ∈ before, keep other = true → cookie.created ≤ other.created

theorem evicts_dropOldest {limit : ℕ} {cookies : List Cookie} (hover : limit < cookies.countP keep) :
    Evicts keep limit cookies (dropOldest keep cookies) := by
  refine ⟨hover,?_⟩
  rw [dropOldest]
  cases hmin : ((cookies.filter keep).map Cookie.created).min? with
  | none =>
    rw [min?_eq_none_iff,map_eq_nil_iff] at hmin
    rw [countP_eq_length_filter,hmin] at hover
    exact absurd hover (Nat.not_lt_zero _)
  | some oldest =>
    obtain ⟨hmem,hle⟩ := min?_eq_some_iff.1 hmin
    obtain ⟨cookie,hcookie,hcreated⟩ := mem_map.1 hmem
    obtain ⟨hmem,hkeep⟩ := mem_filter.1 hcookie
    obtain ⟨dropped,front,back,-,hdropped,hcookies,herase⟩ :=
      exists_of_eraseP (p := fun cookie => keep cookie && cookie.created = oldest) hmem
        (by simp [hkeep,hcreated])
    rw [Bool.and_eq_true,decide_eq_true_eq] at hdropped
    refine ⟨front,dropped,back,hcookies,herase,hdropped.1,fun other hother hkept => ?_⟩
    rw [hdropped.2]
    exact hle _ (mem_map_of_mem (mem_filter.2 ⟨hother,hkept⟩))

theorem evicts_dropOver (limit rounds : ℕ) (cookies : List Cookie) :
    Relation.ReflTransGen (Evicts keep limit) cookies (dropOver keep limit rounds cookies) := by
  induction rounds generalizing cookies with
  | zero => exact .refl
  | succ rounds ih =>
    rw [dropOver]
    split_ifs with hlimit
    · exact .refl
    · exact (ih _).head (evicts_dropOldest keep (not_le.1 hlimit))

theorem dropOver_sublist (limit rounds : ℕ) (cookies : List Cookie) :
    (dropOver keep limit rounds cookies).Sublist cookies := by
  have hevicts := evicts_dropOver keep limit rounds cookies
  generalize dropOver keep limit rounds cookies = left at hevicts ⊢
  induction hevicts with
  | refl => exact List.Sublist.refl _
  | tail _ hevicts ih =>
    obtain ⟨-,front,cookie,back,rfl,rfl,-⟩ := hevicts
    exact ((List.Sublist.refl front).append (sublist_cons_self cookie back)).trans ih

theorem countP_dropOver_le (limit rounds : ℕ) (cookies : List Cookie)
    (hrounds : cookies.countP keep ≤ limit+rounds) :
    (dropOver keep limit rounds cookies).countP keep ≤ limit := by
  induction rounds generalizing cookies with
  | zero => exact hrounds
  | succ rounds ih =>
    rw [dropOver]
    split_ifs with hlimit
    · exact hlimit
    · refine ih _ ?_
      obtain ⟨-,front,cookie,back,hcookies,hdrop,hkeep,-⟩ := evicts_dropOldest keep (not_le.1 hlimit)
      rw [hcookies,countP_append,countP_cons_of_pos hkeep] at hrounds
      rw [hdrop,countP_append]
      omega

namespace CookieJar

structure Within (jar : CookieJar) : Prop where
  total : jar.cookies.length ≤ jar.maxCookies
  perHost : ∀ host, jar.cookies.countP (fun cookie => cookie.host = host) ≤ jar.maxPerHost

variable (jar : CookieJar)

/-- All the cookies, or those of a host, are over their limit, and the oldest goes. -/
def EvictsOldest (before after : List Cookie) : Prop :=
  Evicts (fun _ => true) jar.maxCookies before after ∨
    ∃ host, Evicts (fun cookie => cookie.host = host) jar.maxPerHost before after

theorem foldl_limitHost (hosts : List Text) :
    ∃ cookies, hosts.foldl limitHost jar = { jar with cookies } ∧ cookies.Sublist jar.cookies ∧
      (∀ host ∈ hosts, cookies.countP (fun cookie => cookie.host = host) ≤ jar.maxPerHost) ∧
      Relation.ReflTransGen jar.EvictsOldest jar.cookies cookies := by
  induction hosts generalizing jar with
  | nil => exact ⟨jar.cookies,rfl,List.Sublist.refl _,fun _ h => absurd h not_mem_nil,.refl⟩
  | cons host hosts ih =>
    obtain ⟨cookies,heq,hsub,hlimit,hevicts⟩ := ih (jar.limitHost host)
    have hfirst : Relation.ReflTransGen jar.EvictsOldest jar.cookies (jar.limitHost host).cookies :=
      Relation.ReflTransGen.mono (fun _ _ h => .inr ⟨host,h⟩) _ _ (evicts_dropOver _ _ _ _)
    refine ⟨cookies,heq,hsub.trans (dropOver_sublist _ _ _ _),?_,hfirst.trans hevicts⟩
    intro other hother
    rcases mem_cons.1 hother with rfl | hother
    · refine (hsub.countP_le).trans (countP_dropOver_le _ _ _ _ ?_)
      exact (countP_le_length).trans (Nat.le_add_left _ _)
    · exact hlimit other hother

theorem enforceLimits_eq :
    ∃ cookies, jar.enforceLimits = { jar with cookies } ∧ cookies.Sublist jar.cookies ∧
      jar.enforceLimits.Within ∧ Relation.ReflTransGen jar.EvictsOldest jar.cookies cookies := by
  have hdrop := dropOver_sublist (fun _ => true) jar.maxCookies jar.cookies.length jar.cookies
  obtain ⟨cookies,heq,hsub,hlimit,hevicts⟩ := foldl_limitHost
    { jar with cookies := dropOver (fun _ => true) jar.maxCookies jar.cookies.length jar.cookies }
    ((dropOver (fun _ => true) jar.maxCookies jar.cookies.length jar.cookies).map
      Cookie.host).dedup
  have hjar : jar.enforceLimits = { jar with cookies } := heq
  have hfirst := Relation.ReflTransGen.mono (p := jar.EvictsOldest) (fun _ _ h => .inl h) _ _
    (evicts_dropOver (fun _ => true) jar.maxCookies jar.cookies.length jar.cookies)
  refine ⟨cookies,hjar,hsub.trans hdrop,?_,hfirst.trans hevicts⟩
  rw [hjar]
  constructor
  · have htotal := countP_dropOver_le (fun _ => true) jar.maxCookies jar.cookies.length jar.cookies
      (countP_le_length.trans (Nat.le_add_left _ _))
    rw [countP_true] at htotal
    exact hsub.length_le.trans htotal
  · intro host
    by_cases hhost : host ∈ cookies.map Cookie.host
    · exact hlimit host (mem_dedup.2 ((hsub.map Cookie.host).subset hhost))
    have hnone : cookies.countP (fun cookie => cookie.host = host) = 0 := by
      rw [countP_eq_zero]
      intro cookie hcookie heq'
      exact hhost (mem_map.2 ⟨cookie,hcookie,of_decide_eq_true heq'⟩)
    simp [hnone]

/-! ### What a store can do -/

theorem place_cases (cookie : Cookie) :
    (∃ i old, jar.cookies[i]? = some old ∧ old.key = cookie.key ∧
      jar.place cookie =
        { jar with cookies := jar.cookies.set i { cookie with created := old.created } }) ∨
    (cookie.key ∉ jar.cookies.map Cookie.key ∧
      jar.place cookie =
        { jar with
          cookies := jar.cookies ++ [{ cookie with created := jar.nextCreated+1 }]
          nextCreated := jar.nextCreated+1 }) := by
  rw [place]
  cases hfind : jar.cookies.findIdx? fun old => old.key = cookie.key with
  | some i =>
    obtain ⟨hi,hkey,-⟩ := findIdx?_eq_some_iff_getElem.1 hfind
    refine .inl ⟨i,jar.cookies[i],getElem?_eq_getElem hi,of_decide_eq_true hkey,?_⟩
    simp [hi]
  | none =>
    refine .inr ⟨fun hmem => ?_,rfl⟩
    obtain ⟨old,hold,hkey⟩ := mem_map.1 hmem
    have hother := findIdx?_eq_none_iff.1 hfind old hold
    exact absurd hkey (of_decide_eq_false hother)

theorem storeAt_cases (url : Url) (setCookie : Text) (now : ℤ) :
    (∃ cookies, jar.storeAt url setCookie now = { jar with cookies } ∧
      cookies.Sublist jar.cookies) ∨
    ∃ parsed, parseSetCookie setCookie = some parsed ∧
      (∀ domain ∈ parsed.domain, DomainMatch url.host domain) ∧ now < parsed.deletionAt now ∧
      jar.storeAt url setCookie now =
        (jar.place (parsed.cookie url url.pathAndQuery now)).enforceLimits := by
  have hkept : ∃ cookies, jar = { jar with cookies } ∧ cookies.Sublist jar.cookies :=
    ⟨jar.cookies,rfl,List.Sublist.refl _⟩
  rw [storeAt]
  cases hparsed : parseSetCookie setCookie with
  | none => exact .inl hkept
  | some parsed =>
    dsimp only
    by_cases hdomain : (parsed.domain.any fun domain => !domainMatch url.host domain) = true
    · rw [if_pos hdomain]
      exact .inl hkept
    rw [if_neg hdomain]
    by_cases hsize : maxCookieBytes < Str.len parsed.name+Str.len parsed.value
    · rw [if_pos hsize]
      exact .inl hkept
    split_ifs with hdead
    · rw [delete]
      split
      · exact .inl ⟨_,rfl,eraseIdx_sublist _ _⟩
      · exact .inl hkept
    · refine .inr ⟨parsed,rfl,fun domain hmem => ?_,not_le.1 hdead,rfl⟩
      rw [hmem] at hdomain
      exact (domainMatch_iff _ _).1 (by simpa using hdomain)

end CookieJar

end Courierust.Client
