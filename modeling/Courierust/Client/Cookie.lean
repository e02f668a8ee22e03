import Courierust.Http.Url
import Courierust.Net.Ip

/-!
# Set-Cookie

The parser of `courierust_client::cookies`: the name, the value and the attributes of a
`Set-Cookie` value, with the dates that servers write.
-/

namespace Courierust.Client

open List
open Str (Text)

/-- `i64::MAX`. -/
def i64Max : ℤ := 2 ^ 63 - 1

/-- `i64::MIN`. -/
def i64Min : ℤ := -2 ^ 63

/-- `str::parse::<i64>`. -/
def parseI64 (text : Text) : Option ℤ :=
  match text with
  | '-' :: digits =>
    if digits.isEmpty || !digits.all Str.isDigit then none
    else (Str.parseUnsigned (2 ^ 63) digits).map fun n => -(n : ℤ)
  | text => (Str.parseUnsigned (2 ^ 63 - 1) text).map fun n => (n : ℤ)

/-! ### Dates -/

def months : List Text :=
  ["jan", "feb", "mar", "apr", "may", "jun", "jul", "aug", "sep", "oct", "nov", "dec"].map
    String.toList

def parseClock (token : Text) : Option (ℕ × ℕ × ℕ) :=
  match Str.split ':' token with
  | hour :: minute :: second :: _ => do
    let hour ← Str.parseU32 hour
    let minute ← Str.parseU32 minute
    let second ← Str.parseU32 second
    if hour < 24 ∧ minute < 60 ∧ second < 60 then some (hour, minute, second) else none
  | _ => none

structure DateParts where
  day : Option ℕ := none
  month : Option ℕ := none
  year : Option ℕ := none
  clock : Option (ℕ × ℕ × ℕ) := none

namespace DateParts

def readMonth (parts : DateParts) (before : Option Text) (token : Text) : DateParts :=
  if Str.len token = 3 then
    match months.findIdx? fun m => Str.eqIgnoreAsciiCase m token with
    | some position => { parts with day := before >>= Str.parseU32, month := some (position + 1) }
    | none => parts
  else parts

def readClock (parts : DateParts) (token : Text) : DateParts :=
  if token.contains ':' then { parts with clock := parseClock token } else parts

def readYear (parts : DateParts) (token : Text) : DateParts :=
  if Str.len token = 4 && token.all Str.isDigit then
    { parts with year := Str.parseUnsigned (2 ^ 31 - 1) token }
  else parts

/-- The loop of `parse_cookie_date`. -/
def read (parts : DateParts) (before : Option Text) : List Text → DateParts
  | [] => parts
  | token :: tokens =>
    (((parts.readMonth before token).readClock token).readYear token).read (some token) tokens

end DateParts

def daysFromCivil (year : ℤ) (month day : ℕ) : ℤ :=
  let y := year - if month ≤ 2 then 1 else 0
  let m : ℤ := month
  let d : ℤ := day
  let era := (if 0 ≤ y then y else y - 399).tdiv 400
  let yoe := y - era * 400
  let doy := (153 * (if 2 < m then m - 3 else m + 9) + 2).tdiv 5 + d - 1
  let doe := yoe * 365 + yoe.tdiv 4 - yoe.tdiv 100 + doy
  era * 146097 + doe - 719468

example : daysFromCivil 2027 1 14 * 86400 = 1799884800 := by decide

def fullYear (year : ℕ) : ℕ :=
  if year < 100 then if 70 ≤ year then 1900 + year else 2000 + year else year

def parseCookieDate (value : Text) : Option ℤ := do
  let tokens := (value.splitOnP fun c => c = ',' || Str.isWhitespace c || c = '-').filter (· ≠ [])
  let parts := ({} : DateParts).read none tokens
  let day ← parts.day
  let month ← parts.month
  let year ← parts.year
  let (hour, minute, second) ← parts.clock
  some (daysFromCivil (fullYear year) month day * 86400 + hour * 3600 + minute * 60 + second)

/-! ### Values -/

structure ParsedCookie where
  name : Text
  value : Text
  domain : Option Text := none
  path : Option Text := none
  secure : Bool := false
  maxAge : Option ℤ := none
  expires : Option ℤ := none

namespace ParsedCookie

def deletionAt (parsed : ParsedCookie) (now : ℤ) : ℤ :=
  match parsed.maxAge with
  | some age => if age ≤ 0 then i64Min else max i64Min (min i64Max (now + age))
  | none => parsed.expires.getD i64Max

/-- The attribute `key` with its value. -/
def setAttribute (parsed : ParsedCookie) (key value : Text) : ParsedCookie :=
  if Str.eqIgnoreAsciiCase key "domain".toList then
    let domain := Str.toAsciiLowercase (value.dropWhile (· = '.'))
    if domain = [] then parsed else { parsed with domain := some domain }
  else if Str.eqIgnoreAsciiCase key "path".toList then { parsed with path := some value }
  else if Str.eqIgnoreAsciiCase key "secure".toList then { parsed with secure := true }
  else if Str.eqIgnoreAsciiCase key "max-age".toList then
    match parseI64 value with
    | some age => { parsed with maxAge := some age }
    | none => parsed
  else if Str.eqIgnoreAsciiCase key "expires".toList then
    { parsed with expires := parseCookieDate value }
  else parsed

def readAttribute (parsed : ParsedCookie) (text : Text) : ParsedCookie :=
  match Str.splitOnce '=' text with
  | some (k, v) => parsed.setAttribute (Str.trim k) (Str.trim v)
  | none => parsed.setAttribute (Str.trim text) []

end ParsedCookie

def unquote (value : Text) : Text :=
  match value with
  | '"' :: rest => if rest.getLast? = some '"' then rest.dropLast else value
  | value => value

def parseSetCookie (header : Text) : Option ParsedCookie :=
  match Str.split ';' header with
  | [] => none
  | pair :: attributes =>
    match Str.splitOnce '=' pair with
    | none => none
    | some (name, value) =>
      let name := Str.trim name
      if !Str.isToken name then none
      else
        some (attributes.foldl ParsedCookie.readAttribute
          { name, value := unquote (Str.trim value) })

/-! ### Matching -/

def isIpLiteral (host : Text) : Bool := (Net.IpAddr.parse host).isSome

/-- `domain_match`. The octet before the domain is looked at. -/
def domainMatch (host domain : Text) : Bool :=
  if host = domain then true
  else if isIpLiteral host || isIpLiteral domain then false
  else
    Str.len domain < Str.len host && domain.isSuffixOf host &&
      (host.take (host.length - domain.length)).getLast? = some '.'

/-- `path_match`. The octet behind the cookie's path is looked at. -/
def pathMatch (requestPath cookiePath : Text) : Bool :=
  if requestPath = cookiePath then true
  else if !cookiePath.isPrefixOf requestPath then false
  else cookiePath.getLast? = some '/' || (requestPath.drop cookiePath.length).head? = some '/'

def defaultPath (requestPath : Text) : Text :=
  match Str.rsplitOnce '/' requestPath with
  | none => ['/']
  | some (before, _) => if before = [] then ['/'] else before

def DomainMatch (host domain : Text) : Prop :=
  host = domain ∨
    (isIpLiteral host = false ∧ isIpLiteral domain = false ∧ '.' :: domain <:+ host)

def PathMatch (requestPath cookiePath : Text) : Prop :=
  requestPath = cookiePath ∨ ∃ rest, requestPath = cookiePath ++ rest ∧
    (cookiePath.getLast? = some '/' ∨ rest.head? = some '/')

theorem domainMatch_iff (host domain : Text) :
    domainMatch host domain = true ↔ DomainMatch host domain := by
  rw [domainMatch,DomainMatch]
  by_cases heq : host = domain
  · simp [heq]
  split_ifs with hip
  · constructor
    · intro h
      cases h
    · rintro (h | ⟨hhost,hdomain,-⟩)
      · exact absurd h heq
      · rw [hhost,hdomain] at hip
        simp at hip
  rw [Bool.or_eq_true,not_or,Bool.not_eq_true,Bool.not_eq_true] at hip
  simp only [Bool.and_eq_true,decide_eq_true_eq,isSuffixOf_iff_suffix]
  constructor
  · rintro ⟨⟨-,before,rfl⟩,hdot⟩
    rw [length_append,Nat.add_sub_cancel,take_left',getLast?_eq_some_iff]
      at hdot
    · obtain ⟨front,rfl⟩ := hdot
      exact .inr ⟨hip.1,hip.2,front,by simp⟩
    · rfl
  · rintro (h | ⟨-,-,front,rfl⟩)
    · exact absurd h heq
    refine ⟨⟨?_,front ++ ['.'],by simp⟩,?_⟩
    · have hdot : Char.utf8Size '.' = 1 := rfl
      simp only [Str.len,map_append,map_cons,sum_append,sum_cons]
      omega
    · have htake : (front ++ '.' :: domain).length-domain.length = front.length+1 := by
        rw [length_append,length_cons]
        omega
      rw [htake,take_length_add_append]
      simp

theorem pathMatch_iff (requestPath cookiePath : Text) :
    pathMatch requestPath cookiePath = true ↔ PathMatch requestPath cookiePath := by
  rw [pathMatch,PathMatch]
  by_cases heq : requestPath = cookiePath
  · simp [heq]
  rw [if_neg heq]
  by_cases hstart : cookiePath.isPrefixOf requestPath = true
  · rw [if_neg (by rw [hstart]; decide),Bool.or_eq_true,decide_eq_true_eq,decide_eq_true_eq]
    obtain ⟨rest,rfl⟩ := isPrefixOf_iff_prefix.1 hstart
    rw [drop_left]
    constructor
    · intro h
      exact .inr ⟨rest,rfl,h⟩
    · rintro (h | ⟨rest',h,hslash⟩)
      · exact absurd h heq
      · rwa [append_cancel_left h]
  · rw [if_pos (by rw [Bool.not_eq_true] at hstart; rw [hstart]; rfl)]
    constructor
    · intro h
      cases h
    · rintro (h | ⟨rest,rfl,-⟩)
      · exact absurd h heq
      · exact absurd (List.isPrefixOf_iff_prefix.2 ⟨rest,rfl⟩) hstart

end Courierust.Client
