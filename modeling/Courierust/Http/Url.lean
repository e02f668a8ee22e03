import Courierust.Http.Str

/-!
# URLs

The absolute URLs of `courierust_http::uri`: a scheme, a host, a port and a target. A target that
is not UTF-8 cannot be parsed out of a text, so a target is a text here too.
-/

namespace Courierust.Http

open Str (Text)

structure Url where
  scheme : Text
  host : Text
  port : ℕ
  pathAndQuery : Text
  userinfo : Option Text := none
  deriving DecidableEq

/-- `contains_forbidden_authority_byte`. The octets of a character outside ASCII are allowed. -/
def containsForbiddenAuthorityByte (value : Text) : Bool :=
  value.any fun c => c.toNat ≤ 0x20 || c.toNat = 0x7f || "/?#@".toList.contains c

def parsePort (value : Text) : Except Error ℕ :=
  if value.isEmpty || !value.all Str.isDigit then
    .error (Error.protocol "URL port must be a non-zero decimal number")
  else
    match Str.parseUnsigned (2 ^ 16 - 1) value with
    | none => .error (Error.protocol "URL port is out of range")
    | some 0 => .error (Error.protocol "URL port must not be zero")
    | some port => .ok port

def portSuffix (suffix : Text) (defaultPort : ℕ) : Except Error ℕ :=
  match suffix with
  | [] => .ok defaultPort
  | ':' :: value => parsePort value
  | _ => .error (Error.protocol "invalid URL authority after IPv6 host")

def parseBracketed (bracketed : Text) (defaultPort : ℕ) : Except Error (Text × ℕ) :=
  match Str.splitOnce ']' bracketed with
  | none => .error (Error.protocol "URL IPv6 host is missing closing bracket")
  | some (host, suffix) =>
    if host.isEmpty || containsForbiddenAuthorityByte host then
      .error (Error.protocol "invalid URL host")
    else do
      let port ← portSuffix suffix defaultPort
      pure (Str.toAsciiLowercase host, port)

def splitPort (authority : Text) (defaultPort : ℕ) : Except Error (Text × ℕ) :=
  match Str.rsplitOnce ':' authority with
  | none => .ok (authority, defaultPort)
  | some (host, port) =>
    if host.contains ':' then
      .error (Error.protocol "URL IPv6 host must be enclosed in brackets")
    else do
      let port ← parsePort port
      pure (host, port)

def parseHostAndPort (authority : Text) (defaultPort : ℕ) : Except Error (Text × ℕ) :=
  match authority with
  | [] => .error (Error.protocol "URL missing host")
  | '[' :: bracketed => parseBracketed bracketed defaultPort
  | authority =>
    if authority.any fun c => c = '[' || c = ']' then
      .error (Error.protocol "invalid URL host brackets")
    else do
      let (host, port) ← splitPort authority defaultPort
      if host.isEmpty || containsForbiddenAuthorityByte host then
        .error (Error.protocol "invalid URL host")
      else pure (Str.toAsciiLowercase host, port)

/-- `PathAndQuery::from_bytes`, of the target of a URL. -/
def parseTarget (pathq : Text) : Except Error Text :=
  match pathq with
  | [] => .ok ['/']
  | c :: rest =>
    let target := if c = '?' then '/' :: c :: rest else c :: rest
    if target.any fun c => c.toNat < 0x20 || c.toNat = 0x7f then
      .error (Error.protocol "control character in request target")
    else .ok target

namespace Url

/-- `parse`, from behind the scheme. -/
def parseRest (scheme rest : Text) : Except Error Url := do
  let rest := (Str.splitOnce '#' rest).elim rest Prod.fst
  let authority := rest.takeWhile fun c => c ≠ '/' && c ≠ '?'
  let pathq := rest.dropWhile fun c => c ≠ '/' && c ≠ '?'
  let (userinfo, hostport) := (Str.rsplitOnce '@' authority).elim (none, authority)
    fun parts => (some parts.1, parts.2)
  let (host, port) ← parseHostAndPort hostport (if scheme = "https".toList then 443 else 80)
  let pathAndQuery ← parseTarget pathq
  pure { scheme, host, port, pathAndQuery, userinfo }

def parse (s : Text) : Except Error Url :=
  match Str.splitOnceText "://".toList s with
  | none => .error (Error.protocol "URL missing scheme://")
  | some (scheme, rest) =>
    let scheme := Str.toAsciiLowercase scheme
    if scheme ≠ "http".toList ∧ scheme ≠ "https".toList then
      .error (Error.protocol ("unsupported scheme: " ++ String.ofList scheme))
    else parseRest scheme rest

def authority (url : Url) : Text :=
  (if url.host.contains ':' then '[' :: url.host ++ [']'] else url.host) ++
    ':' :: Nat.toDigits 10 url.port

def path (url : Url) : Text := url.pathAndQuery.takeWhile (· ≠ '?')

def origin (url : Url) : Text × Text × ℕ := (url.scheme, url.host, url.port)

end Url

/-! ### Authorities -/

theorem notMem_toDigits (n : ℕ) : ':' ∉ Nat.toDigits 10 n := by
  intro h
  have := Nat.isDigit_of_mem_toDigits (by decide) (by decide) h
  revert this
  decide

theorem append_cons_inj {sep : Char} {a b c d : Text} (hb : sep ∉ b) (hd : sep ∉ d)
    (h : a ++ sep :: b = c ++ sep :: d) : a = c ∧ b = d := by
  obtain ⟨t,hc,ht⟩ | ⟨t,ha,ht⟩ := List.append_eq_append_iff.1 h
  · cases t with
    | nil =>
      rw [List.append_nil] at hc
      exact ⟨hc.symm,(List.cons.inj ht).2⟩
    | cons x t =>
      obtain ⟨_,rfl⟩ := List.cons.inj ht
      exact absurd (by simp) hb
  · cases t with
    | nil =>
      rw [List.append_nil] at ha
      exact ⟨ha,(List.cons.inj ht).2.symm⟩
    | cons x t =>
      obtain ⟨_,rfl⟩ := List.cons.inj ht
      exact absurd (by simp) hd

theorem toDigits_inj {m n : ℕ} (h : Nat.toDigits 10 m = Nat.toDigits 10 n) : m = n := by
  have hm := Nat.ofDigitChars_toDigits (b := 10) (n := m) (by decide) (by decide)
  rw [h,Nat.ofDigitChars_toDigits (by decide) (by decide)] at hm
  exact hm.symm

theorem bracket_inj {a b : Text}
    (h : (if a.contains ':' then '[' :: a ++ [']'] else a) =
      if b.contains ':' then '[' :: b ++ [']'] else b) : a = b := by
  have hcolon : ∀ x y : Text, x.contains ':' = true → '[' :: x ++ [']'] = y →
      y.contains ':' = true := by
    rintro x y hx rfl
    simp only [List.contains_iff_mem] at hx ⊢
    simp [hx]
  by_cases ha : a.contains ':'
  · by_cases hb : b.contains ':'
    · rw [if_pos ha,if_pos hb] at h
      exact List.append_cancel_right (List.cons.inj h).2
    · rw [if_pos ha,if_neg hb] at h
      exact absurd (hcolon a b ha h) hb
  · by_cases hb : b.contains ':'
    · rw [if_neg ha,if_pos hb] at h
      exact absurd (hcolon b a hb h.symm) ha
    · rwa [if_neg ha,if_neg hb] at h

theorem authority_inj {a b : Url} :
    a.authority = b.authority ↔ a.host = b.host ∧ a.port = b.port := by
  constructor
  · intro h
    obtain ⟨hhost,hport⟩ := append_cons_inj (notMem_toDigits _) (notMem_toDigits _) h
    exact ⟨bracket_inj hhost,toDigits_inj hport⟩
  · rintro ⟨hhost,hport⟩
    rw [Url.authority,Url.authority,hhost,hport]

end Courierust.Http
