import Mathlib.Order.Directed
import Courierust.Client.Isolation

/-!
# Expiry

The jar computes the instant at which a cookie dies when it stores it; `header_value` and
`attach_cookies` do not look at it. What the client sends at a later time depends on whether the
jar holds a cookie that has such an instant.
-/

namespace Courierust.Client

open List
open Http
open Str (Text)

/-- `attach_cookies` adds the field, and the cookie is one of its pairs. -/
def Attaches (jar : CookieJar) (url : Url) (headers : HeaderMap) (cookie : Cookie) : Prop :=
  headers.containsKey cookieField = false ∧ cookie ∈ jar.matched url ∧
    (attachCookies (some jar) url headers).getAll cookieField =
      [.text (cookieText (jar.matched url))]

/-- No request at time `t` carries a cookie from the jar whose instant has come. -/
def Unexpired (jar : CookieJar) (t : ℤ) : Prop :=
  ∀ url headers cookie, Attaches jar url headers cookie →
    ∀ dead ∈ cookie.expiresAt, t < dead

def NeverDead (jar : CookieJar) (history : List Store) : Prop :=
  ∀ t, (∀ op ∈ history, op.now ≤ t) → Unexpired jar t

/-! ### Characters of a cookie -/

variable {cookie : Cookie} {jar : CookieJar} {s : Text}

theorem subset_of_mem_split {sep : Char} {piece : Text} (h : piece ∈ Str.split sep s) :
    piece ⊆ s := by
  induction s generalizing piece with
  | nil =>
    have hnil : piece = [] := by simpa [Str.split,List.splitOn] using h
    rw [hnil]
    exact nil_subset _
  | cons c s ih =>
    have hlater : ∀ piece ∈ Str.split sep s, piece ⊆ c :: s := fun piece hpiece d hd =>
      mem_cons_of_mem c (ih hpiece hd)
    rw [Str.split,List.splitOn,splitOnP_cons_eq_if_modifyHead] at h
    split_ifs at h with hsep
    · rcases mem_cons.1 h with rfl | h
      · exact nil_subset _
      · exact hlater piece h
    cases hpieces : List.splitOnP (· == sep) s with
    | nil =>
      rw [hpieces] at h
      exact absurd h not_mem_nil
    | cons first pieces =>
      rw [hpieces] at h
      rcases mem_cons.1 h with rfl | h
      · refine cons_subset_cons c (ih ?_)
        rw [Str.split,List.splitOn,hpieces]
        exact mem_cons_self
      · refine hlater piece ?_
        rw [Str.split,List.splitOn,hpieces]
        exact mem_cons_of_mem first h

theorem trim_subset (s : Text) : Str.trim s ⊆ s := by
  obtain ⟨w,w',-,-,heq⟩ := Str.exists_trim s
  intro c hc
  rw [heq]
  exact mem_append_right w (mem_append_left w' hc)

theorem splitOnce_subset {sep : Char} {a b : Text} (h : Str.splitOnce sep s = some (a,b)) :
    a ⊆ s ∧ b ⊆ s := by
  rw [Str.splitOnce] at h
  cases hrest : s.dropWhile (· ≠ sep) with
  | nil => rw [hrest] at h; cases h
  | cons c rest =>
    rw [hrest] at h
    cases h
    refine ⟨(takeWhile_sublist _).subset,fun d hd => ?_⟩
    exact (dropWhile_sublist _).subset (hrest ▸ mem_cons_of_mem c hd)

theorem unquote_subset (value : Text) : unquote value ⊆ value := by
  unfold unquote
  split
  · split_ifs
    · exact fun c hc => mem_cons_of_mem _ ((dropLast_sublist _).subset hc)
    · exact List.Subset.refl _
  · exact List.Subset.refl _

theorem readAttribute_pair (parsed : ParsedCookie) (text : Text) :
    (parsed.readAttribute text).name = parsed.name ∧
      (parsed.readAttribute text).value = parsed.value := by
  have hset : ∀ key value, (parsed.setAttribute key value).name = parsed.name ∧
      (parsed.setAttribute key value).value = parsed.value := by
    intro key value
    unfold ParsedCookie.setAttribute
    dsimp only
    repeat' split
    all_goals exact ⟨rfl,rfl⟩
  rw [ParsedCookie.readAttribute]
  split <;> exact hset _ _

theorem foldl_readAttribute_pair (attributes : List Text) (parsed : ParsedCookie) :
    (attributes.foldl ParsedCookie.readAttribute parsed).name = parsed.name ∧
      (attributes.foldl ParsedCookie.readAttribute parsed).value = parsed.value := by
  induction attributes generalizing parsed with
  | nil => exact ⟨rfl,rfl⟩
  | cons text attributes ih =>
    obtain ⟨hname,hvalue⟩ := ih (parsed.readAttribute text)
    obtain ⟨hname',hvalue'⟩ := readAttribute_pair parsed text
    exact ⟨hname.trans hname',hvalue.trans hvalue'⟩

theorem subset_of_parseSetCookie {header : Text} {parsed : ParsedCookie}
    (h : parseSetCookie header = some parsed) : parsed.name ⊆ header ∧ parsed.value ⊆ header := by
  rw [parseSetCookie] at h
  cases hsplit : Str.split ';' header with
  | nil => rw [hsplit] at h; cases h
  | cons pair attributes =>
    have hpair : pair ⊆ header := subset_of_mem_split (hsplit ▸ mem_cons_self)
    rw [hsplit] at h
    dsimp only at h
    cases honce : Str.splitOnce '=' pair with
    | none => rw [honce] at h; cases h
    | some parts =>
      obtain ⟨name,value⟩ := parts
      rw [honce] at h
      dsimp only at h
      split_ifs at h with htoken
      obtain ⟨hname,hvalue⟩ := splitOnce_subset honce
      cases h
      obtain ⟨hname',hvalue'⟩ := foldl_readAttribute_pair attributes
        { name := Str.trim name, value := unquote (Str.trim value) }
      rw [hname',hvalue']
      exact ⟨fun c hc => hpair (hname (trim_subset name hc)),
        fun c hc => hpair (hvalue (trim_subset value (unquote_subset _ hc)))⟩

/-! ### The field -/

def Cookie.Printable (cookie : Cookie) : Prop :=
  isValidFieldText cookie.name = true ∧ isValidFieldText cookie.value = true

theorem isValidFieldText_of_subset {t : Text} (hsub : s ⊆ t) (h : isValidFieldText t = true) :
    isValidFieldText s = true :=
  all_eq_true.2 fun c hc => all_eq_true.1 h c (hsub hc)

theorem printable_of_sets {path : Url → Text} {op : Store} (h : op.Sets path cookie)
    (hvalid : isValidFieldText op.setCookie = true) : cookie.Printable := by
  obtain ⟨parsed,hparsed,-,-,heq⟩ := h
  obtain ⟨hname,hvalue⟩ := subset_of_parseSetCookie hparsed
  rw [heq]
  exact ⟨isValidFieldText_of_subset hname hvalid,isValidFieldText_of_subset hvalue hvalid⟩

theorem pair_valid (h : cookie.Printable) : isValidFieldText cookie.pair = true := by
  have heq : isValidFieldText ['='] = true := by decide
  rw [Cookie.pair,← singleton_append,isValidFieldText_append,isValidFieldText_append,
    h.1,heq,h.2]
  rfl

theorem cookieText_valid {cookies : List Cookie} (h : ∀ cookie ∈ cookies, cookie.Printable) :
    isValidFieldText (cookieText cookies) = true := by
  have hsep : isValidFieldText "; ".toList = true := by decide
  rw [cookieText_eq]
  induction cookies with
  | nil => rfl
  | cons cookie cookies ih =>
    have hpair := pair_valid (h cookie mem_cons_self)
    have hrest := ih fun other hother => h other (mem_cons_of_mem cookie hother)
    cases cookies with
    | nil => simpa using hpair
    | cons other cookies =>
      rw [map_cons,map_cons,intercalate_cons_cons,isValidFieldText_append,
        isValidFieldText_append,hpair,hsep,← map_cons,hrest]
      rfl

def Cookie.home (cookie : Cookie) : Url where
  scheme := "https".toList
  host := cookie.effectiveDomain
  port := 443
  pathAndQuery := cookie.path

theorem matches_home (cookie : Cookie) : cookie.Matches cookie.home cookie.home.pathAndQuery := by
  refine ⟨?_,.inl rfl,fun _ => rfl⟩
  cases hdomain : cookie.domain with
  | none => exact .inl ⟨rfl,by simp [Cookie.home,Cookie.effectiveDomain,hdomain]⟩
  | some domain =>
    exact .inr ⟨domain,rfl,.inl (by simp [Cookie.home,Cookie.effectiveDomain,hdomain])⟩

theorem attaches_of_mem (hprint : ∀ cookie ∈ jar.cookies, cookie.Printable)
    (hmem : cookie ∈ jar.cookies) : Attaches jar cookie.home {} cookie := by
  have hmatched : cookie ∈ jar.matched cookie.home := mem_matched.2 ⟨hmem,matches_home cookie⟩
  have hvalid : isValidFieldText (cookieText (jar.matched cookie.home)) = true :=
    cookieText_valid fun other hother => hprint other (mem_matched.1 hother).1
  have hheader : jar.headerValue cookie.home = some (cookieText (jar.matched cookie.home)) := by
    rw [CookieJar.headerValue,if_neg]
    rw [List.isEmpty_iff]
    exact List.ne_nil_of_mem hmatched
  refine ⟨rfl,hmatched,?_⟩
  rw [attachCookies,if_neg (by decide),hheader]
  dsimp only
  rw [if_pos hvalid,HeaderMap.getAll_insert,if_pos (by decide)]

theorem neverDead_of_session (history : List Store)
    (h : ∀ cookie ∈ jar.cookies, cookie.expiresAt = none) : NeverDead jar history := by
  intro t _ url headers cookie hattach dead hdead
  rw [h cookie (mem_matched.1 hattach.2.1).1] at hdead
  cases hdead

theorem session_of_neverDead {history : List Store}
    (hprint : ∀ cookie ∈ jar.cookies, cookie.Printable) (h : NeverDead jar history) :
    ∀ cookie ∈ jar.cookies, cookie.expiresAt = none := by
  intro cookie hmem
  by_contra hsome
  obtain ⟨dead,hdead⟩ := Option.ne_none_iff_exists'.1 hsome
  obtain ⟨t,ht⟩ := (insert dead (history.map Store.now).toFinset).exists_le
  have hlate : ∀ op ∈ history, op.now ≤ t := fun op hop =>
    ht _ (Finset.mem_insert_of_mem (mem_toFinset.2 (mem_map_of_mem hop)))
  have halive := h t hlate cookie.home {} cookie (attaches_of_mem hprint hmem) dead hdead
  exact absurd (ht dead (Finset.mem_insert_self _ _)) (not_le.2 halive)

/-- A jar of session cookies sends no dead one, and where all `Set-Cookie` values are field values
only such a jar does. -/
theorem neverDead_iff (maxCookies maxPerHost : ℕ) (history : List Store) :
    ((∀ cookie ∈ (Chronicle.of maxCookies maxPerHost history).jar.cookies,
        cookie.expiresAt = none) →
      NeverDead (Chronicle.of maxCookies maxPerHost history).jar history) ∧
    ((∀ op ∈ history, isValidFieldText op.setCookie = true) →
      (NeverDead (Chronicle.of maxCookies maxPerHost history).jar history ↔
        ∀ cookie ∈ (Chronicle.of maxCookies maxPerHost history).jar.cookies,
          cookie.expiresAt = none)) := by
  refine ⟨neverDead_of_session history,fun hvalid => ?_⟩
  refine ⟨session_of_neverDead fun cookie hmem => ?_,neverDead_of_session history⟩
  obtain ⟨op,hop,hsets⟩ := Chronicle.sets_of_mem hmem
  exact printable_of_sets hsets (hvalid op hop)

def setBrief : Store where
  url := fooUrl ""
  setCookie := "a=1; Max-Age=10".toList
  now := 0

/-- The cookie is sent a hundred seconds later. -/
theorem dead_cookie_sent :
    ¬ NeverDead (Chronicle.of 3000 180 [setBrief]).jar [setBrief] := by
  intro h
  have hcookie : ∃ cookie ∈ (Chronicle.of 3000 180 [setBrief]).jar.matched (fooUrl ""),
      cookie.expiresAt = some 10 := by decide
  obtain ⟨cookie,hmem,hdead⟩ := hcookie
  have hattach : Attaches (Chronicle.of 3000 180 [setBrief]).jar (fooUrl "") {} cookie :=
    ⟨rfl,hmem,by decide⟩
  exact absurd (h 100 (by decide) (fooUrl "") {} cookie hattach 10 hdead) (by decide)

end Courierust.Client
