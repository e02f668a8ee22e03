import Courierust.Error

/-!
# Header names and values

Model of `courierust_http::header`: a field name is a lowercase token, or a colon and
a lowercase token for a pseudo-header. The type carries that, so a name that was
built once never has to be checked again.
-/

namespace Courierust.Http

def ascii (s : String) : List UInt8 := s.toList.map fun c => UInt8.ofNat c.toNat

def isAsciiUppercase (c : UInt8) : Bool := 65 ≤ c && c ≤ 90

def isAsciiLowercase (c : UInt8) : Bool := 97 ≤ c && c ≤ 122

def isAsciiDigit (c : UInt8) : Bool := 48 ≤ c && c ≤ 57

def toAsciiLowercase (c : UInt8) : UInt8 := if isAsciiUppercase c then c + 32 else c

/-- A `tchar` of RFC 9110. -/
def isTchar (c : UInt8) : Bool :=
  isAsciiUppercase c || isAsciiLowercase c || isAsciiDigit c ||
    (ascii "!#$%&'*+-.^_`|~").contains c

def isToken (b : List UInt8) : Bool := !b.isEmpty && b.all isTchar

/-- `is_valid_field_value`: no control characters but the tab. -/
def isValidFieldValue (value : List UInt8) : Bool :=
  value.all fun c => c == 9 || (0x20 ≤ c && c ≤ 0x7e) || 0x80 ≤ c

def isLowercaseToken (b : List UInt8) : Bool := isToken b && b.all fun c => !isAsciiUppercase c

def isHpackName (b : List UInt8) : Bool :=
  match b with
  | 0x3a :: rest => isLowercaseToken rest
  | b => isLowercaseToken b

/-- A field name: a lowercase token, or a colon and a lowercase token. -/
structure HeaderName where
  bytes : List UInt8
  valid : isHpackName bytes = true
  deriving DecidableEq

namespace HeaderName

theorem toAsciiLowercase_tchar : ∀ c : UInt8, isTchar c = true →
    isTchar (toAsciiLowercase c) = true ∧ isAsciiUppercase (toAsciiLowercase c) = false := by
  have h : ∀ n < 256, isTchar (UInt8.ofNat n) = true →
      isTchar (toAsciiLowercase (UInt8.ofNat n)) = true ∧
        isAsciiUppercase (toAsciiLowercase (UInt8.ofNat n)) = false := by decide +kernel
  intro c hc
  have := h c.toNat (by simpa using c.toNat_lt)
  simpa [hc] using this

theorem isHpackName_of_lowercaseToken {b : List UInt8} (h : isLowercaseToken b = true) :
    isHpackName b = true := by
  unfold isHpackName
  split
  · next rest =>
    have : isTchar 0x3a = false := by decide
    simp [isLowercaseToken,isToken,this] at h
  · exact h

theorem isHpackName_lowercase {b : List UInt8} (h : isToken b = true) :
    isHpackName (b.map toAsciiLowercase) = true := by
  refine isHpackName_of_lowercaseToken ?_
  simp only [isToken,Bool.and_eq_true,List.all_eq_true] at h
  obtain ⟨hne,hall⟩ := h
  simp only [isLowercaseToken,isToken,Bool.and_eq_true,List.all_eq_true,List.mem_map]
  refine ⟨⟨by simpa using hne,?_⟩,?_⟩
  · rintro _ ⟨c,hc,rfl⟩
    exact (toAsciiLowercase_tchar c (hall c hc)).1
  · rintro _ ⟨c,hc,rfl⟩
    simp [(toAsciiLowercase_tchar c (hall c hc)).2]

/-- `from_bytes`: lowercases on success. -/
def fromBytes (b : List UInt8) : Except Error HeaderName :=
  if h : isToken b = true then .ok ⟨b.map toAsciiLowercase, isHpackName_lowercase h⟩
  else .error Error.invalidHeaderName

/-- `from_hpack_bytes`: a pseudo-header has to be lowercase, a regular name is lowercased. -/
def fromHpackBytes (b : List UInt8) : Except Error HeaderName :=
  match b with
  | 0x3a :: rest =>
    if h : isLowercaseToken rest = true then .ok ⟨0x3a :: rest, h⟩
    else .error Error.invalidHeaderName
  | b => fromBytes b

theorem fromHpackBytes_bytes (n : HeaderName) : fromHpackBytes n.bytes = .ok n := by
  obtain ⟨b,hb⟩ := n
  unfold isHpackName at hb
  unfold fromHpackBytes
  split at hb
  · simp [hb]
  have hlower : b.map toAsciiLowercase = b := by
    simp only [isLowercaseToken,Bool.and_eq_true,List.all_eq_true] at hb
    conv_rhs => rw [← List.map_id b]
    refine List.map_congr_left fun c hc => ?_
    simp_all [toAsciiLowercase]
  have htoken : isToken b = true := by
    simp only [isLowercaseToken,Bool.and_eq_true] at hb
    exact hb.1
  simp [fromBytes,htoken,hlower]

end HeaderName

end Courierust.Http
