import Mathlib.Data.List.TakeWhile
import Courierust.Error

/-!
# Texts

The methods of `str` and `char` that the source applies to field values, on lists of
characters.
-/

namespace Courierust.Str

open List

/-- A `str`, character by character. -/
abbrev Text := List Char

def isWhitespace (c : Char) : Bool :=
  let n := c.toNat
  (9 ≤ n ∧ n ≤ 13) ∨ n = 0x20 ∨ n = 0x85 ∨ n = 0xa0 ∨ n = 0x1680 ∨ (0x2000 ≤ n ∧ n ≤ 0x200a) ∨
    n = 0x2028 ∨ n = 0x2029 ∨ n = 0x202f ∨ n = 0x205f ∨ n = 0x3000

def trim (s : Text) : Text := ((s.dropWhile isWhitespace).reverse.dropWhile isWhitespace).reverse

def toAsciiLowercase (s : Text) : Text :=
  s.map fun c => if 65 ≤ c.toNat ∧ c.toNat ≤ 90 then Char.ofNat (c.toNat + 32) else c

def eqIgnoreAsciiCase (a b : Text) : Bool := toAsciiLowercase a = toAsciiLowercase b

/-- `is_ascii_digit`. -/
def isDigit (c : Char) : Bool := 48 ≤ c.toNat ∧ c.toNat ≤ 57

/-- `is_token`. A character outside ASCII has only octets that are not allowed. -/
def isToken (s : Text) : Bool :=
  !s.isEmpty && s.all fun c =>
    isDigit c || (65 ≤ c.toNat ∧ c.toNat ≤ 90) || (97 ≤ c.toNat ∧ c.toNat ≤ 122) ||
      "!#$%&'*+-.^_\x60|~".toList.contains c

/-- `str::parse` of an unsigned integer of at most `bound`: digits, perhaps after a plus sign. -/
def parseUnsigned (bound : ℕ) (text : Text) : Option ℕ :=
  let digits := match text with
    | '+' :: rest => rest
    | text => text
  if digits.isEmpty || !digits.all isDigit then none
  else
    let n := digits.foldl (fun n d => 10 * n + (d.toNat - 48)) 0
    if n ≤ bound then some n else none

/-- `str::parse::<u8>`. -/
def parseU8 (text : Text) : Option ℕ := parseUnsigned 255 text

/-- `str::parse::<u32>`. -/
def parseU32 (text : Text) : Option ℕ := parseUnsigned (2 ^ 32 - 1) text

def split (sep : Char) (s : Text) : List Text := s.splitOn sep

def splitOnce (sep : Char) (s : Text) : Option (Text × Text) :=
  match s.dropWhile (· ≠ sep) with
  | [] => none
  | _ :: rest => some (s.takeWhile (· ≠ sep), rest)

/-- `split_once`, of a separator that is a text. -/
def splitOnceText (sep : Text) : Text → Option (Text × Text)
  | [] => if sep = [] then some ([], []) else none
  | c :: s =>
    if sep.isPrefixOf (c :: s) then some ([], (c :: s).drop sep.length)
    else (splitOnceText sep s).map fun parts => (c :: parts.1, parts.2)

def rsplitOnce (sep : Char) (s : Text) : Option (Text × Text) :=
  (splitOnce sep s.reverse).map fun parts => (parts.2.reverse, parts.1.reverse)

/-- `len`: the number of octets. -/
def len (s : Text) : ℕ := (s.map Char.utf8Size).sum

theorem forall_mem_of_all {s : Text} {P : Char → Prop} [DecidablePred P]
    (h : (s.all fun c => decide (P c)) = true) : ∀ c ∈ s, P c := fun c hc =>
  of_decide_eq_true (all_eq_true.1 h c hc)

theorem split_append (sep : Char) (s t : Text) :
    split sep (s ++ sep :: t) = split sep s ++ split sep t :=
  splitOnP_append_cons s t (beq_self_eq_true sep)

theorem split_of_notMem {sep : Char} {s : Text} (h : sep ∉ s) : split sep s = [s] := by
  refine splitOnP_eq_singleton fun c hc => beq_eq_false_iff_ne.2 ?_
  rintro rfl
  exact h hc

theorem trim_eq {s : Text} (hhead : ∀ c ∈ s.head?, isWhitespace c = false)
    (hlast : ∀ c ∈ s.getLast?, isWhitespace c = false) : trim s = s := by
  have hkeep : ∀ t : Text, (∀ c ∈ t.head?, isWhitespace c = false) →
      t.dropWhile isWhitespace = t := by
    intro t ht
    cases t with
    | nil => rfl
    | cons c t => exact dropWhile_cons_of_neg (by rw [ht c rfl]; decide)
  rw [trim,hkeep s hhead,hkeep s.reverse (by rwa [head?_reverse]),reverse_reverse]

variable {w : Text} (s : Text)

theorem trim_append_left (hw : ∀ c ∈ w, isWhitespace c) (s : Text) : trim (w ++ s) = trim s := by
  rw [trim,dropWhile_append_of_pos hw,trim]

theorem trim_append_right (hw : ∀ c ∈ w, isWhitespace c) (s : Text) : trim (s ++ w) = trim s := by
  have hnil : w.dropWhile isWhitespace = [] := dropWhile_eq_nil_iff.2 hw
  have hrev : ∀ c ∈ w.reverse, isWhitespace c := fun c hc => hw c (mem_reverse.1 hc)
  rw [trim,trim,dropWhile_append]
  split_ifs with hempty
  · rw [hnil,isEmpty_iff.1 hempty]
  · rw [reverse_append,dropWhile_append_of_pos hrev]

theorem exists_trim :
    ∃ w w', (∀ c ∈ w, isWhitespace c) ∧ (∀ c ∈ w', isWhitespace c) ∧ s = w ++ (trim s ++ w') := by
  have hright := takeWhile_append_dropWhile (p := isWhitespace)
    (l := (s.dropWhile isWhitespace).reverse)
  refine ⟨s.takeWhile isWhitespace,((s.dropWhile isWhitespace).reverse.takeWhile isWhitespace).reverse,
    fun c hc => mem_takeWhile_imp hc,
    fun c hc => mem_takeWhile_imp (mem_reverse.1 hc),?_⟩
  rw [trim,← reverse_append,hright,reverse_reverse,takeWhile_append_dropWhile]

def elements (s : Text) : List Text := ((split ',' s).map trim).filter (!·.isEmpty)

theorem elements_append (t : Text) : elements (s ++ ',' :: t) = elements s ++ elements t := by
  rw [elements,split_append,map_append,filter_append]
  rfl

theorem elements_of_notMem {s : Text} (h : ',' ∉ s) :
    elements s = if (trim s).isEmpty then [] else [trim s] := by
  rw [elements,split_of_notMem h,map_singleton,filter_singleton]
  cases (trim s).isEmpty <;> rfl

theorem comma_notMem_of_whitespace (hw : ∀ c ∈ w, isWhitespace c) : ',' ∉ w :=
  fun h => absurd (hw _ h) (by decide)

theorem elements_append_left (hw : ∀ c ∈ w, isWhitespace c) (s : Text) :
    elements (w ++ s) = elements s := by
  have hcomma := comma_notMem_of_whitespace hw
  by_cases hs : ',' ∈ s
  · obtain ⟨a,b,rfl,ha⟩ := eq_append_cons_of_mem hs
    rw [← append_assoc,elements_append,elements_append,
      elements_of_notMem (by simp [hcomma,ha]),elements_of_notMem ha,trim_append_left hw]
  · rw [elements_of_notMem (by simp [hcomma,hs]),elements_of_notMem hs,trim_append_left hw]

theorem elements_append_right (hw : ∀ c ∈ w, isWhitespace c) (s : Text) :
    elements (s ++ w) = elements s := by
  have hcomma := comma_notMem_of_whitespace hw
  by_cases hs : ',' ∈ s
  · -- the last comma separates what the space belongs to
    obtain ⟨b,a,hrev,hb⟩ := eq_append_cons_of_mem (mem_reverse.2 hs)
    have hs' : s = a.reverse ++ ',' :: b.reverse := by
      rw [← s.reverse_reverse,hrev,reverse_append,reverse_cons,append_assoc]
      rfl
    have hb' : ',' ∉ b.reverse := by rwa [mem_reverse]
    have hbw : ',' ∉ b.reverse ++ w := by simp [hcomma,hb]
    rw [hs',append_assoc,cons_append,elements_append,elements_append,
      elements_of_notMem hbw,elements_of_notMem hb',trim_append_right hw]
  · rw [elements_of_notMem (by simp [hcomma,hs]),elements_of_notMem hs,trim_append_right hw]

theorem elements_trim : elements (trim s) = elements s := by
  obtain ⟨w,w',hw,hw',hs⟩ := exists_trim s
  conv_rhs => rw [hs,elements_append_left hw,elements_append_right hw']

end Courierust.Str
