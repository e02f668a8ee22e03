import Courierust.Tls.Certificate

/-!
# Hostile certificates

No input makes the certificate parser fault, except through a length that, added to the position
behind it, is not a machine word any more.
-/

namespace Courierust.Tls

open List
open Faults
open Http (isAsciiDigit)

/-! ### Times -/

variable {content : List UInt8} {ε : Type} {v : ℤ}

theorem digits_lt (digits : List UInt8) (n : ℕ) (h : ∀ d ∈ digits, isAsciiDigit d) :
    digits.foldl (fun n d => 10*n+(d.toNat-48)) n < (n+1)*10^digits.length := by
  have hdigit : ∀ d : UInt8, isAsciiDigit d → d.toNat-48 < 10 := by
    intro d hd
    simp only [isAsciiDigit,Bool.and_eq_true,decide_eq_true_eq,UInt8.le_iff_toNat_le] at hd
    have := hd.2
    simp only [UInt8.toNat_ofNat] at this
    omega
  induction digits generalizing n with
  | nil => simp
  | cons d digits ih =>
    obtain ⟨hd,hdigits⟩ := forall_mem_cons.1 h
    have hlt := hdigit d hd
    calc _ < (10*n+(d.toNat-48)+1)*10^digits.length := ih _ hdigits
      _ ≤ ((n+1)*10)*10^digits.length := Nat.mul_le_mul_right _ (by omega)
      _ = (n+1)*10^(d :: digits).length := by
        rw [length_cons,Nat.pow_succ]
        ring

variable {der : List UInt8} (s : List UInt8)

theorem length_splitSign : (splitSign s).2.length ≤ s.length := by
  rw [splitSign.eq_def]
  split
  · exact Nat.le_succ _
  · exact Nat.le_succ _
  · exact le_rfl

theorem parseI64_lt {s : List UInt8} (h : parseI64 s = some v) :
    -10^s.length < v ∧ v < 10^s.length := by
  have hlen := length_splitSign s
  simp only [parseI64] at h
  revert h hlen
  generalize splitSign s = p
  obtain ⟨negative,digits⟩ := p
  intro hlen h
  dsimp only at h hlen
  split_ifs at h with hdigits hneg hword hword
  all_goals
    cases h
    simp only [Bool.or_eq_true,Bool.not_eq_true',not_or,Bool.not_eq_false,
      all_eq_true] at hdigits
    have hlt := digits_lt digits 0 hdigits.2
    have hpow : 10^digits.length ≤ 10^s.length := Nat.pow_le_pow_right (by decide) hlen
    have hcast : ((10^s.length : ℕ) : ℤ) = 10^s.length := by push_cast; rfl
    constructor <;> omega

theorem returns_i64 (h : -2^63 ≤ v ∧ v < 2^63) : Returns (i64 v) (· = v) :=
  ⟨v,if_pos h,rfl⟩

theorem safe_toUnix {year month day hour min sec : ℤ} (hyear : -10000 < year ∧ year < 10000)
    (hhour : -100 < hour) (hmin : -100 < min) (hsec : -100 < sec) :
    Safe (toUnix year month day hour min sec) fun _ => True := by
  rw [toUnix]
  by_cases hrange : ¬ (1 ≤ month ∧ month ≤ 12) ∨ ¬ (1 ≤ day ∧ day ≤ 31) ∨ 23 < hour ∨ 59 < min ∨
      60 < sec
  · rw [if_pos hrange]
    exact .throw _
  rw [if_neg hrange]
  simp only [not_or,not_not,not_lt] at hrange
  refine .bind (Q := fun y => year-1 ≤ y ∧ y ≤ year) (Safe.check ?_) ?_
  · split_ifs
    · exact (returns_i64 (by omega)).mono fun y hy => by omega
    · exact .pure (by omega)
  intro y hy
  refine (Safe.check (returns_i64 (by omega))).bind ?_
  rintro yoe rfl
  refine (Safe.check (returns_i64 (by split_ifs <;> omega))).bind ?_
  rintro doy hdoy
  refine (Safe.check (returns_i64 (by omega))).bind ?_
  rintro doe rfl
  refine (Safe.check (returns_i64 (by omega))).bind ?_
  rintro days rfl
  exact (Safe.check (returns_i64 (by omega))).mono fun _ _ => trivial

theorem safe_parse2 : Safe (parse2 s) fun v => -10^s.length < v ∧ v < 10^s.length := by
  rw [parse2]
  cases h : parseI64 s with
  | none => exact .throw _
  | some v => exact .pure (parseI64_lt h)

theorem safe_timeField {s : List UInt8} {start stop : ℕ} (hle : start ≤ stop)
    (hstop : stop ≤ s.length) :
    Safe (timeField s start stop) fun v => -10^(stop-start) < v ∧ v < 10^(stop-start) := by
  refine (Safe.check (returns_slice hle hstop)).bind ?_
  rintro field rfl
  have hlen : ((s.drop start).take (stop-start)).length = stop-start := by
    rw [length_take,length_drop]
    omega
  refine (safe_parse2 _).mono fun v hv => ?_
  rwa [hlen] at hv

theorem safe_split2 : Safe (split2 s) fun r => -100 < r.1 := by
  rw [split2]
  split_ifs with hshort
  · exact .throw _
  · refine (safe_timeField (Nat.zero_le 2) (by omega)).bind fun v hv => ?_
    refine (Safe.check (returns_slice (by omega) le_rfl)).bind fun rest _ => ?_
    exact .pure hv.1

theorem safe_yearAndRest {s : List UInt8} {stop : ℕ} (hlo : 2 ≤ stop) (hhi : stop ≤ s.length) :
    Safe (yearAndRest s stop) fun r => -100 < r.1 ∧ r.1 < 100 := by
  refine (safe_timeField (Nat.zero_le 2) (by omega)).bind fun v hv => ?_
  refine (Safe.check (returns_slice hlo hhi)).bind fun rest _ => ?_
  exact .pure hv

theorem safe_utcYear : Safe (utcYear s) fun r => -100 < r.1 ∧ r.1 < 100 := by
  rw [utcYear]
  split_ifs with hshort hlong
  · exact safe_yearAndRest (by decide) (by omega)
  · exact safe_yearAndRest (by decide) (by omega)
  · exact .throw _

theorem safe_utcTime : Safe (utcTime s) fun _ => True := by
  refine (safe_utcYear s).bind ?_
  rintro ⟨year,rest⟩ hyear
  refine (safe_split2 rest).bind ?_
  rintro ⟨month,rest⟩ -
  refine (safe_split2 rest).bind ?_
  rintro ⟨day,rest⟩ -
  refine (safe_split2 rest).bind ?_
  rintro ⟨hour,rest⟩ hhour
  refine (safe_split2 rest).bind ?_
  rintro ⟨min,rest⟩ hmin
  have hseconds : Safe (utcSeconds rest) fun r => -100 < r.1 := by
    rw [utcSeconds]
    split_ifs
    · exact .pure (by decide)
    · exact safe_split2 rest
  refine hseconds.bind ?_
  rintro ⟨sec,_⟩ hsec
  exact safe_toUnix (by split_ifs <;> omega) hhour hmin hsec

theorem safe_generalizedTime : Safe (generalizedTime s) fun _ => True := by
  rw [generalizedTime]
  split_ifs with hform
  · exact .throw _
  refine (safe_timeField (by decide) (by omega)).bind fun year hyear => ?_
  refine (safe_timeField (by decide) (by omega)).bind fun month _ => ?_
  refine (safe_timeField (by decide) (by omega)).bind fun day _ => ?_
  refine (safe_timeField (by decide) (by omega)).bind fun hour hhour => ?_
  refine (safe_timeField (by decide) (by omega)).bind fun min hmin => ?_
  refine (safe_timeField (by decide) (by omega)).bind fun sec hsec => ?_
  exact safe_toUnix hyear hhour.1 hmin.1 hsec.1

/-! ### Parts of a certificate -/

theorem safe_readElement (h : Tame der) (e : ε) (pos : ℕ) :
    Safe (need e (readElement der pos)) fun r => Tame r.1.content :=
  Safe.need e ((returns_readElement h pos).mono fun _ hr element he => (hr.2 element he).1)

theorem safe_expectSequence (h : Tame der) (e : ε) (pos : ℕ) :
    Safe (need e (expectSequence der pos)) fun r => Tame r.1 ∧ r.2 ≤ der.length :=
  Safe.need e ((returns_expectSequence h pos).mono fun _ hr content hc =>
    ⟨(hr content hc).1,(hr content hc).2.2⟩)

theorem safe_parseTime (h : Tame der) (pos : ℕ) : Safe (parseTime der pos) fun _ => True := by
  refine (safe_readElement h () pos).bind ?_
  rintro ⟨e,pos'⟩ -
  refine .refuse fun _ => ?_
  refine .refuse fun _ => ?_
  have htime : Safe (timeValue e) fun _ => True := by
    rw [timeValue]
    split_ifs
    · exact safe_utcTime _
    · exact safe_generalizedTime _
  exact htime.bind fun time _ => .pure trivial

theorem safe_parseAlgorithmIdentifier (h : Tame der) (pos : ℕ) :
    Safe (parseAlgorithmIdentifier der pos) fun _ => True := by
  refine (safe_expectSequence h () pos).bind ?_
  rintro ⟨seq,pos'⟩ ⟨hseq,-⟩
  refine (safe_readElement hseq () 0).bind ?_
  rintro ⟨oid,_⟩ -
  exact .refuse fun _ => .pure trivial

theorem safe_parseName (h : Tame der) (pos : ℕ) : Safe (parseName der pos) fun _ => True := by
  refine (safe_readElement h () pos).bind ?_
  rintro ⟨e,pos'⟩ -
  exact .refuse fun _ => .pure trivial

theorem returns_slice_one (h : ¬ content.isEmpty = true) :
    Returns (slice content 1 content.length) fun _ => True := by
  have hpos : 1 ≤ content.length := by
    rw [List.isEmpty_iff,← List.length_eq_zero_iff] at h
    omega
  exact (returns_slice hpos le_rfl).mono fun _ _ => trivial

theorem safe_parseSpki (h : Tame der) (pos : ℕ) : Safe (parseSpki der pos) fun _ => True := by
  refine (safe_expectSequence h () pos).bind ?_
  rintro ⟨spki,pos'⟩ ⟨hspki,-⟩
  refine (safe_expectSequence hspki () 0).bind ?_
  rintro ⟨alg,p⟩ ⟨halg,-⟩
  refine (safe_readElement halg () 0).bind ?_
  rintro ⟨oid,ap⟩ -
  refine .refuse fun _ => ?_
  refine (Safe.check (returns_readElement halg ap)).bind ?_
  rintro ⟨params,_⟩ -
  refine (safe_readElement hspki () p).bind ?_
  rintro ⟨key,_⟩ -
  refine .refuse fun _ => ?_
  refine .refuse fun hempty => ?_
  exact (Safe.check (returns_slice_one hempty)).bind fun octets _ => .pure trivial

/-! ### Loops and extensions -/

section
variable {seq : List UInt8} (h : Tame seq) {q next : ℕ}
include h

theorem readElement_ne_error (fault : Fault) : readElement seq q ≠ .error fault := by
  obtain ⟨_,hread,-⟩ := returns_readElement h q
  rw [hread]
  rintro ⟨⟩

theorem tame_of_readElement {e : Element} (hread : readElement seq q = .ok (some e,next)) :
    Tame e.content := by
  obtain ⟨_,hread',-,hsome⟩ := returns_readElement h q
  cases hread'.symm.trans hread
  exact (hsome e rfl).1

variable {σ : Type} {f : σ → Element → Except Fault σ}
  (hf : ∀ s e, Tame e.content → Returns (f s e) fun _ => True) (q : ℕ) (s : σ)
include hf

theorem returns_eachElement : Returns (eachElement f seq q s) fun _ => True := by
  fun_induction eachElement f seq q s with
  | case1 q s _ fault hread => exact absurd hread (readElement_ne_error h fault)
  | case2 q s _ next hread _ ih => exact ih
  | case3 q s _ e next hread _ ih =>
    exact (hf s e (tame_of_readElement h hread)).bind fun s' _ => ih s'
  | case4 => exact .pure trivial

theorem returns_whileElement : Returns (whileElement f seq q s) fun _ => True := by
  fun_induction whileElement f seq q s with
  | case1 q s fault hread => exact absurd hread (readElement_ne_error h fault)
  | case2 => exact .pure trivial
  | case3 q s e next hread _ ih =>
    exact (hf s e (tame_of_readElement h hread)).bind fun s' _ => ih s'

end

variable {value tbs : List UInt8}

theorem returns_basicConstraints (h : Tame value) (exts : Extensions) :
    Returns (basicConstraints value exts) fun _ => True := by
  refine (returns_expectSequence h 0).bind ?_
  rintro ⟨seq,p⟩ hseq
  cases seq with
  | none => exact .pure trivial
  | some seq =>
    have htame := (hseq seq rfl).1
    refine (returns_readElement htame 0).bind ?_
    rintro ⟨ca,q⟩ -
    exact (returns_readElement htame q).bind fun _ _ => .pure trivial

theorem returns_keyUsageExtension (h : Tame value) (exts : Extensions) :
    Returns (keyUsageExtension value exts) fun _ => True := by
  refine (returns_readElement h 0).bind ?_
  rintro ⟨e,p⟩ -
  cases e with
  | none => exact .pure trivial
  | some e =>
    dsimp only
    split_ifs with hbits
    · have hne : ¬ e.content.isEmpty = true := by rw [hbits.2]; decide
      exact (returns_slice_one hne).bind fun _ _ => .pure trivial
    · exact .pure trivial

theorem returns_overSequence {f : Extensions → Element → Except Fault Extensions}
    (hf : ∀ s e, Returns (f s e) fun _ => True) (h : Tame value) (exts : Extensions) :
    Returns (overSequence f value exts) fun _ => True := by
  refine (returns_expectSequence h 0).bind ?_
  rintro ⟨seq,p⟩ hseq
  cases seq with
  | none => exact .pure trivial
  | some seq => exact returns_eachElement (hseq seq rfl).1 (fun s e _ => hf s e) 0 exts

theorem returns_subtree (permitted : Bool) (nc : NameConstraints) (st : Element)
    (h : Tame st.content) : Returns (subtree permitted nc st) fun _ => True := by
  rw [subtree]
  split_ifs
  · exact .pure trivial
  · exact (returns_readElement h 0).bind fun _ _ => .pure trivial

theorem returns_subtrees (nc : NameConstraints) (e : Element) (h : Tame e.content) :
    Returns (subtrees nc e) fun _ => True := by
  rw [subtrees]
  split_ifs
  · exact returns_eachElement h (returns_subtree true) 0 nc
  · exact returns_eachElement h (returns_subtree false) 0 nc
  · exact .pure trivial

theorem returns_nameConstraintsExtension (h : Tame value) (exts : Extensions) :
    Returns (nameConstraintsExtension value exts) fun _ => True := by
  refine (returns_expectSequence h 0).bind ?_
  rintro ⟨seq,p⟩ hseq
  have hconstraints : Returns (constraints seq) fun _ => True := by
    cases seq with
    | none => exact .pure trivial
    | some seq => exact returns_whileElement (hseq seq rfl).1 returns_subtrees 0 {}
  exact hconstraints.bind fun nc _ => .pure trivial

theorem returns_applyExtension (oid : List UInt8) (critical : Bool) (h : Tame value)
    (exts : Extensions) : Returns (applyExtension oid critical value exts) fun _ => True := by
  have haltName : ∀ s e, Returns (altName s e) fun _ => True := fun _ _ => .pure trivial
  have hpurpose : ∀ s e, Returns (purpose s e) fun _ => True := fun _ _ => .pure trivial
  rw [applyExtension]
  split_ifs
  · exact returns_basicConstraints h exts
  · exact returns_keyUsageExtension h exts
  · exact returns_overSequence haltName h exts
  · exact returns_overSequence hpurpose h exts
  · exact returns_nameConstraintsExtension h exts
  · exact .pure trivial
  · exact .pure trivial

theorem safe_extensionValue (h : Tame content) (r : ℕ) (critical : Bool) :
    Safe (extensionValue content r critical) fun p => Tame p.2.content := by
  fun_induction extensionValue content r critical with
  | case1 r critical fault hread => exact absurd hread (readElement_ne_error h fault)
  | case2 | case5 => exact .throw _
  | case3 r critical e next hread _ _ ih => exact ih
  | case4 r critical e next hread => exact .pure (tame_of_readElement h hread)

theorem safe_extension {ext : Element} (h : Tame ext.content) (exts : Extensions) :
    Safe (extension ext exts) fun _ => True := by
  refine .refuse fun _ => ?_
  refine (safe_readElement h _ 0).bind ?_
  rintro ⟨oid,r⟩ -
  refine .refuse fun _ => ?_
  refine (safe_extensionValue h r false).bind ?_
  rintro ⟨critical,value⟩ hvalue
  exact .check (returns_applyExtension oid.content critical hvalue exts)

theorem safe_extensions {seq : List UInt8} (h : Tame seq) (q : ℕ) (exts : Extensions) :
    Safe (extensions seq q exts) fun _ => True := by
  fun_induction extensions seq q exts with
  | case1 q exts _ fault hread => exact absurd hread (readElement_ne_error h fault)
  | case2 => exact .throw _
  | case3 q exts _ ext next hread _ ih =>
    exact (safe_extension (tame_of_readElement h hread) exts).bind fun exts' _ => ih exts'
  | case4 => exact .pure trivial

/-! ### Certificates -/

theorem safe_serialElement (h : Tame tbs) : Safe (serialElement tbs) fun _ => True := by
  refine (safe_readElement h _ 0).bind ?_
  rintro ⟨first,t⟩ hfirst
  dsimp only
  split_ifs with hversion
  · refine (safe_readElement hfirst _ 0).bind ?_
    rintro ⟨v,_⟩ -
    exact .refuse fun _ => (safe_readElement h _ t).mono fun _ _ => trivial
  · exact .pure trivial

theorem safe_parseSerial (h : Tame tbs) : Safe (parseSerial tbs) fun _ => True := by
  refine (safe_serialElement h).bind ?_
  rintro ⟨serial,t⟩ -
  exact .refuse fun _ => .pure trivial

theorem safe_parseExtensions (h : Tame tbs) (t : ℕ) :
    Safe (parseExtensions tbs t) fun _ => True := by
  refine (Safe.check (returns_readElement h t)).bind ?_
  rintro ⟨e,_⟩ ⟨-,he⟩
  cases e with
  | none => exact .pure trivial
  | some e =>
    dsimp only
    split_ifs
    · refine (safe_expectSequence (he e rfl).1 _ 0).bind ?_
      rintro ⟨seq,_⟩ ⟨hseq,-⟩
      exact safe_extensions hseq 0 {}
    · exact .pure trivial

theorem safe_parseCertificate (h : Tame der) : Safe (parseCertificate der) fun _ => True := by
  refine (safe_readElement h _ 0).bind ?_
  rintro ⟨outer,pos⟩ houter
  refine .refuse fun _ => ?_
  refine (safe_expectSequence houter _ 0).bind ?_
  rintro ⟨tbs,p⟩ ⟨htbs,hp⟩
  refine (Safe.check (returns_slice (Nat.zero_le p) hp)).bind fun tbsFull _ => ?_
  refine (Safe.orElse _ (safe_parseAlgorithmIdentifier houter p)).bind ?_
  rintro ⟨sigAlg,p'⟩ -
  refine (safe_readElement houter _ p').bind ?_
  rintro ⟨sig,_⟩ -
  refine .refuse fun hsig => ?_
  refine (Safe.check (returns_slice_one fun hempty => hsig (.inr hempty))).bind fun signature _ => ?_
  refine (safe_parseSerial htbs).bind ?_
  rintro ⟨serial,t⟩ -
  refine (Safe.orElse _ (safe_parseAlgorithmIdentifier htbs t)).bind ?_
  rintro ⟨_,t⟩ -
  refine (Safe.orElse _ (safe_parseName htbs t)).bind ?_
  rintro ⟨issuerDer,t⟩ -
  refine (safe_readElement htbs _ t).bind ?_
  rintro ⟨validity,t⟩ hvalidity
  refine (Safe.orElse _ (safe_parseTime hvalidity 0)).bind ?_
  rintro ⟨notBefore,vp⟩ -
  refine (Safe.orElse _ (safe_parseTime hvalidity vp)).bind ?_
  rintro ⟨notAfter,_⟩ -
  refine (Safe.orElse _ (safe_parseName htbs t)).bind ?_
  rintro ⟨subjectDer,t⟩ -
  refine (Safe.orElse _ (safe_parseSpki htbs t)).bind ?_
  rintro ⟨spki,t⟩ -
  exact (safe_parseExtensions htbs t).bind fun exts _ => .pure trivial

/-- What a call of `read_element` should do: nothing is found, or an element whose content is a
slice behind the start that ends at the new position; and the position moves on. -/
def ElementRead (der : List UInt8) (pos : ℕ) : Prop :=
  ∃ e pos', readElement der pos = .ok (e, pos') ∧ (pos < der.length → pos < pos') ∧
    ∀ element, e = some element → ∃ start, pos < start ∧ start ≤ pos' ∧ pos' ≤ der.length ∧
      element.content = (der.drop start).take (pos' - start)

theorem elementRead_iff (hlen : der.length < 2^63) (pos : ℕ) :
    ElementRead der pos ↔ Fits der pos := by
  rcases readElement_cases hlen pos with
    ⟨hannounced,pos',hlt,hnone⟩ | ⟨tag,start,len,hannounced,hlt,hstart,hsome⟩
  · refine iff_of_true ⟨none,pos',hnone,hlt,fun _ h => by cases h⟩ ?_
    intro start len h
    rw [hannounced] at h
    cases h
  rw [readContent_eq] at hsome
  by_cases hword : start+len < 2^64
  · refine iff_of_true ?_ ?_
    · split_ifs at hsome with hend
      · refine ⟨_,_,hsome,fun _ => by omega,?_⟩
        rintro _ ⟨⟩
        exact ⟨start,hlt,by omega,hend,by rw [Nat.add_sub_cancel_left]⟩
      · exact ⟨_,_,hsome,fun _ => hlt,fun _ h => by cases h⟩
    · intro start' len' h
      cases hannounced.symm.trans h
      exact hword
  · rw [if_neg hword] at hsome
    refine iff_of_false ?_ fun h => hword (h start len hannounced)
    rintro ⟨e,pos',hok,-⟩
    rw [hsome] at hok
    cases hok

/-- Octets in memory are read without a fault from every position, and as a certificate, exactly
when no length in them, added to the position behind it, reaches past a machine word. -/
theorem parser_safe (der : List UInt8) (hlen : der.length < 2 ^ 63) :
    ((∀ pos, ElementRead der pos) ∧ ∃ result, (parseCertificate der).run = .ok result) ↔
      ∀ pos, Fits der pos := by
  constructor
  · rintro ⟨hread,-⟩ pos
    exact (elementRead_iff hlen pos).1 (hread pos)
  · intro hfits
    refine ⟨fun pos => (elementRead_iff hlen pos).2 (hfits pos),?_⟩
    obtain ⟨result,hresult,-⟩ := safe_parseCertificate ⟨hlen,hfits⟩
    exact ⟨result,hresult⟩

theorem announced_rootDer : ∀ pos < rootDer.length,
    ((announced rootDer pos).all fun p => p.1+p.2 < 2^64) = true := by
  decide +kernel

theorem parser_safe_rootDer : (parseCertificate rootDer).run.map Except.isOk = .ok true ∧
    (∀ pos, ElementRead rootDer pos) ∧ ∃ result, (parseCertificate rootDer).run = .ok result := by
  refine ⟨by decide +kernel,(parser_safe rootDer (by decide)).2 fun pos start len h => ?_⟩
  by_cases hpos : pos < rootDer.length
  · have hall := announced_rootDer pos hpos
    rw [h] at hall
    exact of_decide_eq_true hall
  · rw [announced,drop_of_length_le (by omega)] at h
    cases h

/-- A sequence that announces 2^64 - 1 octets. -/
theorem parser_faults :
    (parseCertificate [0x30, 0x88, 0xff, 0xff, 0xff, 0xff, 0xff, 0xff, 0xff, 0xff]).run =
      .error .overflow := by
  decide

end Courierust.Tls
