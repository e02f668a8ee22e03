import Courierust.Http.Text
import Courierust.Tls.Der

/-!
# Certificates

`parse_certificate` and everything it calls, with the loops over elements as recursions that end
because each call of `read_element` moves on.
-/

namespace Courierust.Tls

open Faults
open Http (isAsciiDigit isUtf8 toAsciiLowercase)

/-- `TlsError::Protocol`. -/
structure TlsError where
  protocol : String
  deriving DecidableEq

/-! ### Times -/

def splitSign : List UInt8 → Bool × List UInt8
  | 0x2b :: rest => (false, rest)
  | 0x2d :: rest => (true, rest)
  | s => (false, s)

/-- `str::parse::<i64>`. -/
def parseI64 (s : List UInt8) : Option ℤ :=
  let (negative, digits) := splitSign s
  if digits.isEmpty || !digits.all isAsciiDigit then none
  else
    let n : ℕ := digits.foldl (fun n d => 10 * n + (d.toNat - 48)) 0
    let v : ℤ := if negative then -n else n
    if -2 ^ 63 ≤ v ∧ v < 2 ^ 63 then some v else none

/-- The result of an expression of type `i64`. -/
def i64 (v : ℤ) : Except Fault ℤ :=
  if -2 ^ 63 ≤ v ∧ v < 2 ^ 63 then .ok v else .error .overflow

def toUnix (year month day hour min sec : ℤ) : Fallible Unit ℤ :=
  if ¬ (1 ≤ month ∧ month ≤ 12) ∨ ¬ (1 ≤ day ∧ day ≤ 31) ∨ 23 < hour ∨ 59 < min ∨ 60 < sec then
    throw ()
  else do
    let y ← check (if month ≤ 2 then i64 (year - 1) else .ok year)
    let era := y / 400
    let yoe ← check (i64 (y - era * 400))
    let doy ← check (i64 ((153 * (month + if 2 < month then -3 else 9) + 2) / 5 + day - 1))
    let doe ← check (i64 (yoe * 365 + yoe / 4 - yoe / 100 + doy))
    let days ← check (i64 (era * 146097 + doe - 719468))
    check (i64 (days * 86400 + hour * 3600 + min * 60 + sec))

/-- `parse2`, and the `parse` calls of the other form. -/
def parse2 (s : List UInt8) : Fallible Unit ℤ :=
  match parseI64 s with
  | some v => pure v
  | none => throw ()

def timeField (s : List UInt8) (start stop : ℕ) : Fallible Unit ℤ := do
  let field ← check (slice s start stop)
  parse2 field

def split2 (s : List UInt8) : Fallible Unit (ℤ × List UInt8) :=
  if s.length < 2 then throw ()
  else do
    let v ← timeField s 0 2
    let rest ← check (slice s 2 s.length)
    pure (v, rest)

/-- `s.ends_with('Z')`. -/
def endsWithZ (s : List UInt8) : Bool := s.getLast? = some 0x5a

/-- The year of a UTCTime, and the fields behind it up to `stop`. -/
def yearAndRest (s : List UInt8) (stop : ℕ) : Fallible Unit (ℤ × List UInt8) := do
  let year ← timeField s 0 2
  let rest ← check (slice s 2 stop)
  pure (year, rest)

def utcYear (s : List UInt8) : Fallible Unit (ℤ × List UInt8) :=
  if s.length = 13 ∧ endsWithZ s then yearAndRest s 12
  else if s.length = 15 ∧ endsWithZ s then yearAndRest s 14
  else throw ()

def utcSeconds (rest : List UInt8) : Fallible Unit (ℤ × List UInt8) :=
  if rest.isEmpty then pure (0, []) else split2 rest

def utcTime (s : List UInt8) : Fallible Unit ℤ := do
  let (year, rest) ← utcYear s
  let yy := if year < 50 then 2000 + year else 1900 + year
  let (month, rest) ← split2 rest
  let (day, rest) ← split2 rest
  let (hour, rest) ← split2 rest
  let (min, rest) ← split2 rest
  let (sec, _) ← utcSeconds rest
  toUnix yy month day hour min sec

def generalizedTime (s : List UInt8) : Fallible Unit ℤ :=
  if s.length < 15 ∨ endsWithZ s = false then throw ()
  else do
    let year ← timeField s 0 4
    let month ← timeField s 4 6
    let day ← timeField s 6 8
    let hour ← timeField s 8 10
    let min ← timeField s 10 12
    let sec ← timeField s 12 14
    toUnix year month day hour min sec

def timeValue (e : Element) : Fallible Unit ℤ :=
  if e.tag = 0x17 then utcTime e.content else generalizedTime e.content

/-- `parse_time`. Octets that are UTF-8 and ASCII are those below 0x80. -/
def parseTime (der : List UInt8) (pos : ℕ) : Fallible Unit (ℤ × ℕ) := do
  let (e, pos) ← need () (readElement der pos)
  if e.tag ≠ 0x17 ∧ e.tag ≠ 0x18 then throw ()
  else if !e.content.all (· < 0x80) then throw ()
  else do
    let time ← timeValue e
    pure (time, pos)

/-! ### Algorithms, names and keys -/

def oidRsaSha256 : List UInt8 := [0x2a, 0x86, 0x48, 0x86, 0xf7, 0x0d, 0x01, 0x01, 0x0b]

def oidRsaSha384 : List UInt8 := [0x2a, 0x86, 0x48, 0x86, 0xf7, 0x0d, 0x01, 0x01, 0x0c]

def oidRsaSha512 : List UInt8 := [0x2a, 0x86, 0x48, 0x86, 0xf7, 0x0d, 0x01, 0x01, 0x0d]

def oidEcPublicKey : List UInt8 := [0x2a, 0x86, 0x48, 0xce, 0x3d, 0x02, 0x01]

def oidEcdsaSha256 : List UInt8 := [0x2a, 0x86, 0x48, 0xce, 0x3d, 0x04, 0x03, 0x02]

def oidEcdsaSha384 : List UInt8 := [0x2a, 0x86, 0x48, 0xce, 0x3d, 0x04, 0x03, 0x03]

def oidEcdsaSha512 : List UInt8 := [0x2a, 0x86, 0x48, 0xce, 0x3d, 0x04, 0x03, 0x04]

def oidP256 : List UInt8 := [0x2a, 0x86, 0x48, 0xce, 0x3d, 0x03, 0x01, 0x07]

def oidP384 : List UInt8 := [0x2b, 0x81, 0x04, 0x00, 0x22]

def oidP521 : List UInt8 := [0x2b, 0x81, 0x04, 0x00, 0x23]

def oidEd25519 : List UInt8 := [0x2b, 0x65, 0x70]

def oidBasicConstraints : List UInt8 := [0x55, 0x1d, 0x13]

def oidKeyUsage : List UInt8 := [0x55, 0x1d, 0x0f]

def oidSubjectAltName : List UInt8 := [0x55, 0x1d, 0x11]

def oidExtendedKeyUsage : List UInt8 := [0x55, 0x1d, 0x25]

def oidNameConstraints : List UInt8 := [0x55, 0x1d, 0x1e]

inductive SigAlg where
  | rsaSha256
  | rsaSha384
  | rsaSha512
  | ecdsaSha256
  | ecdsaSha384
  | ecdsaSha512
  | ed25519
  | unknown
  deriving DecidableEq

def sigAlgFromOid (oid : List UInt8) : SigAlg :=
  if oid = oidRsaSha256 then .rsaSha256
  else if oid = oidRsaSha384 then .rsaSha384
  else if oid = oidRsaSha512 then .rsaSha512
  else if oid = oidEcdsaSha256 then .ecdsaSha256
  else if oid = oidEcdsaSha384 then .ecdsaSha384
  else if oid = oidEcdsaSha512 then .ecdsaSha512
  else if oid = oidEd25519 then .ed25519
  else .unknown

/-- `parse_algorithm_identifier`: the identifier. -/
def parseAlgorithmIdentifier (der : List UInt8) (pos : ℕ) : Fallible Unit (List UInt8 × ℕ) := do
  let (seq, pos) ← need () (expectSequence der pos)
  let (oid, _) ← need () (readElement seq 0)
  if oid.tag ≠ 0x06 then throw () else pure (oid.content, pos)

def parseName (der : List UInt8) (pos : ℕ) : Fallible Unit (List UInt8 × ℕ) := do
  let (e, pos) ← need () (readElement der pos)
  if e.tag ≠ 0x30 then throw () else pure (e.content, pos)

inductive Curve where
  | p256
  | p384
  | p521
  deriving DecidableEq

structure Spki where
  oid : List UInt8
  key : List UInt8
  ecCurve : Option Curve
  deriving DecidableEq

def namedCurve (params : Element) : Option Curve :=
  if params.tag ≠ 0x06 then none
  else if params.content = oidP256 then some .p256
  else if params.content = oidP384 then some .p384
  else if params.content = oidP521 then some .p521
  else none

/-- `parse_spki`. The parameters of any algorithm are read, and used for EC keys. -/
def parseSpki (der : List UInt8) (pos : ℕ) : Fallible Unit (Spki × ℕ) := do
  let (spki, pos) ← need () (expectSequence der pos)
  let (alg, p) ← need () (expectSequence spki 0)
  let (oid, ap) ← need () (readElement alg 0)
  if oid.tag ≠ 0x06 then throw ()
  else do
    let (params, _) ← check (readElement alg ap)
    let ecCurve := if oid.content = oidEcPublicKey then params.bind namedCurve else none
    let (key, _) ← need () (readElement spki p)
    if key.tag ≠ 0x03 then throw ()
    else if key.content.isEmpty then throw ()
    else do
      let octets ← check (slice key.content 1 key.content.length)
      pure (⟨oid.content, octets, ecCurve⟩, pos)

/-! ### Loops over elements -/

section
variable {σ : Type} (f : σ → Element → Except Fault σ)

/-- `while q < seq.len() { if let Some(e) = read_element(seq, &mut q) { .. } }`. -/
def eachElement (seq : List UInt8) (q : ℕ) (s : σ) : Except Fault σ :=
  if hq : q < seq.length then
    match hread : readElement seq q with
    | .error fault => .error fault
    | .ok (none, next) =>
      have := (lt_readElement hread).1 hq
      eachElement seq next s
    | .ok (some e, next) =>
      have := (lt_readElement hread).1 hq
      f s e >>= eachElement seq next
  else .ok s
termination_by seq.length - q

/-- `while let Some(e) = read_element(seq, &mut q) { .. }`. -/
def whileElement (seq : List UInt8) (q : ℕ) (s : σ) : Except Fault σ :=
  match hread : readElement seq q with
  | .error fault => .error fault
  | .ok (none, _) => .ok s
  | .ok (some e, next) =>
    have := (lt_readElement hread).2 rfl
    f s e >>= whileElement seq next
termination_by seq.length - q

end

/-! ### Extensions -/

structure KeyUsage where
  digitalSignature : Bool := false
  contentCommitment : Bool := false
  keyEncipherment : Bool := false
  dataEncipherment : Bool := false
  keyAgreement : Bool := false
  keyCertSign : Bool := false
  crlSign : Bool := false
  encipherOnly : Bool := false
  decipherOnly : Bool := false
  deriving DecidableEq

def KeyUsage.fromBits : List UInt8 → KeyUsage
  | [] => {}
  | b0 :: rest =>
    { digitalSignature := b0 &&& 0x80 ≠ 0
      contentCommitment := b0 &&& 0x40 ≠ 0
      keyEncipherment := b0 &&& 0x20 ≠ 0
      dataEncipherment := b0 &&& 0x10 ≠ 0
      keyAgreement := b0 &&& 0x08 ≠ 0
      keyCertSign := b0 &&& 0x04 ≠ 0
      crlSign := b0 &&& 0x02 ≠ 0
      encipherOnly := b0 &&& 0x01 ≠ 0
      decipherOnly := rest.headD 0 &&& 0x80 ≠ 0 }

structure NameConstraints where
  permittedDns : List (List UInt8) := []
  excludedDns : List (List UInt8) := []
  permittedIp : List (List UInt8) := []
  excludedIp : List (List UInt8) := []
  hasOtherForms : Bool := false
  deriving DecidableEq

def NameConstraints.isEmpty (nc : NameConstraints) : Bool :=
  !nc.hasOtherForms && nc.permittedDns.isEmpty && nc.excludedDns.isEmpty &&
    nc.permittedIp.isEmpty && nc.excludedIp.isEmpty

structure Extensions where
  dnsNames : List (List UInt8) := []
  ipNames : List (List UInt8) := []
  isCa : Option Bool := none
  pathLen : Option ℕ := none
  keyUsage : KeyUsage := {}
  eku : List (List UInt8) := []
  nameConstraints : Option NameConstraints := none
  hasOtherSans : Bool := false
  unknownCritical : Bool := false
  deriving DecidableEq

/-- A BOOLEAN: `!e.content.is_empty() && e.content[0] != 0`. -/
def boolean (content : List UInt8) : Bool := !content.isEmpty && content.headD 0 ≠ 0

/-- The loop with `saturating_mul` and `saturating_add`, and the cap of a `u8`. -/
def pathLength (content : List UInt8) : ℕ :=
  min (content.foldl (fun v b => min (min (v * 256) (2 ^ 64 - 1) + b.toNat) (2 ^ 64 - 1)) 0) 255

def basicConstraints (value : List UInt8) (exts : Extensions) : Except Fault Extensions := do
  let (seq, _) ← expectSequence value 0
  match seq with
  | none => .ok exts
  | some seq => do
    let (ca, q) ← readElement seq 0
    let exts := match ca with
      | some e => if e.tag = 0x01 then { exts with isCa := some (boolean e.content) } else exts
      | none => exts
    let (len, _) ← readElement seq q
    .ok (match len with
      | some e =>
        if e.tag = 0x02 ∧ e.content.isEmpty = false then
          { exts with pathLen := some (pathLength e.content) }
        else exts
      | none => exts)

def keyUsageExtension (value : List UInt8) (exts : Extensions) : Except Fault Extensions := do
  let (e, _) ← readElement value 0
  match e with
  | none => .ok exts
  | some e =>
    if e.tag = 0x03 ∧ e.content.isEmpty = false then do
      let bits ← slice e.content 1 e.content.length
      .ok { exts with keyUsage := .fromBits bits }
    else .ok exts

def altName (exts : Extensions) (e : Element) : Except Fault Extensions :=
  .ok (if e.tag = 0x82 then
      if isUtf8 e.content ∧ e.content.isEmpty = false then
        { exts with dnsNames := exts.dnsNames ++ [e.content] }
      else exts
    else if e.tag = 0x87 ∧ (e.content.length = 4 ∨ e.content.length = 16) then
      { exts with ipNames := exts.ipNames ++ [e.content] }
    else if [0x81, 0x83, 0x84, 0x85, 0x86, 0x88].contains e.tag then
      { exts with hasOtherSans := true }
    else exts)

def purpose (exts : Extensions) (e : Element) : Except Fault Extensions :=
  .ok (if e.tag = 0x06 then { exts with eku := exts.eku ++ [e.content] } else exts)

def overSequence (f : Extensions → Element → Except Fault Extensions) (value : List UInt8)
    (exts : Extensions) : Except Fault Extensions := do
  let (seq, _) ← expectSequence value 0
  match seq with
  | none => .ok exts
  | some seq => eachElement f seq 0 exts

def subtreeBase (permitted : Bool) (nc : NameConstraints) (base : Element) : NameConstraints :=
  if base.tag = 0x82 then
    let name := if isUtf8 base.content then base.content.map toAsciiLowercase else []
    if permitted then { nc with permittedDns := nc.permittedDns ++ [name] }
    else { nc with excludedDns := nc.excludedDns ++ [name] }
  else if base.tag = 0x87 then
    if base.content.length = 8 ∨ base.content.length = 32 then
      if permitted then { nc with permittedIp := nc.permittedIp ++ [base.content] }
      else { nc with excludedIp := nc.excludedIp ++ [base.content] }
    else nc
  else { nc with hasOtherForms := true }

def subtree (permitted : Bool) (nc : NameConstraints) (st : Element) :
    Except Fault NameConstraints :=
  if st.tag ≠ 0x30 then .ok nc
  else do
    let (base, _) ← readElement st.content 0
    .ok (match base with
      | some base => subtreeBase permitted nc base
      | none => nc)

def subtrees (nc : NameConstraints) (e : Element) : Except Fault NameConstraints :=
  if e.tag = 0xa0 then eachElement (subtree true) e.content 0 nc
  else if e.tag = 0xa1 then eachElement (subtree false) e.content 0 nc
  else .ok nc

def constraints : Option (List UInt8) → Except Fault NameConstraints
  | some seq => whileElement subtrees seq 0 {}
  | none => .ok {}

def nameConstraintsExtension (value : List UInt8) (exts : Extensions) :
    Except Fault Extensions := do
  let (seq, p) ← expectSequence value 0
  let nc ← constraints seq
  .ok (if nc.isEmpty = false ∨ p = 0 then { exts with nameConstraints := some nc } else exts)

def applyExtension (oid : List UInt8) (critical : Bool) (value : List UInt8) (exts : Extensions) :
    Except Fault Extensions :=
  if oid = oidBasicConstraints then basicConstraints value exts
  else if oid = oidKeyUsage then keyUsageExtension value exts
  else if oid = oidSubjectAltName then overSequence altName value exts
  else if oid = oidExtendedKeyUsage then overSequence purpose value exts
  else if oid = oidNameConstraints then nameConstraintsExtension value exts
  else if critical then .ok { exts with unknownCritical := true }
  else .ok exts

def extensionValue (content : List UInt8) (r : ℕ) (critical : Bool) :
    Fallible TlsError (Bool × Element) :=
  match hread : readElement content r with
  | .error fault => check (.error fault)
  | .ok (none, _) => throw ⟨"extension value missing"⟩
  | .ok (some e, next) =>
    have := (lt_readElement hread).2 rfl
    if e.tag = 0x01 then extensionValue content next (boolean e.content)
    else if e.tag = 0x04 then pure (critical, e)
    else throw ⟨"extension value not octet string"⟩
termination_by content.length - r

def extension (ext : Element) (exts : Extensions) : Fallible TlsError Extensions :=
  if ext.tag ≠ 0x30 then throw ⟨"bad extension"⟩
  else do
    let (oid, r) ← need ⟨"bad extension oid"⟩ (readElement ext.content 0)
    if oid.tag ≠ 0x06 then throw ⟨"bad extension oid"⟩
    else do
      let (critical, value) ← extensionValue ext.content r false
      check (applyExtension oid.content critical value.content exts)

def extensions (seq : List UInt8) (q : ℕ) (exts : Extensions) : Fallible TlsError Extensions :=
  if hq : q < seq.length then
    match hread : readElement seq q with
    | .error fault => check (.error fault)
    | .ok (none, _) => throw ⟨"bad extension"⟩
    | .ok (some ext, next) =>
      have := (lt_readElement hread).1 hq
      extension ext exts >>= extensions seq next
  else pure exts
termination_by seq.length - q

/-! ### Certificates -/

structure Certificate where
  der : List UInt8
  tbs : List UInt8
  sigAlg : SigAlg
  signature : List UInt8
  spki : Spki
  serial : List UInt8
  issuerDer : List UInt8
  subjectDer : List UInt8
  notBefore : ℤ
  notAfter : ℤ
  exts : Extensions
  deriving DecidableEq

def serialElement (tbs : List UInt8) : Fallible TlsError (Element × ℕ) := do
  let (first, t) ← need ⟨"bad tbsCertificate"⟩ (readElement tbs 0)
  if first.tag = 0xa0 then do
    let (v, _) ← need ⟨"bad version"⟩ (readElement first.content 0)
    if v.tag ≠ 0x02 then throw ⟨"bad version"⟩
    else need ⟨"missing serial"⟩ (readElement tbs t)
  else pure (first, t)

def parseSerial (tbs : List UInt8) : Fallible TlsError (List UInt8 × ℕ) := do
  let (serial, t) ← serialElement tbs
  if serial.tag ≠ 0x02 then throw ⟨"missing serial"⟩ else pure (serial.content, t)

def parseExtensions (tbs : List UInt8) (t : ℕ) : Fallible TlsError Extensions := do
  let (e, _) ← check (readElement tbs t)
  match e with
  | none => pure {}
  | some e =>
    if e.tag = 0xa3 then do
      let (seq, _) ← need ⟨"bad extensions"⟩ (expectSequence e.content 0)
      extensions seq 0 {}
    else pure {}

def parseCertificate (der : List UInt8) : Fallible TlsError Certificate := do
  let (outer, pos) ← need ⟨"bad cert header"⟩ (readElement der 0)
  if outer.tag ≠ 0x30 ∨ pos ≠ der.length then throw ⟨"certificate is not a single SEQUENCE"⟩
  else do
    let (tbs, p) ← need ⟨"missing tbsCertificate"⟩ (expectSequence outer.content 0)
    let tbsFull ← check (slice outer.content 0 p)
    let (sigAlg, p) ← orElse ⟨"missing signature algorithm"⟩ (parseAlgorithmIdentifier outer.content p)
    let (sig, _) ← need ⟨"missing signature value"⟩ (readElement outer.content p)
    if sig.tag ≠ 0x03 ∨ sig.content.isEmpty then throw ⟨"bad signature value"⟩
    else do
      let signature ← check (slice sig.content 1 sig.content.length)
      let (serial, t) ← parseSerial tbs
      let (_, t) ← orElse ⟨"missing tbs signature alg"⟩ (parseAlgorithmIdentifier tbs t)
      let (issuerDer, t) ← orElse ⟨"missing issuer"⟩ (parseName tbs t)
      let (validity, t) ← need ⟨"missing validity"⟩ (readElement tbs t)
      let (notBefore, vp) ← orElse ⟨"bad notBefore"⟩ (parseTime validity.content 0)
      let (notAfter, _) ← orElse ⟨"bad notAfter"⟩ (parseTime validity.content vp)
      let (subjectDer, t) ← orElse ⟨"missing subject"⟩ (parseName tbs t)
      let (spki, t) ← orElse ⟨"missing SPKI"⟩ (parseSpki tbs t)
      let exts ← parseExtensions tbs t
      pure
        { der, tbs := tbsFull, sigAlg := sigAlgFromOid sigAlg, signature, spki, serial, issuerDer,
          subjectDer, notBefore, notAfter, exts }

/-! ### A certificate -/

def tlv (tag : UInt8) (content : List UInt8) : List UInt8 :=
  tag :: UInt8.ofNat content.length :: content

def ed25519 : List UInt8 := tlv 0x30 (tlv 0x06 oidEd25519)

def decades : List UInt8 :=
  tlv 0x17 [0x32, 0x30, 0x30, 0x31, 0x30, 0x31, 0x30, 0x30, 0x30, 0x30, 0x30, 0x30, 0x5a] ++
    tlv 0x17 [0x34, 0x39, 0x31, 0x32, 0x33, 0x31, 0x32, 0x33, 0x35, 0x39, 0x35, 0x39, 0x5a]

def certificate (issuer subject : UInt8) (basic : List UInt8) : List UInt8 :=
  tlv 0x30 (tlv 0x30 (tlv 0x02 [1] ++ ed25519 ++ tlv 0x30 [issuer] ++ tlv 0x30 decades ++
    tlv 0x30 [subject] ++ tlv 0x30 (ed25519 ++ tlv 0x03 [0, 1]) ++
      (if basic = [] then [] else tlv 0xa3 (tlv 0x30 (tlv 0x30 (tlv 0x06 oidBasicConstraints ++
        tlv 0x04 (tlv 0x30 basic)))))) ++ ed25519 ++ tlv 0x03 [0, 2])

def rootDer : List UInt8 := certificate 1 1 [0x01, 1, 0xff]

end Courierust.Tls
