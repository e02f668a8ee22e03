import Courierust.Tls.Certificate

/-!
# Certificate chains

`validate_chain`: the path from a leaf to a trust anchor. The verification of a signature is any
predicate, and so is the matching of names against name constraints.
-/

namespace Courierust.Tls

open List
open Faults

/-- `TlsError::Certificate`, or an error of the parser. -/
inductive ChainError where
  | parse (e : TlsError)
  | certificate (msg : String)
  deriving DecidableEq

def maxChainLen : ℕ := 10

def oidRsaEncryption : List UInt8 := [0x2a, 0x86, 0x48, 0x86, 0xf7, 0x0d, 0x01, 0x01, 0x01]

def usagePresent (u : KeyUsage) : Bool :=
  u.digitalSignature || u.contentCommitment || u.keyEncipherment || u.dataEncipherment ||
    u.keyAgreement || u.keyCertSign || u.crlSign || u.encipherOnly || u.decipherOnly

namespace Certificate

def isSelfIssued (c : Certificate) : Bool := c.issuerDer = c.subjectDer

def isValidAt (c : Certificate) (now : ℤ) : Bool := c.notBefore ≤ now && now ≤ c.notAfter

def isCa (c : Certificate) : Bool := c.exts.isCa = some true

def hasCertSign (c : Certificate) : Bool :=
  !usagePresent c.exts.keyUsage || c.exts.keyUsage.keyCertSign

def hasServerUsage (c : Certificate) : Bool :=
  !usagePresent c.exts.keyUsage || (c.exts.keyUsage.digitalSignature ||
    (c.spki.oid = oidRsaEncryption && c.exts.keyUsage.keyEncipherment))

end Certificate

/-- The certificates between the leaf and the one at `i` that count for a path length: those of CAs
that are not self-issued. -/
def below (certs : List Certificate) (i : ℕ) : ℕ :=
  ((certs.take i).drop 1).countP fun c => c.isCa && !c.isSelfIssued

def ensure (ok : Bool) (msg : String) : Except ChainError Unit :=
  if ok then .ok () else .error (.certificate msg)

def parseAll : List (List UInt8) → Fallible ChainError (List Certificate)
  | [] => pure []
  | der :: rest => do
    let c ← (ExceptT.mk (Except.map (Except.mapError .parse) (parseCertificate der).run) :
      Fallible ChainError Certificate)
    let certs ← parseAll rest
    pure (c :: certs)

section
variable (verify : Certificate → Spki → Bool) (permits : NameConstraints → Extensions → Bool)

def checkPath (certs : List Certificate) (now : ℤ) : Except ChainError Unit := do
  ensure (certs.length ≤ maxChainLen) "certificate chain exceeds the maximum depth of 10"
  certs.zipIdx.forM fun ci =>
    ensure (ci.1.isValidAt now) ("certificate " ++ toString ci.2 ++ " outside validity window")
  certs.zipIdx.forM fun ci => ensure (!ci.1.exts.unknownCritical)
    ("certificate " ++ toString ci.2 ++ " carries an unsupported critical extension")
  (certs.zip certs.tail).forM fun link => do
    ensure (link.1.issuerDer = link.2.subjectDer) "issuer/subject name mismatch"
    ensure (verify link.1 link.2.spki) "certificate signature invalid"
  certs.tail.forM fun ca => do
    ensure ca.isCa "chain issuer is not a CA"
    ensure ca.hasCertSign "CA lacks keyCertSign"
  ((certs.zipIdx.drop 1).take (certs.length - 2)).forM fun ci =>
    ensure (ci.1.exts.pathLen.all (below certs ci.2 ≤ ·))
      ("certificate " ++ toString ci.2 ++ " exceeds its pathLenConstraint")
  ensure (certs.head?.all (·.hasServerUsage))
    "leaf certificate key usage forbids server authentication"

def isIssuer (last root : Certificate) : Bool :=
  last.issuerDer = root.subjectDer && root.isCa && root.hasCertSign && verify last root.spki &&
    root.isSelfIssued

def findIssuer (last : Certificate) : List (List UInt8) → Except Fault Bool
  | [] => .ok false
  | root :: rest => do
    match ← (parseCertificate root).run with
    | .error _ => findIssuer last rest
    | .ok cert => if isIssuer verify last cert then .ok true else findIssuer last rest

def checkNames (certs : List Certificate) (anchored : Bool) : Except ChainError Unit :=
  (certs.zipIdx.drop 1).forM fun ci =>
    match ci.1.exts.nameConstraints with
    | none => .ok ()
    | some nc =>
      if nc.isEmpty || (ci.2 = certs.length - 1 && anchored) then .ok ()
      else (certs.take ci.2).forM fun subordinate =>
        ensure (permits nc subordinate.exts) ("certificate " ++ toString ci.2 ++
          " name constraints violated by a subordinate certificate's names")

def orderly {α : Type} (x : Except ChainError α) : Fallible ChainError α := ExceptT.mk (.ok x)

def checkAnchor (roots : List (List UInt8)) (last : Certificate) (anchored : Bool) :
    Fallible ChainError Unit :=
  if anchored then
    orderly (ensure (last.isSelfIssued || verify last last.spki) "root is not self-signed")
  else do
    let verified ← check (findIssuer verify last roots)
    orderly (ensure verified "no trusted root found")

def validateChain (roots chain : List (List UInt8)) (now : ℤ) : Fallible ChainError Unit := do
  let certs ← parseAll chain
  match certs.getLast? with
  | none => throw (.certificate "empty certificate chain")
  | some last => do
    orderly (checkPath verify certs now)
    let anchored := roots.any (· = last.der)
    checkAnchor verify roots last anchored
    orderly (ensure (certs.head?.all fun leaf => !leaf.isCa || (certs.length = 1 && anchored))
      "leaf certificate is a CA")
    orderly (checkNames permits certs anchored)

end

/-! ### What is accepted -/

structure Linked (verify : Certificate → Spki → Bool) (certs : List Certificate) (now : ℤ) :
    Prop where
  valid : ∀ c ∈ certs, c.isValidAt now = true
  linked : ∀ link ∈ certs.zip certs.tail,
    link.1.issuerDer = link.2.subjectDer ∧ verify link.1 link.2.spki = true
  issuers : ∀ c ∈ certs.tail, c.isCa = true ∧ c.hasCertSign = true

/-- A path from the leaf to a trust anchor, as RFC 5280 has it. -/
structure Sound (verify : Certificate → Spki → Bool) (roots : List (List UInt8))
    (certs : List Certificate) (now : ℤ) : Prop extends Linked verify certs now where
  anchor : ∃ last, certs.getLast? = some last ∧ (last.der ∈ roots ∨
    ∃ root ∈ roots, ∃ cert, parseCertificate root = pure cert ∧ isIssuer verify last cert = true)
  pathLen : ∀ i c, certs[i]? = some c → c.isCa = true →
    ¬ (i + 1 = certs.length ∧ c.der ∈ roots) →
      ∀ p, c.exts.pathLen = some p → below certs i ≤ p

def LastFits (roots : List (List UInt8)) (certs : List Certificate) : Prop :=
  ∀ last, certs.getLast? = some last → last.der ∉ roots →
    ∀ p, last.exts.pathLen = some p → below certs (certs.length - 1) ≤ p

theorem ensure_eq_ok {ok : Bool} {msg : String} {u : Unit} :
    ensure ok msg = .ok u ↔ ok = true := by
  cases ok <;> simp [ensure]

theorem forM_eq_ok {α : Type} {l : List α} {f : α → Except ChainError Unit} {u : Unit} :
    l.forM f = .ok u ↔ ∀ a ∈ l, f a = .ok () := by
  induction l with
  | nil => simp [List.forM,pure,Except.pure]
  | cons a l ih =>
    have hcons : (a :: l).forM f = f a >>= fun _ => l.forM f := rfl
    rw [hcons,Except.bind_eq_ok,forall_mem_cons,← ih]
    exact ⟨fun ⟨_,ha,hl⟩ => ⟨ha,hl⟩,fun ⟨ha,hl⟩ => ⟨(),ha,hl⟩⟩

theorem orderly_eq_pure {α : Type} {x : Except ChainError α} {a : α} :
    orderly x = pure a ↔ x = .ok a :=
  ⟨Except.ok.inj,fun h => congrArg Except.ok h⟩

structure PathChecked (verify : Certificate → Spki → Bool) (certs : List Certificate) (now : ℤ) :
    Prop extends Linked verify certs now where
  inner : ∀ i c, certs[i]? = some c → 0 < i → i + 1 < certs.length →
    ∀ p, c.exts.pathLen = some p → below certs i ≤ p

variable {verify : Certificate → Spki → Bool} {permits : NameConstraints → Extensions → Bool}
  {roots chain : List (List UInt8)} {certs : List Certificate} {now : ℤ}

theorem pathChecked_of_checkPath (h : checkPath verify certs now = .ok ()) :
    PathChecked verify certs now := by
  simp only [checkPath,Except.bind_eq_ok,forM_eq_ok,ensure_eq_ok] at h
  obtain ⟨_,-,_,hvalid,_,-,_,hlinked,_,hissuers,_,hinner,-⟩ := h
  refine ⟨⟨?_,?_,?_⟩,?_⟩
  · intro c hc
    obtain ⟨i,hi⟩ := mem_iff_getElem?.1 hc
    exact hvalid (c,i) (mem_zipIdx_iff_getElem?.2 hi)
  · intro link hlink
    obtain ⟨_,hname,hsigned⟩ := hlinked link hlink
    exact ⟨of_decide_eq_true hname,hsigned⟩
  · intro c hc
    obtain ⟨_,hca,hsign⟩ := hissuers c hc
    exact ⟨hca,hsign⟩
  · intro i c hc hpos hlast p hp
    have hmem : (c,i) ∈ (certs.zipIdx.drop 1).take (certs.length-2) := by
      rw [mem_iff_getElem?]
      refine ⟨i-1,?_⟩
      rw [getElem?_take_of_lt (by omega),getElem?_drop,getElem?_zipIdx,
        show 1+(i-1) = i by omega,hc]
      simp
    have hall := hinner (c,i) hmem
    rw [hp] at hall
    exact of_decide_eq_true hall

theorem exists_issuer {last : Certificate} (h : findIssuer verify last roots = .ok true) :
    ∃ root ∈ roots, ∃ cert, parseCertificate root = pure cert ∧ isIssuer verify last cert = true := by
  induction roots with
  | nil => cases h
  | cons root roots ih =>
    have hrest : findIssuer verify last roots = .ok true → ∃ root' ∈ root :: roots, ∃ cert,
        parseCertificate root' = pure cert ∧ isIssuer verify last cert = true := by
      intro h
      obtain ⟨root',hmem,hcert⟩ := ih h
      exact ⟨root',mem_cons_of_mem _ hmem,hcert⟩
    rw [findIssuer,Except.bind_eq_ok] at h
    obtain ⟨r,hparse,h⟩ := h
    cases r with
    | error e => exact hrest h
    | ok cert =>
      simp only at h
      split_ifs at h with hissuer
      · exact ⟨root,mem_cons_self,cert,hparse,hissuer⟩
      · exact hrest h

theorem of_validateChain (hparse : parseAll chain = pure certs)
    (hok : validateChain verify permits roots chain now = pure ()) :
    PathChecked verify certs now ∧ ∃ last, certs.getLast? = some last ∧ (last.der ∈ roots ∨
      ∃ root ∈ roots, ∃ cert, parseCertificate root = pure cert ∧
        isIssuer verify last cert = true) := by
  rw [validateChain,hparse,pure_bind] at hok
  split at hok
  · cases hok
  · next last hlast =>
    obtain ⟨_,hpath,hok⟩ := Fallible.bind_eq_pure.1 hok
    obtain ⟨_,hanchor,-⟩ := Fallible.bind_eq_pure.1 hok
    refine ⟨pathChecked_of_checkPath (orderly_eq_pure.1 hpath),last,hlast,?_⟩
    rw [checkAnchor] at hanchor
    split_ifs at hanchor with hany
    · obtain ⟨root,hroot,heq⟩ := any_eq_true.1 hany
      exact .inl (of_decide_eq_true heq ▸ hroot)
    · obtain ⟨found,hfound,hverified⟩ := Fallible.bind_eq_pure.1 hanchor
      have htrue : found = true := ensure_eq_ok.1 (orderly_eq_pure.1 hverified)
      rw [htrue] at hfound
      exact .inr (exists_issuer (check_eq_pure.1 hfound))

/-- An accepted chain is sound if and only if the last certificate fits: its path length is the one
that is never looked at. -/
theorem chain_sound_iff (verify : Certificate → Spki → Bool)
    (permits : NameConstraints → Extensions → Bool) (roots chain : List (List UInt8)) (now : ℤ)
    (certs : List Certificate) (hparse : parseAll chain = pure certs)
    (hok : validateChain verify permits roots chain now = pure ()) :
    Sound verify roots certs now ↔ LastFits roots certs := by
  obtain ⟨hpath,hanchor⟩ := of_validateChain hparse hok
  constructor
  · intro hsound last hlast hnot p hp
    rw [getLast?_eq_getElem?] at hlast
    by_cases hone : certs.length-1 = 0
    · rw [hone,below,take_zero]
      exact Nat.zero_le _
    have hmem : last ∈ certs.tail := by
      rw [mem_iff_getElem?]
      refine ⟨certs.length-2,?_⟩
      rw [getElem?_tail,← hlast]
      congr 1
      omega
    exact hsound.pathLen _ last hlast (hpath.issuers last hmem).1 (fun h => hnot h.2) p hp
  · intro hfits
    refine ⟨hpath.toLinked,hanchor,?_⟩
    intro i c hc _ hnot p hp
    have hlt : i < certs.length := (List.getElem?_eq_some_iff.1 hc).1
    by_cases hzero : i = 0
    · rw [hzero,below,take_zero]
      exact Nat.zero_le _
    by_cases hlast : i+1 = certs.length
    · have hget : certs.getLast? = some c := by
        rw [getLast?_eq_getElem?,← hc]
        congr 1
        omega
      have hle := hfits c hget (fun hmem => hnot ⟨hlast,hmem⟩) p hp
      rwa [show certs.length-1 = i by omega] at hle
    · exact hpath.inner i c hc (by omega) (by omega) p hp

/-! ### A chain that is too long for its last certificate -/

def endsWith (der : List UInt8) (pathLen : Option ℕ) (below' : ℕ) (certs : List Certificate) : Bool :=
  below certs (certs.length - 1) = below' &&
    certs.getLast?.any fun c => c.der = der && c.isCa && c.exts.pathLen = pathLen

def upperDer : List UInt8 := certificate 1 2 [0x01, 1, 0xff, 0x02, 1, 0]

def chainDer : List (List UInt8) :=
  [certificate 3 4 [], certificate 2 3 [0x01, 1, 0xff], upperDer]

/-- One CA is below a certificate that allows one, and the root is sent too. -/
def rootedDer : List (List UInt8) :=
  chainDer.take 2 ++ [certificate 1 2 [0x01, 1, 0xff, 0x02, 1, 1], rootDer]

theorem validate_examples :
    (validateChain (fun _ _ => true) (fun _ _ => true) [rootDer] chainDer 1700000000).run =
        .ok (.ok ()) ∧
      (parseAll chainDer).run.map (·.map (endsWith upperDer (some 0) 1)) = .ok (.ok true) ∧
      (validateChain (fun _ _ => true) (fun _ _ => true) [rootDer] rootedDer 1700000000).run =
        .ok (.ok ()) ∧
      (parseAll rootedDer).run.map (·.map (endsWith rootDer none 2)) = .ok (.ok true) ∧
      upperDer ≠ rootDer := by
  decide +kernel

theorem exists_of_endsWith {der : List UInt8} {pathLen : Option ℕ} {n : ℕ}
    (hend : (parseAll chain).run.map (·.map (endsWith der pathLen n)) = .ok (.ok true)) :
    ∃ certs, parseAll chain = pure certs ∧ below certs (certs.length-1) = n ∧
      ∃ last, certs.getLast? = some last ∧ last.der = der ∧ last.isCa = true ∧
        last.exts.pathLen = pathLen := by
  rcases hparse : parseAll chain with fault | e | certs <;> rw [hparse] at hend
  · cases hend
  · cases hend
  · have htrue : endsWith der pathLen n certs = true := Except.ok.inj (Except.ok.inj hend)
    simp only [endsWith,Bool.and_eq_true,decide_eq_true_eq,Option.any_eq_true] at htrue
    obtain ⟨hbelow,last,hget,⟨hder,hca⟩,hpathLen⟩ := htrue
    exact ⟨certs,rfl,hbelow,last,hget,hder,hca,hpathLen⟩

theorem chain_sound_rooted :
    validateChain (fun _ _ => true) (fun _ _ => true) [rootDer] rootedDer 1700000000 = pure () ∧
      ∃ certs, parseAll rootedDer = pure certs ∧ below certs (certs.length - 1) = 2 ∧
        Sound (fun _ _ => true) [rootDer] certs 1700000000 := by
  obtain ⟨-,-,hok,hend,-⟩ := validate_examples
  obtain ⟨certs,hparse,hbelow,last,hget,hder,-,-⟩ := exists_of_endsWith hend
  refine ⟨hok,certs,hparse,hbelow,?_⟩
  refine (chain_sound_iff _ _ _ _ _ certs hparse hok).2 fun last' hget' hnot => absurd ?_ hnot
  rw [hget] at hget'
  rw [← Option.some.inj hget',hder]
  exact mem_singleton_self rootDer

/-- The chain is accepted though one CA lies below a certificate that allows none. -/
theorem chain_exceeds_path_length :
    validateChain (fun _ _ => true) (fun _ _ => true) [rootDer] chainDer 1700000000 = pure () ∧
      ∃ certs, parseAll chainDer = pure certs ∧
        ¬ Sound (fun _ _ => true) [rootDer] certs 1700000000 := by
  obtain ⟨hok,hend,-,-,hne⟩ := validate_examples
  obtain ⟨certs,hparse,hbelow,last,hget,hder,hca,hpathLen⟩ := exists_of_endsWith hend
  refine ⟨hok,certs,hparse,fun hsound => ?_⟩
  rw [getLast?_eq_getElem?] at hget
  have hnot : ¬ (certs.length-1+1 = certs.length ∧ last.der ∈ [rootDer]) := by
    rw [hder,mem_singleton]
    exact fun h => hne h.2
  have hle := hsound.pathLen _ last hget hca hnot 0 hpathLen
  omega

end Courierust.Tls
