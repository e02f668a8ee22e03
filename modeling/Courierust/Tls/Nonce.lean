import Courierust.Tls.Certificate

/-!
# Deterministic nonces

Model of `rfc6979_nonce` of `courierust_tls::crypto::ecdsa` over an arbitrary HMAC, and beside it
the candidates of RFC 6979 §3.2. A `BigInt` and the limbs of the result are the numbers they
stand for.
-/

namespace Courierust.Tls

open BigEndian

namespace Curve

def coordLen : Curve → ℕ
  | p256 => 32
  | p384 => 48
  | p521 => 66

/-- `output_len` of the curve's hash. -/
def hashLen : Curve → ℕ
  | p256 => 32
  | p384 => 48
  | p521 => 64

/-- The `K` of the curve's `CurveSpec`. -/
def limbs : Curve → ℕ
  | p256 => 4
  | p384 => 6
  | p521 => 9

def n : Curve → ℕ
  | p256 => 0xffffffff00000000ffffffffffffffffbce6faada7179e84f3b9cac2fc632551
  | p384 => 0xffffffffffffffffffffffffffffffffffffffffffffffffc7634d81f4372ddf581a0db248b0a77aecec196accc52973
  | p521 => 0x01fffffffffffffffffffffffffffffffffffffffffffffffffffffffffffffffffa * 2 ^ 256 +
    0x51868783bf2f966b7fcc0148f709a5d03bb5c9b8899c47aebb6fb71e91386409

end Curve

/-- A keyed function with octet strings of a fixed length as its values. -/
structure Hmac (len : ℕ) where
  run : List UInt8 → List UInt8 → List UInt8
  length_run : ∀ key data, (run key data).length = len

/-- The variables `k` and `v`. -/
structure Generator where
  k : List UInt8
  v : List UInt8

variable {len : ℕ} (hmac : Hmac len) (curve : Curve) (d digest : List UInt8) (g : Generator)

/-- `k = hmac(k, v || tail)`, then `v = hmac(k, v)`. -/
def Generator.rekey (tail : List UInt8) : Generator :=
  let k := hmac.run g.k (g.v ++ tail)
  ⟨k, hmac.run k g.v⟩

/-- `be_to_le_limbs`: the low octets that fit the limbs. -/
def beToLeLimbs (bytes : List UInt8) : ℕ := beNat bytes % (2 ^ 64) ^ curve.limbs

def seed : Generator :=
  let e := beBytes curve.coordLen (beNat digest % curve.n)
  let start : Generator := ⟨List.replicate curve.hashLen 0, List.replicate curve.hashLen 1⟩
  (start.rekey hmac (0 :: d ++ e)).rekey hmac (1 :: d ++ e)

def searchNonce : ℕ → Generator → Option ℕ
  | 0, _ => none
  | rounds + 1, g =>
    let v := hmac.run g.k g.v
    let cand := beNat v
    if 1 ≤ cand ∧ cand < curve.n then some (beToLeLimbs curve (beBytes curve.coordLen cand))
    else searchNonce rounds (Generator.rekey hmac ⟨g.k, v⟩ [0])

def rfc6979Nonce : Option ℕ := searchNonce hmac curve 1024 (seed hmac curve d digest)

/-! ### The candidates of the RFC -/

namespace Rfc6979

def qlen : ℕ := Nat.log2 curve.n + 1

def rolen : ℕ := (qlen curve + 7) / 8

/-- The leftmost `qlen` bits. -/
def bits2int (octets : List UInt8) : ℕ := beNat octets >>> (8 * octets.length - qlen curve)

/-- `bits2octets(h1)`, behind `int2octets(x)`. -/
def material : List UInt8 :=
  beBytes (rolen curve) (beNat d) ++ beBytes (rolen curve) (bits2int curve digest % curve.n)

/-- Step h.2: `count` outputs in a row, and the last `v`. -/
def outputs : ℕ → Generator → List UInt8 × Generator
  | 0, g => ([], g)
  | count + 1, g =>
    let v := hmac.run g.k g.v
    let rest := outputs count ⟨g.k, v⟩
    (v ++ rest.1, rest.2)

/-- As many outputs as it takes to have `qlen` bits. -/
def fill : List UInt8 × Generator := outputs hmac ((qlen curve + 8 * len - 1) / (8 * len)) g

def candidate : ℕ → Generator → ℕ
  | 0, g => bits2int curve (fill hmac curve g).1
  | i + 1, g => candidate i ((fill hmac curve g).2.rekey hmac [0])

def start : Generator :=
  let start : Generator := ⟨List.replicate len 0, List.replicate len 1⟩
  (start.rekey hmac (0 :: material curve d digest)).rekey hmac (1 :: material curve d digest)

abbrev Valid (k : ℕ) : Prop := 1 ≤ k ∧ k < curve.n

/-- The first candidate of the chain that is in range. -/
def First (i : ℕ) : Prop :=
  Valid curve (candidate hmac curve i g) ∧ ∀ j < i, ¬ Valid curve (candidate hmac curve j g)

end Rfc6979

open Rfc6979

/-- The nonce is the first candidate of the RFC that is in range. -/
def StandardNonce : Prop :=
  ∃ i, First hmac curve (start hmac curve d digest) i ∧
    rfc6979Nonce hmac curve d digest = some (candidate hmac curve i (start hmac curve d digest))

/-! ### One output for each candidate -/

variable {curve}

theorem qlen_eq (h : curve ≠ .p521) : qlen curve = 8*curve.hashLen ∧
    rolen curve = curve.coordLen ∧
      (qlen curve+8*curve.hashLen-1)/(8*curve.hashLen) = 1 := by
  cases curve with
  | p256 | p384 => decide
  | p521 => exact absurd rfl h

theorem beToLeLimbs_beBytes {k : ℕ} (h : k < curve.n) :
    beToLeLimbs curve (beBytes curve.coordLen k) = k := by
  have hn : curve.n < 256^curve.coordLen ∧ curve.n < (2^64)^curve.limbs := by
    cases curve <;> decide
  rw [beToLeLimbs,beNat_beBytes (h.trans hn.1),Nat.mod_eq_of_lt (h.trans hn.2)]

section

variable {hmac : Hmac curve.hashLen} {g} (h : curve ≠ .p521)
include h

theorem fill_eq :
    fill hmac curve g = (hmac.run g.k g.v,⟨g.k,hmac.run g.k g.v⟩) := by
  simp only [fill,(qlen_eq h).2.2,outputs,List.append_nil]

theorem bits2int_eq {octets : List UInt8} (hlen : octets.length = curve.hashLen) :
    bits2int curve octets = beNat octets := by
  rw [bits2int,(qlen_eq h).1,hlen,Nat.sub_self,Nat.shiftRight_zero]

theorem start_eq_seed (hd : d.length = curve.coordLen)
    (hdigest : digest.length = curve.hashLen) :
    start hmac curve d digest = seed hmac curve d digest := by
  have hmaterial : material curve d digest = d ++ beBytes curve.coordLen (beNat digest%curve.n) := by
    rw [material,(qlen_eq h).2.1,bits2int_eq h hdigest,← hd,beBytes_beNat]
  rw [start,seed,hmaterial]
  rfl

theorem candidate_zero :
    candidate hmac curve 0 g = beNat (hmac.run g.k g.v) := by
  rw [candidate,fill_eq h,bits2int_eq h (hmac.length_run _ _)]

theorem candidate_succ (i : ℕ) : candidate hmac curve (i+1) g =
    candidate hmac curve i (Generator.rekey hmac ⟨g.k,hmac.run g.k g.v⟩ [0]) := by
  rw [candidate,fill_eq h]

theorem searchNonce_first {i rounds : ℕ} (hi : i ≤ rounds)
    (hfirst : First hmac curve g i) :
    searchNonce hmac curve (rounds+1) g = some (candidate hmac curve i g) := by
  induction i generalizing g rounds with
  | zero =>
    have hvalid := hfirst.1
    rw [candidate_zero h] at hvalid ⊢
    rw [searchNonce,if_pos hvalid,beToLeLimbs_beBytes hvalid.2]
  | succ i ih =>
    obtain ⟨rounds,rfl⟩ := Nat.exists_eq_add_of_le' (i.succ_pos.trans_le hi)
    have hskip := hfirst.2 0 i.succ_pos
    rw [candidate_zero h] at hskip
    rw [searchNonce,if_neg hskip,candidate_succ h]
    refine ih (Nat.le_of_succ_le_succ hi) ⟨candidate_succ h i ▸ hfirst.1,fun j hj => ?_⟩
    exact candidate_succ h j ▸ hfirst.2 (j+1) (Nat.succ_lt_succ hj)

theorem searchNonce_none {rounds : ℕ}
    (hnone : ∀ i < rounds, ¬ Valid curve (candidate hmac curve i g)) :
    searchNonce hmac curve rounds g = none := by
  induction rounds generalizing g with
  | zero => rfl
  | succ rounds ih =>
    have hskip := hnone 0 rounds.succ_pos
    rw [candidate_zero h] at hskip
    rw [searchNonce,if_neg hskip]
    exact ih fun i hi => candidate_succ h i ▸ hnone (i+1) (Nat.succ_lt_succ hi)

theorem standardNonce_iff (hd : d.length = curve.coordLen)
    (hdigest : digest.length = curve.hashLen) :
    StandardNonce hmac curve d digest ↔
      ∃ i < 1024, Valid curve (candidate hmac curve i (start hmac curve d digest)) := by
  rw [StandardNonce,rfc6979Nonce,← start_eq_seed d digest h hd hdigest]
  generalize start hmac curve d digest = g
  constructor
  · rintro ⟨i,-,hsome⟩
    by_contra hnone
    rw [searchNonce_none h fun i hi hvalid => hnone ⟨i,hi,hvalid⟩] at hsome
    cases hsome
  · classical
    intro hvalid
    have hfirst : First hmac curve g (Nat.find hvalid) :=
      ⟨(Nat.find_spec hvalid).2,fun j hj hj' =>
        Nat.find_min hvalid hj ⟨hj.trans (Nat.find_spec hvalid).1,hj'⟩⟩
    exact ⟨_,hfirst,searchNonce_first h (Nat.le_of_lt_succ (Nat.find_spec hvalid).1) hfirst⟩

end

/-! ### P-521 -/

/-- A function whose value is the number one, whatever it is given. -/
def constantOne : Hmac Curve.p521.hashLen where
  run := fun _ _ => beBytes 64 1
  length_run := fun _ _ => length_beBytes 64 1

set_option maxRecDepth 2000 in
theorem candidate_constantOne (i : ℕ) (g : Generator) : candidate constantOne .p521 i g = 512 := by
  induction i generalizing g with
  | zero =>
    change bits2int .p521 (beBytes 64 1 ++ (beBytes 64 1 ++ [])) = 512
    decide
  | succ i ih => exact ih _

theorem valid_small {k : ℕ} (h : 1 ≤ k ∧ k ≤ 512) : Valid .p521 k :=
  ⟨h.1,h.2.trans_lt (by norm_num [Curve.n])⟩

theorem rfc6979Nonce_constantOne : rfc6979Nonce constantOne .p521 d digest = some 1 := by
  have hone : beNat (beBytes 64 1) = 1 := beNat_beBytes (by norm_num)
  have hvalid := valid_small (k := 1) (by decide)
  rw [rfc6979Nonce,searchNonce]
  change (if Valid .p521 (beNat (beBytes 64 1)) then
    some (beToLeLimbs .p521 (beBytes 66 (beNat (beBytes 64 1)))) else _) = _
  rw [hone,if_pos hvalid]
  exact congrArg some (beToLeLimbs_beBytes hvalid.2)

/-- One output has 512 bits and the order of P-521 has 521: where the RFC takes two outputs,
    the code takes the number of one. -/
theorem nonce_nonstandard_p521 :
    First constantOne .p521 (start constantOne .p521 (beBytes 66 1) (beBytes 64 0)) 0 ∧
      ¬ StandardNonce constantOne .p521 (beBytes 66 1) (beBytes 64 0) := by
  rw [StandardNonce,rfc6979Nonce_constantOne,First]
  simp only [candidate_constantOne]
  refine ⟨⟨valid_small (by decide),fun j hj => absurd hj j.not_lt_zero⟩,?_⟩
  rintro ⟨i,-,hsome⟩
  cases hsome

/-- The nonce is the standard one, when a candidate is found, on every curve but P-521. -/
theorem nonce_standard_iff (curve : Curve) :
    (∀ (hmac : Hmac curve.hashLen) (d digest : List UInt8), d.length = curve.coordLen →
      Valid curve (beNat d) → digest.length = curve.hashLen →
      (StandardNonce hmac curve d digest ↔
        ∃ i < 1024, Valid curve (candidate hmac curve i (start hmac curve d digest)))) ↔
      curve ≠ .p521 := by
  constructor
  · rintro h rfl
    have hone : Valid .p521 (beNat (beBytes 66 1)) := by
      rw [beNat_beBytes (by norm_num)]
      exact valid_small (by decide)
    obtain ⟨i,-,hsome⟩ := (h constantOne (beBytes 66 1) (beBytes 64 0) rfl hone rfl).2
      ⟨0,by decide,by rw [candidate_constantOne]; exact valid_small (by decide)⟩
    rw [rfc6979Nonce_constantOne,candidate_constantOne] at hsome
    cases hsome
  · intro h hmac d digest hd _ hdigest
    exact standardNonce_iff d digest h hd hdigest

end Courierust.Tls
