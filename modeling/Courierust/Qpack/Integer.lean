import Mathlib.Data.List.TakeWhile
import Mathlib.Data.Nat.Digits.Lemmas
import Courierust.Qpack.Codec

/-!
# Prefix integers

What `read_int` of HPACK and `decode_integer` of QPACK make of any octets, against the value of
RFC 7541 §5.1. Both shift with `checked_shl`, which fails for a shift of 64 or more but drops the
bits that a smaller shift moves out: the tenth continuation octet is shifted by 63.
-/

namespace Courierust

open List

variable {bits n : ℕ} {rest : List UInt8}

namespace Qpack

/-! ### The value of an encoding -/

def continued (b : UInt8) : Bool := b &&& 0x80 != 0

/-- The sum of `(b mod 128) * 128 ^ i`. -/
def groupValue (group : List UInt8) : ℕ := Nat.ofDigits 128 (group.map fun b => b.toNat % 128)

def rfcInt (n bits : ℕ) (input : List UInt8) : Option (ℕ × List UInt8) :=
  if bits < 2 ^ n - 1 then some (bits, input)
  else
    match input.dropWhile continued with
    | [] => none
    | last :: rest => some (bits + groupValue (input.takeWhile continued ++ [last]), rest)

/-- A result is the integer, and there is none for an integer that does not fit 64 bits. -/
structure ExactInt (result : Except Error (ℕ × List UInt8)) (spec : Option (ℕ × List UInt8)) :
    Prop where
  value : ∀ v rest, result = .ok (v, rest) → spec = some (v, rest)
  fits : ∀ v rest, spec = some (v, rest) → u64Max < v → ∃ e, result = .error e

/-- The encoding has ten octets after the first, the last of them holds more than one bit, and the
sum without the bits that are shifted out is no overflow. -/
def Lossy (bits : ℕ) (input : List UInt8) : Prop :=
  ∃ group last rest, input = group ++ last :: rest ∧ group.length = 9 ∧
    (∀ b ∈ group, continued b = true) ∧ 2 ≤ last.toNat ∧ last.toNat < 128 ∧
    bits + groupValue group + last.toNat % 2 * 2 ^ 63 ≤ u64Max

theorem continued_iff (b : UInt8) : continued b = false ↔ b.toNat < 128 := by
  have hb : b.toNat < 256 := b.toNat_lt
  rw [continued,bne_eq_false_iff_eq,← UInt8.toNat_inj,UInt8.toNat_and,
    show (0x80 : UInt8).toNat = 2^7 from rfl,Nat.and_two_pow,Nat.testBit_eq_decide_div_mod_eq]
  by_cases hbit : b.toNat/2^7%2 = 1
  · rw [decide_eq_true hbit]
    exact iff_of_false (by decide) (by omega)
  · rw [decide_eq_false hbit]
    exact iff_of_true rfl (by omega)

theorem rfcInt_append (hbits : ¬ bits < 2^n-1) {group : List UInt8}
    {last : UInt8} (hgroup : ∀ b ∈ group, continued b = true) (hlast : continued last = false) :
    rfcInt n bits (group ++ last :: rest) =
      some (bits+groupValue group+128^group.length*(last.toNat%128),rest) := by
  have htake : (group ++ last :: rest).takeWhile continued = group := by
    rw [takeWhile_append_of_pos hgroup,takeWhile_cons_of_neg (by simp [hlast]),
      append_nil]
  have hdrop : (group ++ last :: rest).dropWhile continued = last :: rest := by
    rw [dropWhile_append_of_pos hgroup,dropWhile_cons_of_neg (by simp [hlast])]
  rw [rfcInt,if_neg hbits,htake,hdrop]
  dsimp only
  rw [groupValue,map_append,Nat.ofDigits_append,length_map,Nat.add_assoc]
  simp [groupValue]

/-! ### The loops -/

end Qpack

variable {input : List UInt8} {v : ℕ}

namespace PrefixLoop

open Qpack

variable {eof : Error} {loop : List UInt8 → ℕ → ℕ → Except Error (ℕ × List UInt8)}
  (h : PrefixLoop eof loop)
include h

theorem group {group : List UInt8} (input : List UInt8) {i : ℕ}
    (hcont : ∀ b ∈ group, continued b = true) (hlen : i+group.length ≤ 9) {low : ℕ}
    (hlow : low < 128^i) (hbits : bits < 256) :
    loop (group ++ input) (7*i) (bits+low) =
      loop input (7*(i+group.length)) (bits+(low+128^i*groupValue group)) := by
  induction group generalizing i low with
  | nil => simp [groupValue]
  | cons b group ih =>
    rw [length_cons] at hlen
    have hpow : 128^(i+1) ≤ 128^9 := Nat.pow_le_pow_right (by decide) (by omega)
    have hshift : (2 : ℕ)^(7*i) = 128^i := by rw [pow_mul]; rfl
    have hdigit : b.toNat%128*128^i ≤ 127*128^i :=
      Nat.mul_le_mul_right _ (by omega)
    have hnext : low+128^i*(b.toNat%128) < 128^(i+1) := by
      rw [pow_succ,Nat.mul_comm (128^i) (b.toNat%128)]
      omega
    have hpart : (b.toNat%128*2^(7*i))%2^64 = b.toNat%128*128^i := by
      rw [hshift]
      refine Nat.mod_eq_of_lt ?_
      rw [pow_succ] at hpow
      omega
    rw [cons_append,h.more b _ _ _ (by omega) (hcont b mem_cons_self)
      (by rw [hpart,u64Max]; rw [pow_succ] at hpow; omega),hpart,
      show 7*i+7 = 7*(i+1) by omega,Nat.add_assoc,Nat.mul_comm (b.toNat%128),
      ih (fun c hc => hcont c (mem_cons_of_mem b hc)) (by omega) hnext]
    have hvalue : low+128^i*groupValue (b :: group) =
        low+128^i*(b.toNat%128)+128^(i+1)*groupValue group := by
      rw [groupValue,groupValue,map_cons,Nat.ofDigits_cons,pow_succ]
      ring
    rw [hvalue,length_cons,Nat.add_assoc i 1,Nat.add_comm 1]

theorem group_zero {group : List UInt8} (input : List UInt8)
    (hcont : ∀ b ∈ group, continued b = true) (hlen : group.length ≤ 9) (hbits : bits < 256) :
    loop (group ++ input) 0 bits = loop input (7*group.length) (bits+groupValue group) := by
  have hrun := h.group input hcont (by omega) (show 0 < 128^0 by decide) hbits
  simpa using hrun

theorem eq_of_lossy (hbits : bits < 256) (hfull : ¬ bits < 2^n-1) (hlossy : Lossy bits input) :
    ∃ v k rest, loop input 0 bits = .ok (v,rest) ∧ v ≤ u64Max ∧ 0 < k ∧
      rfcInt n bits input = some (v+2^64*k,rest) := by
  obtain ⟨group,last,rest,rfl,hlen,hcont,hlow,hhigh,hle⟩ := hlossy
  have hmod : last.toNat%128 = last.toNat := Nat.mod_eq_of_lt hhigh
  have hpart : (last.toNat%128*2^(7*group.length))%2^64 = last.toNat%2*2^63 := by
    rw [hlen,hmod]
    omega
  refine ⟨bits+groupValue group+(last.toNat%128*2^(7*group.length))%2^64,
    last.toNat/2,rest,?_,by rw [hpart]; exact hle,by omega,?_⟩
  · rw [h.group_zero _ hcont (by omega) hbits,
      h.last last rest _ _ (by omega) ((continued_iff last).2 hhigh) (by rw [hpart]; exact hle)]
  · rw [rfcInt_append hfull hcont ((continued_iff last).2 hhigh),hpart,hmod,hlen]
    congr 2
    omega

theorem eq_of_not_lossy
    (hbits : bits < 256) (hfull : ¬ bits < 2^n-1) (hlossy : ¬ Lossy bits input)
    (hok : loop input 0 bits = .ok (v,rest)) :
    rfcInt n bits input = some (v,rest) ∧ v ≤ u64Max := by
  have hsplit : input.takeWhile continued ++ input.dropWhile continued = input :=
    takeWhile_append_dropWhile
  have hcont : ∀ b ∈ input.takeWhile continued, continued b = true := fun b hb =>
    mem_takeWhile_imp hb
  generalize input.takeWhile continued = group at hsplit hcont
  have hnot := head?_dropWhile_not continued input
  generalize input.dropWhile continued = tail at hsplit hnot
  subst hsplit
  by_cases hlen : group.length ≤ 9
  · rw [h.group_zero _ hcont hlen hbits] at hok
    cases tail with
    | nil =>
      rw [h.nil] at hok
      cases hok
    | cons last tail =>
      have hlast : continued last = false := hnot
      have hhigh := (continued_iff last).1 hlast
      have hmod : last.toNat%128 = last.toNat := Nat.mod_eq_of_lt hhigh
      by_cases hover : bits+groupValue group+(last.toNat%128*2^(7*group.length))%2^64
          ≤ u64Max
      · rw [h.last last tail _ _ (by omega) hlast hover] at hok
        obtain ⟨rfl,rfl⟩ := Prod.mk.inj (Except.ok.inj hok)
        refine ⟨?_,hover⟩
        have hpart : (last.toNat%128*2^(7*group.length))%2^64 =
            128^group.length*(last.toNat%128) := by
          rw [pow_mul,show (2 : ℕ)^7 = 128 by decide,Nat.mul_comm]
          refine Nat.mod_eq_of_lt ?_
          by_cases hnine : group.length = 9
          · have hsmall : last.toNat < 2 := by
              by_contra hbig
              refine hlossy ⟨group,last,tail,rfl,hnine,hcont,by omega,hhigh,?_⟩
              rw [hnine,hmod] at hover
              omega
            rw [hnine,hmod]
            omega
          · have hpow : 128^group.length ≤ 128^8 := Nat.pow_le_pow_right (by decide) (by omega)
            have hmul : 128^group.length*(last.toNat%128) ≤ 128^8*127 :=
              Nat.mul_le_mul hpow (by omega)
            omega
        rw [rfcInt_append hfull hcont hlast,hpart]
      · obtain ⟨e,he⟩ := h.overflow last tail (7*group.length) (bits+groupValue group)
          (by omega) (not_le.1 hover)
        rw [he] at hok
        cases hok
  · -- the tenth octet is continued: its shift is the last one
    obtain ⟨b,more,hmore⟩ : ∃ b more, group.drop 9 = b :: more := by
      cases hdrop : group.drop 9 with
      | nil => exact absurd (drop_eq_nil_iff.1 hdrop) (by omega)
      | cons b more => exact ⟨b,more,rfl⟩
    have hb : continued b = true := hcont b (mem_of_mem_drop (hmore ▸ mem_cons_self))
    have hnine : (group.take 9).length = 9 := by rw [length_take]; omega
    rw [← take_append_drop 9 group,append_assoc,hmore,cons_append,
      h.group_zero _ (fun c hc => hcont c (mem_of_mem_take hc)) (by omega) hbits,hnine] at hok
    obtain ⟨e,he⟩ := h.tooLong b (more ++ tail) (7*9) (bits+groupValue (group.take 9))
      (by decide) (by decide) hb
    rw [he] at hok
    cases hok

theorem exact_iff (n : ℕ) (hbits : bits < 256) (input : List UInt8) :
    ExactInt (if bits < 2^n-1 then .ok (bits,input) else loop input 0 bits)
      (rfcInt n bits input) ↔ ¬ (2^n-1 ≤ bits ∧ Lossy bits input) := by
  split_ifs with hfull
  · rw [rfcInt,if_pos hfull]
    refine iff_of_true ⟨?_,?_⟩ fun hlossy => absurd hfull (not_lt.2 hlossy.1)
    · intro v rest hok
      rw [Except.ok.inj hok]
    · intro v rest hspec hlarge
      cases hspec
      rw [u64Max] at hlarge
      omega
  constructor
  · rintro hexact ⟨-,hlossy⟩
    obtain ⟨v,k,rest,hok,-,hk,hspec⟩ := h.eq_of_lossy hbits hfull hlossy
    rw [hexact.value v rest hok] at hspec
    have hvalue := (Prod.mk.inj (Option.some.inj hspec)).1
    omega
  · intro hnot
    have hlossy : ¬ Lossy bits input := fun hlossy => hnot ⟨not_lt.1 hfull,hlossy⟩
    refine ⟨fun v rest hok => (h.eq_of_not_lossy hbits hfull hlossy hok).1,?_⟩
    intro v rest hspec hlarge
    cases hresult : loop input 0 bits with
    | error e => exact ⟨e,rfl⟩
    | ok result =>
      obtain ⟨hvalue,hle⟩ := h.eq_of_not_lossy hbits hfull hlossy hresult
      rw [hspec] at hvalue
      obtain ⟨rfl,-⟩ := Prod.mk.inj (Option.some.inj hvalue)
      omega

end PrefixLoop

namespace Qpack

/-! ### The decoders -/

def prefixOf (n : ℕ) (first : UInt8) : UInt8 := first &&& UInt8.ofNat (2 ^ n - 1)

def wireInt (n : ℕ) : List UInt8 → Option (ℕ × List UInt8)
  | [] => none
  | first :: input => rfcInt n (prefixOf n first).toNat input

/-- What `decode_integer` returns is the integer on the wire, or its low 64 bits. -/
theorem wireInt_of_decodeInteger (hn : 1 ≤ n ∧ n ≤ 8) {buf : List UInt8}
    (h : decodeInteger n buf = .ok (v,rest)) :
    v ≤ u64Max ∧ ∃ k, wireInt n buf = some (v+2^64*k,rest) := by
  cases buf with
  | nil =>
    rw [decodeInteger,if_neg (by omega)] at h
    cases h
  | cons first input =>
    have hbits : (prefixOf n first).toNat < 256 := (prefixOf n first).toNat_lt
    rw [decodeInteger_cons hn] at h
    split_ifs at h with hsmall
    · cases h
      exact ⟨hbits.le.trans (by decide),0,if_pos hsmall⟩
    by_cases hlossy : Lossy (prefixOf n first).toNat input
    · obtain ⟨w,k,more,hok,hle,-,hspec⟩ :=
        prefixLoop_decodeIntegerFrom.eq_of_lossy hbits hsmall hlossy
      cases h.symm.trans hok
      exact ⟨hle,k,hspec⟩
    · obtain ⟨hspec,hle⟩ := prefixLoop_decodeIntegerFrom.eq_of_not_lossy hbits hsmall hlossy h
      exact ⟨hle,0,hspec⟩

/-- What the decoders of HPACK and QPACK are to do with the integer at the start of `first` and
`input`, and with one that was written. -/
structure PrefixInt (n : ℕ) (first : UInt8) (input : List UInt8) : Prop where
  hpack : ExactInt (Hpack.readInt n (prefixOf n first) input)
    (rfcInt n (prefixOf n first).toNat input)
  qpack : ExactInt (decodeInteger n (first :: input)) (rfcInt n (prefixOf n first).toNat input)
  written : ∀ value ≤ u64Max, ∀ flags : UInt8, flags.toNat % 2 ^ n = 0 → ∀ rest, ∃ octet tail,
    Hpack.writeInt flags n value = octet :: tail ∧
      Hpack.readInt n (prefixOf n octet) (tail ++ rest) = .ok (value, rest) ∧
      encodeInteger value n flags = octet :: tail ∧
      decodeInteger n (octet :: (tail ++ rest)) = .ok (value, rest)

/-- The integers of both decoders are exact unless bits of a tenth octet are shifted out. -/
theorem prefixInt_exact_iff (n : ℕ) (hn : 1 ≤ n ∧ n ≤ 8) (first : UInt8) (input : List UInt8) :
    PrefixInt n first input ↔
      ¬ (2 ^ n - 1 ≤ (prefixOf n first).toNat ∧ Lossy (prefixOf n first).toNat input) := by
  have hbits : (prefixOf n first).toNat < 256 := (prefixOf n first).toNat_lt
  have hpack := Hpack.prefixLoop_readIntFrom.exact_iff n hbits input
  have hqpack := prefixLoop_decodeIntegerFrom.exact_iff n hbits input
  rw [prefixOf,← decodeInteger_cons hn] at hqpack
  constructor
  · intro h
    exact hpack.1 h.hpack
  · intro h
    refine ⟨hpack.2 h,hqpack.2 h,?_⟩
    intro value hvalue flags hclear rest
    have hfirst := prefix_of_first hn.2 hclear (min_le_right value (2^n-1))
    refine ⟨_,_,Hpack.writeInt_eq flags n value,Hpack.readInt_intTail hvalue hfirst rest,
      encodeInteger_eq value n flags,?_⟩
    have hread := (reads_encodeInteger value n flags hn hclear hvalue).whole rest
    rwa [encodeInteger_eq,cons_append] at hread

/-- 1337, in two octets after the first. -/
theorem prefixInt_exact_long : PrefixInt 5 0x1f [0x9a, 0x0a] := by
  refine (prefixInt_exact_iff 5 (by decide) 0x1f [0x9a,0x0a]).2 ?_
  rintro ⟨-,group,last,rest,hinput,hgroup,-⟩
  have hlength := congrArg List.length hinput
  simp [hgroup] at hlength
  omega

/-- `255 + 2 ^ 64`, in ten octets after the first, is read as 255 by both decoders. -/
theorem prefixInt_drops_bit :
    Hpack.readInt 8 0xff (List.replicate 9 0x80 ++ [0x02]) = .ok (255, []) ∧
      decodeInteger 8 (0xff :: (List.replicate 9 0x80 ++ [0x02])) = .ok (255, []) ∧
      rfcInt 8 255 (List.replicate 9 0x80 ++ [0x02]) = some (255 + 2 ^ 64, []) ∧
      ¬ PrefixInt 8 0xff (List.replicate 9 0x80 ++ [0x02]) := by
  refine ⟨by decide,by decide,by decide,fun h => ?_⟩
  exact absurd (h.hpack.value 255 [] (by decide)) (by decide)

end Qpack

end Courierust
