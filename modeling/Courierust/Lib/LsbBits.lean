import Mathlib.Data.List.Basic
import Mathlib.Tactic

/-!
# Bit strings, least significant bit first

The counterpart of `MsbBits` for formats that fill octets from the low end. An accumulator
of bits that grows at its high end and is used up at its low end becomes a list that is
appended to and dropped from.
-/

namespace LsbBits

open List

/-- The low `w` bits of `v`, least significant first. -/
def bits : ℕ → ℕ → List Bool
  | 0, _ => []
  | w + 1, v => v.testBit 0 :: bits w (v / 2)

def value : List Bool → ℕ
  | [] => 0
  | b :: bs => b.toNat + 2 * value bs

def stream (data : List UInt8) : List Bool := data.flatMap fun b => bits 8 b.toNat

@[simp] theorem length_bits (w v : ℕ) : (bits w v).length = w := by
  induction w generalizing v with
  | zero => rfl
  | succ w ih => simp [bits,ih]

theorem getElem?_bits {w v i : ℕ} (h : i < w) : (bits w v)[i]? = some (v.testBit i) := by
  induction w generalizing v i with
  | zero => omega
  | succ w ih =>
    cases i with
    | zero => rfl
    | succ i =>
      rw [bits,getElem?_cons_succ,ih (by omega),Nat.testBit_succ]

theorem bits_congr {w v u : ℕ} (h : ∀ i < w, v.testBit i = u.testBit i) : bits w v = bits w u := by
  refine ext_getElem? fun i => ?_
  by_cases hi : i < w
  · rw [getElem?_bits hi,getElem?_bits hi,h i hi]
  · rw [getElem?_eq_none (by simpa using hi),getElem?_eq_none (by simpa using hi)]

theorem bits_mod {w k v : ℕ} (h : w ≤ k) : bits w (v%2^k) = bits w v := by
  refine bits_congr fun i hi => ?_
  simp [show i < k by omega]

theorem bits_zero_right (w : ℕ) : bits w 0 = List.replicate w false := by
  induction w with
  | zero => rfl
  | succ w ih => rw [bits,Nat.zero_div,ih,Nat.zero_testBit,replicate_succ]

theorem bits_add (a b v : ℕ) : bits (a+b) v = bits a v ++ bits b (v >>> a) := by
  induction a generalizing v with
  | zero => simp [bits]
  | succ a ih =>
    rw [show a+1+b = (a+b)+1 by omega,bits,bits,ih,Nat.shiftRight_succ_inside,
      cons_append]

theorem bits_or_shiftLeft {w k v u : ℕ} (hv : v < 2^w) :
    bits (w+k) (v ||| (u <<< w)) = bits w v ++ bits k u := by
  rw [bits_add]
  congr 1
  · refine bits_congr fun i hi => ?_
    simp [show ¬ w ≤ i by omega]
  · refine bits_congr fun i _ => ?_
    have hpow : 2^w ≤ 2^(w+i) := Nat.pow_le_pow_right (by omega) (by omega)
    have hzero : v.testBit (w+i) = false := Nat.testBit_lt_two_pow (by omega)
    simp [hzero]

theorem bits_shiftRight {w k : ℕ} (v : ℕ) (h : k ≤ w) :
    bits (w-k) (v >>> k) = (bits w v).drop k := by
  obtain ⟨n,rfl⟩ := Nat.exists_eq_add_of_le h
  rw [bits_add,drop_left' (by simp),Nat.add_sub_cancel_left]

theorem take_bits {w k : ℕ} (v : ℕ) (h : k ≤ w) : (bits w v).take k = bits k v := by
  obtain ⟨n,rfl⟩ := Nat.exists_eq_add_of_le h
  rw [bits_add,take_left' (by simp)]

theorem value_lt (bs : List Bool) : value bs < 2^bs.length := by
  induction bs with
  | nil => simp [value]
  | cons b bs ih =>
    rw [value,length_cons,Nat.pow_succ]
    have hb := b.toNat_le
    omega

theorem value_bits_mod (w v : ℕ) : value (bits w v) = v%2^w := by
  induction w generalizing v with
  | zero => simp [bits,value,Nat.mod_one]
  | succ w ih =>
    have hlow : (v.testBit 0).toNat = v%2 := by
      rcases Nat.mod_two_eq_zero_or_one v with h | h <;> simp [h]
    rw [bits,value,ih,hlow,Nat.pow_succ']
    exact (Nat.mod_mul).symm

theorem value_bits {w v : ℕ} (h : v < 2^w) : value (bits w v) = v := by
  rw [value_bits_mod,Nat.mod_eq_of_lt h]

theorem bits_value (bs : List Bool) : bits bs.length (value bs) = bs := by
  induction bs with
  | nil => rfl
  | cons b bs ih =>
    have hlow : (b.toNat+2*value bs).testBit 0 = b := by
      cases b <;> simp
    have hhigh : (b.toNat+2*value bs)/2 = value bs := by
      cases b
      · simp
      · simp
        omega
    rw [length_cons,value,bits,hlow,hhigh,ih]

@[simp] theorem bits_ofNat (v : ℕ) : bits 8 (UInt8.ofNat v).toNat = bits 8 v := by
  exact bits_mod le_rfl

@[simp] theorem stream_nil : stream [] = [] := rfl

theorem stream_cons (b : UInt8) (data : List UInt8) :
    stream (b :: data) = bits 8 b.toNat ++ stream data := rfl

theorem stream_append (a b : List UInt8) : stream (a ++ b) = stream a ++ stream b := by
  simp [stream,flatMap_append]

@[simp] theorem length_stream (data : List UInt8) : (stream data).length = 8*data.length := by
  simp [stream,length_flatMap,Nat.mul_comm]

end LsbBits
