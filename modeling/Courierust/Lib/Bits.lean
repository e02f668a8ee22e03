import Courierust.Lib.LsbBits

/-!
# Bit strings, most significant bit first

A number of a given width as the list of its bits in transmission order, and an
octet string as the concatenation of its octets' bits. Shifts, masks and
truncations of a bit accumulator become appends, takes and drops.
-/

namespace MsbBits

open List

/-- The low `w` bits of `v`, most significant first. -/
def bits : ℕ → ℕ → List Bool
  | 0, _ => []
  | w + 1, v => v.testBit w :: bits w v

def stream (data : List UInt8) : List Bool := data.flatMap fun b => bits 8 b.toNat

theorem bits_eq_reverse (w v : ℕ) : bits w v = (LsbBits.bits w v).reverse := by
  induction w with
  | zero => rfl
  | succ w ih =>
    rw [bits,ih,LsbBits.bits_add,reverse_append]
    simp [LsbBits.bits]

@[simp] theorem length_bits (w v : ℕ) : (bits w v).length = w := by
  rw [bits_eq_reverse,length_reverse,LsbBits.length_bits]

theorem eq_of_bits_eq {w v u : ℕ} (hv : v < 2^w) (hu : u < 2^w) (h : bits w v = bits w u) :
    v = u := by
  rw [bits_eq_reverse,bits_eq_reverse,reverse_inj] at h
  rw [← LsbBits.value_bits hv,h,LsbBits.value_bits hu]

theorem bits_add (a b v : ℕ) : bits (a+b) v = bits a (v >>> b) ++ bits b v := by
  simp only [bits_eq_reverse]
  rw [Nat.add_comm,LsbBits.bits_add,reverse_append]

theorem bits_mod {w k v : ℕ} (h : w ≤ k) : bits w (v%2^k) = bits w v := by
  rw [bits_eq_reverse,LsbBits.bits_mod h,bits_eq_reverse]

theorem bits_shiftLeft_or {w k v u : ℕ} (hu : u < 2^k) :
    bits (w+k) ((v <<< k) ||| u) = bits w v ++ bits k u := by
  simp only [bits_eq_reverse]
  rw [Nat.add_comm,Nat.or_comm,LsbBits.bits_or_shiftLeft hu,reverse_append]

@[simp] theorem bits_zero_right (k : ℕ) : bits k 0 = List.replicate k false := by
  rw [bits_eq_reverse,LsbBits.bits_zero_right,reverse_replicate]

theorem bits_shiftLeft (w k v : ℕ) :
    bits (w+k) (v <<< k) = bits w v ++ List.replicate k false := by
  have h := bits_shiftLeft_or (w := w) (v := v) (Nat.two_pow_pos k)
  rwa [Nat.or_zero,bits_zero_right] at h

theorem bits_two_pow_sub_one (k : ℕ) : bits k (2^k-1) = List.replicate k true := by
  have h : ∀ w ≤ k, bits w (2^k-1) = replicate w true := by
    intro w hw
    induction w with
    | zero => rfl
    | succ w ih =>
      rw [bits,ih (by omega),Nat.testBit_two_pow_sub_one,replicate_succ]
      simp [show w < k by omega]
  exact h k le_rfl

theorem drop_take_bits {w d t v : ℕ} (h : d+t ≤ w) :
    ((bits w v).drop d).take t = bits t (v >>> (w-d-t)) := by
  have hw : w = d+(t+(w-d-t)) := by omega
  generalize w-d-t = r at hw
  subst hw
  rw [bits_add,drop_left' (by simp),bits_add,take_left' (by simp)]

@[simp] theorem bits_ofNat (v : ℕ) : bits 8 (UInt8.ofNat v).toNat = bits 8 v := by
  exact bits_mod le_rfl

@[simp] theorem stream_nil : stream [] = [] := rfl

theorem stream_cons (b : UInt8) (data : List UInt8) :
    stream (b :: data) = bits 8 b.toNat ++ stream data := rfl

theorem stream_append (a b : List UInt8) : stream (a ++ b) = stream a ++ stream b := by
  simp [stream,flatMap_append]

@[simp] theorem length_stream (data : List UInt8) : (stream data).length = 8*data.length := by
  simp [stream,length_flatMap,Nat.mul_comm]

theorem take_drop_stream {data : List UInt8} {p b t : ℕ} (hp : p < data.length) (h : b+t ≤ 8) :
    ((stream data).drop (8*p+b)).take t =
      bits t ((data.getD p 0).toNat >>> (8-b-t)) := by
  induction data generalizing p with
  | nil => simp at hp
  | cons x data ih =>
    cases p with
    | zero =>
      rw [stream_cons,Nat.mul_zero,Nat.zero_add,drop_append_of_le_length (by simp; omega),
        take_append_of_le_length (by simp; omega),drop_take_bits h]
      rfl
    | succ p =>
      rw [stream_cons,show 8*(p+1)+b = 8+(8*p+b) by ring,
        ← drop_drop,drop_left' (by simp)]
      exact ih (by simpa using hp)

end MsbBits
