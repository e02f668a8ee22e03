import Mathlib.Data.List.Basic
import Mathlib.Tactic

/-!
# Big-endian numbers

A number as a fixed count of octets, most significant first, and back.
-/

namespace BigEndian

open List

def beNat (bs : List UInt8) : ℕ := bs.foldl (fun n b => n * 256 + b.toNat) 0

/-- The low `w` octets of a number. -/
def beBytes : ℕ → ℕ → List UInt8
  | 0, _ => []
  | w + 1, n => beBytes w (n / 256) ++ [UInt8.ofNat n]

@[simp] theorem length_beBytes (w n : ℕ) : (beBytes w n).length = w := by
  induction w generalizing n with
  | zero => rfl
  | succ w ih => rw [beBytes,length_append,ih,length_singleton]

theorem beNat_concat (bs : List UInt8) (b : UInt8) :
    beNat (bs ++ [b]) = beNat bs*256+b.toNat := by
  rw [beNat,foldl_append,foldl_cons,foldl_nil]
  rfl

theorem beNat_beBytes_mod (w n : ℕ) : beNat (beBytes w n) = n%256^w := by
  induction w generalizing n with
  | zero => exact (Nat.mod_one n).symm
  | succ w ih =>
    rw [beBytes,beNat_concat,ih,UInt8.toNat_ofNat',pow_succ' 256,Nat.mod_mul]
    omega

theorem beNat_beBytes {w n : ℕ} (h : n < 256^w) : beNat (beBytes w n) = n := by
  rw [beNat_beBytes_mod,Nat.mod_eq_of_lt h]

theorem beBytes_beNat (bs : List UInt8) : beBytes bs.length (beNat bs) = bs := by
  induction bs using List.reverseRecOn with
  | nil => rfl
  | append_singleton bs b ih =>
    have hb := b.toNat_lt
    rw [length_append,length_singleton,beBytes,beNat_concat,
      show (beNat bs*256+b.toNat)/256 = beNat bs by omega,ih]
    congr 2
    apply UInt8.toNat_inj.1
    rw [UInt8.toNat_ofNat']
    omega

theorem beNat_lt (bs : List UInt8) : beNat bs < 256^bs.length := by
  induction bs using List.reverseRecOn with
  | nil => exact Nat.one_pos
  | append_singleton bs b ih =>
    have hb := b.toNat_lt
    rw [beNat_concat,length_append,length_singleton,Nat.pow_succ]
    omega

end BigEndian
