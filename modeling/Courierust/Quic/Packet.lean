import Courierust.Lib.BigEndian
import Courierust.Lib.Faults
import Courierust.Num
import Courierust.Quic.Frame

/-!
# Packet numbers

Model of `encode_pn` and `decode_pn` of `courierust_quic::packet`, with the arithmetic of `u64`
checked. No operation overflows, so `decode_pn` is a function of natural numbers.
-/

namespace Courierust.Quic

/-- `decode_pn`: the number nearest to the expected one with the given low octets. -/
def decodePn (truncated expected pnLen : ℕ) : ℕ :=
  if pnLen = 0 ∨ 4 < pnLen then expected
  else
    let window := 256 ^ pnLen
    let win := window / 2
    let candidate := expected / window * window + truncated
    let near :=
      if satAdd expected win < candidate ∧ window ≤ candidate then candidate - window
      else candidate
    if win ≤ expected ∧ candidate ≤ expected - win then (checkedAdd candidate window).getD near
    else near

namespace Packet

open List
open Faults BigEndian

def encodePn (pn pnLen : ℕ) : Except Error (List UInt8) :=
  if 1 ≤ pnLen ∧ pnLen ≤ 4 then
    .ok ((List.range pnLen).reverse.map fun shift => UInt8.ofNat (pn >>> (shift * 8)))
  else .error (Error.protocol "packet number length must be 1-4")

def pnBits : ℕ → Option ℕ
  | 1 => some 8
  | 2 => some 16
  | 3 => some 24
  | 4 => some 32
  | _ => none

/-- The octets folded into a `u64`. -/
def truncatedValue (truncated : List UInt8) : Except Fault ℕ :=
  truncated.foldlM (fun acc b => (· ||| b.toNat) <$> shl acc 8) 0

/-- `expected >= win && candidate <= expected - win`. -/
def below (candidate expected win : ℕ) : Except Fault Bool :=
  if win ≤ expected then (fun least => decide (candidate ≤ least)) <$> sub expected win
  else .ok false

/-- The candidate, or its neighbour a window away. -/
def nearest (candidate expected win window : ℕ) : Except Fault ℕ := do
  if (← below candidate expected win) ∧ candidate + window < 2 ^ 64 then return candidate + window
  else if min (expected + win) (2 ^ 64 - 1) < candidate ∧ window ≤ candidate then
    sub candidate window
  else return candidate

def decodePn (truncated : List UInt8) (expected pnLen : ℕ) : Except Fault ℕ :=
  match pnBits pnLen with
  | none => .ok expected
  | some bits => do
    let mask ← sub (← shl 1 bits) 1
    let value ← truncatedValue (truncated.take pnLen)
    let win ← shl 1 (bits - 1)
    let window ← shl 1 bits
    nearest ((expected &&& (2 ^ 64 - 1 - mask)) ||| value) expected win window

theorem foldlM_octets (bs : List UInt8) {acc : ℕ} (h : (acc+1)*256^bs.length ≤ 2^64) :
    bs.foldlM (fun acc b => (· ||| b.toNat) <$> shl acc 8) acc =
      .ok (bs.foldl (fun n b => n*256+b.toNat) acc) := by
  induction bs generalizing acc with
  | nil => rfl
  | cons b bs ih =>
    have hb := b.toNat_lt
    rw [length_cons,pow_succ'] at h
    have hpow : 1 ≤ 256^bs.length := Nat.one_le_pow _ _ (by decide)
    have hacc : acc*2^8 < 2^64 := by nlinarith
    have hor : acc <<< 8 ||| b.toNat = acc*256+b.toNat := by
      rw [← Nat.shiftLeft_add_eq_or_of_lt hb,Nat.shiftLeft_eq]
    rw [foldlM_cons,shl,if_pos hacc]
    change List.foldlM _ (acc <<< 8 ||| b.toNat) bs = _
    rw [hor,ih (by nlinarith),foldl_cons]

theorem map_reverse_range (pn w : ℕ) :
    ((List.range w).reverse.map fun shift => UInt8.ofNat (pn >>> (shift*8))) = beBytes w pn := by
  induction w generalizing pn with
  | zero => rfl
  | succ w ih =>
    rw [range_succ_eq_map,reverse_cons,map_append,← map_reverse,
      map_map,beBytes,← ih]
    congr 2
    funext shift
    rw [Function.comp_apply,Nat.succ_mul,Nat.add_comm,Nat.shiftRight_add,
      Nat.shiftRight_eq_div_pow pn 8]

theorem and_not_mask {e bits : ℕ} (he : e < 2^64) (hb : bits ≤ 64) :
    e &&& (2^64-1-(2^bits-1)) = e/2^bits*2^bits := by
  have hnot : 2^64-1-(2^bits-1) = (2^(64-bits)-1)*2^bits := by
    rw [Nat.sub_mul,← pow_add,Nat.sub_add_cancel hb,one_mul]
    have := Nat.one_le_two_pow (n := bits)
    omega
  rw [hnot]
  apply Nat.eq_of_testBit_eq
  intro i
  rw [Nat.testBit_and,Nat.testBit_mul_two_pow,Nat.testBit_mul_two_pow,Nat.testBit_two_pow_sub_one,
    Nat.testBit_div_two_pow]
  by_cases hi : bits ≤ i
  · by_cases hlt : i < 64
    · simp [hi,show i-bits < 64-bits by omega]
    · simp [hi,Nat.testBit_lt_two_pow (he.trans_le (Nat.pow_le_pow_right two_pos (not_lt.1 hlt)))]
  · simp [hi]

theorem shl_one {n : ℕ} (h : n < 64) : shl 1 n = .ok (2^n) := by
  rw [shl,one_mul,if_pos (Nat.pow_lt_pow_right (by decide) h),Nat.one_shiftLeft]

theorem below_eq (c expected win : ℕ) : below c expected win = .ok (decide (c+win ≤ expected)) := by
  rw [below]
  split_ifs with hwin
  · rw [sub,if_pos hwin]
    change Except.ok (decide (c ≤ expected-win)) = _
    simp only [Nat.le_sub_iff_add_le hwin]
  · rw [decide_eq_false (by omega)]

theorem nearest_eq (c expected win window : ℕ) : nearest c expected win window = .ok
    (let near := if satAdd expected win < c ∧ window ≤ c then c-window else c
    if win ≤ expected ∧ c ≤ expected-win then (checkedAdd c window).getD near else near) := by
  have hnear : (if min (expected+win) (2^64-1) < c ∧ window ≤ c then sub c window else .ok c) =
      .ok (if satAdd expected win < c ∧ window ≤ c then c-window else c) := by
    rw [satAdd,u64Max]
    split_ifs with h
    · rw [sub,if_pos h.2]
    · rfl
  have hmax : c+window ≤ u64Max ↔ c+window < 2^64 := by
    rw [u64Max]
    omega
  simp only [nearest,below_eq,bind,Except.bind,decide_eq_true_eq,checkedAdd]
  by_cases hlow : c+win ≤ expected
  · rw [if_pos (show win ≤ expected ∧ c ≤ expected-win by omega)]
    by_cases hfits : c+window < 2^64
    · rw [if_pos ⟨hlow,hfits⟩,if_pos (hmax.2 hfits)]
      rfl
    · rw [if_neg (fun h => hfits h.2),if_neg (mt hmax.1 hfits)]
      exact hnear
  · rw [if_neg (fun h => hlow h.1),if_neg (show ¬(win ≤ expected ∧ c ≤ expected-win) by omega)]
    exact hnear

theorem decodePn_eq (octets : List UInt8) {expected : ℕ} (hexpected : expected < 2^64)
    (pnLen : ℕ) : decodePn octets expected pnLen =
      .ok (Quic.decodePn (beNat (octets.take pnLen)) expected pnLen) := by
  by_cases hlen : 1 ≤ pnLen ∧ pnLen ≤ 4
  · have hshort : (octets.take pnLen).length ≤ pnLen := length_take_le _ _
    have hvalue : truncatedValue (octets.take pnLen) = .ok (beNat (octets.take pnLen)) := by
      refine foldlM_octets _ ?_
      rw [zero_add,one_mul]
      exact (Nat.pow_le_pow_right (by decide) (hshort.trans hlen.2)).trans (by decide)
    have hlt : beNat (octets.take pnLen) < 2^(8*pnLen) := by
      rw [pow_mul]
      exact (beNat_lt _).trans_le (Nat.pow_le_pow_right (by decide) hshort)
    have hbits : pnBits pnLen = some (8*pnLen) := by
      obtain ⟨h1,h4⟩ := hlen
      interval_cases pnLen <;> rfl
    have hwin : 2^(8*pnLen-1) = 2^(8*pnLen)/2 := by
      rw [← Nat.pow_div (by omega) two_pos,pow_one]
    rw [decodePn,hbits]
    simp only [hvalue,shl_one (show 8*pnLen < 64 by omega),sub,if_pos Nat.one_le_two_pow,
      shl_one (show 8*pnLen-1 < 64 by omega),bind,Except.bind]
    rw [and_not_mask hexpected (by omega),← Nat.shiftLeft_eq,
      ← Nat.shiftLeft_add_eq_or_of_lt hlt,Nat.shiftLeft_eq,nearest_eq,hwin,Quic.decodePn,
      if_neg (show ¬(pnLen = 0 ∨ 4 < pnLen) by omega),pow_mul]
    rfl
  · have hnone : pnBits pnLen = none := by
      unfold pnBits
      split <;> first | rfl | omega
    rw [decodePn,hnone,Quic.decodePn,if_pos (by omega)]

/-- The window is half open: below it `pn` is the next candidate, above it the one before. -/
theorem decodePn_near {pn expected pnLen : ℕ} (hlen : 1 ≤ pnLen ∧ pnLen ≤ 4) (hpn : pn < 2^62)
    (hlow : expected < pn+2^(8*pnLen-1)) (hhigh : pn ≤ expected+2^(8*pnLen-1)) :
    Quic.decodePn (pn%256^pnLen) expected pnLen = pn := by
  have hwindow : 256^pnLen = 2*2^(8*pnLen-1) := by
    rw [← pow_succ',Nat.sub_add_cancel (by omega),pow_mul]
    rfl
  simp only [Quic.decodePn,hwindow,checkedAdd,satAdd,u64Max]
  generalize 2^(8*pnLen-1) = win at *
  have hup : pn/(2*win) ≤ expected/(2*win)+1 := by
    rw [← Nat.add_div_right _ (by omega)]
    exact Nat.div_le_div_right (by omega)
  have hdown : expected/(2*win) ≤ pn/(2*win)+1 := by
    rw [← Nat.add_div_right _ (by omega)]
    exact Nat.div_le_div_right (by omega)
  have hsplit := Nat.div_add_mod' pn (2*win)
  have hcandidate : pn = expected/(2*win)*(2*win)+pn%(2*win) ∨
      pn = expected/(2*win)*(2*win)+pn%(2*win)+2*win ∨
      expected/(2*win)*(2*win)+pn%(2*win) = pn+2*win := by
    generalize pn/(2*win) = q at *
    obtain h | h | h : expected/(2*win) = q ∨ expected/(2*win) = q+1 ∨
      q = expected/(2*win)+1 := by omega
    · rw [h]
      omega
    · rw [h,Nat.succ_mul]
      omega
    · rw [h,Nat.succ_mul] at hsplit
      omega
  have hhalf : 2*win/2 = win := Nat.mul_div_cancel_left _ two_pos
  generalize expected/(2*win)*(2*win)+pn%(2*win) = c at hcandidate
  rw [hhalf,if_neg (by omega)]
  rcases hcandidate with rfl | rfl | rfl
  · rw [if_neg (by omega),if_neg (by omega)]
  · rw [if_pos (by omega),if_pos (by omega),Option.getD_some]
  · rw [if_neg (by omega),if_pos (by omega),Nat.add_sub_cancel]

/-- A packet number is recovered from its low octets when it is less than half a window below the
expected number, or at most half a window above it. -/
theorem packet_number_recovered {pn expected pnLen : ℕ} (hlen : 1 ≤ pnLen ∧ pnLen ≤ 4)
    (hpn : pn < 2 ^ 62) (hexpected : expected < 2 ^ 62)
    (hlow : expected < pn + 2 ^ (8 * pnLen - 1)) (hhigh : pn ≤ expected + 2 ^ (8 * pnLen - 1)) :
    ∃ octets, encodePn pn pnLen = .ok octets ∧ decodePn octets expected pnLen = .ok pn := by
  refine ⟨beBytes pnLen pn,by rw [encodePn,if_pos hlen,map_reverse_range],?_⟩
  rw [decodePn_eq _ (by omega),take_of_length_le (length_beBytes pnLen pn).le,
    beNat_beBytes_mod,decodePn_near hlen hpn hlow hhigh]

theorem packet_number_recovered_across :
    ∃ octets, encodePn 0x10005 1 = .ok octets ∧ decodePn octets 0xfff0 1 = .ok 0x10005 :=
  packet_number_recovered (by decide) (by decide) (by decide) (by decide) (by decide)

end Packet

end Courierust.Quic
