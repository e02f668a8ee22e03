import Courierust.Error

/-!
# QUIC variable-length integers

Model of `courierust_quic::varint` (RFC 9000 §16): one, two, four or eight
octets, the length in the two high bits of the first.
-/

namespace Courierust.Quic.Varint

open List

def MAX : ℕ := 2 ^ 62 - 1

/-- `encode`. The source asserts `value ≤ MAX`; every caller of the model that
    relies on the result carries that bound. -/
def encode (value : ℕ) : List UInt8 :=
  if value < 2 ^ 6 then
    [UInt8.ofNat value]
  else if value < 2 ^ 14 then
    [(0x40 : UInt8) ||| UInt8.ofNat (value >>> 8), UInt8.ofNat (value &&& 0xff)]
  else if value < 2 ^ 30 then
    [(0x80 : UInt8) ||| UInt8.ofNat (value >>> 24), UInt8.ofNat ((value >>> 16) &&& 0xff),
      UInt8.ofNat ((value >>> 8) &&& 0xff), UInt8.ofNat (value &&& 0xff)]
  else
    ((0xc0 : UInt8) ||| UInt8.ofNat (value >>> 56)) ::
      [48, 40, 32, 24, 16, 8, 0].map fun shift => UInt8.ofNat ((value >>> shift) &&& 0xff)

def announced (first : UInt8) : ℕ :=
  match (first >>> 6).toNat with
  | 0 => 1
  | 1 => 2
  | 2 => 4
  | _ => 8

/-- `decode`: the value and the number of octets consumed. -/
def decode (buf : List UInt8) : Except Error (ℕ × ℕ) :=
  match buf with
  | [] => .error Error.eof
  | first :: rest =>
    let len := announced first
    if buf.length < len then .error Error.eof
    else
      let value := (rest.take (len - 1)).foldl (fun v byte => (v <<< 8) ||| byte.toNat)
        (first &&& 0x3f).toNat
      .ok (value, len)

private theorem toNat_ofNat_mask (v : ℕ) : (UInt8.ofNat (v &&& 0xff)).toNat = v%256 := by
  rw [show (0xff : ℕ) = 2^8-1 from rfl,Nat.and_two_pow_sub_one_eq_mod,UInt8.toNat_ofNat']
  omega

private theorem shift_or (v : ℕ) (b : UInt8) : (v <<< 8) ||| b.toNat = v*256+b.toNat := by
  rw [← Nat.shiftLeft_add_eq_or_of_lt (by simpa using b.toNat_lt),Nat.shiftLeft_eq]

private theorem head_one : ∀ v < 64,
    announced (UInt8.ofNat v) = 1 ∧ (UInt8.ofNat v &&& 0x3f).toNat = v := by decide

private theorem head_marked : ∀ mark ∈ [((0x40 : UInt8),2),(0x80,4),(0xc0,8)], ∀ v < 64,
    announced (mark.1 ||| UInt8.ofNat v) = mark.2 ∧
      ((mark.1 ||| UInt8.ofNat v) &&& 0x3f).toNat = v := by decide

private theorem decode_cons {first : UInt8} {tail : List UInt8} {v : ℕ} (rest : List UInt8)
    (h : announced first = tail.length+1 ∧ (first &&& 0x3f).toNat = v) :
    decode (first :: tail ++ rest) =
      .ok (tail.foldl (fun v byte => v*256+byte.toNat) v,tail.length+1) := by
  have hlen : ¬ (first :: (tail ++ rest)).length < tail.length+1 := by simp
  simp only [decode,cons_append,h.1,if_neg hlen,Nat.add_sub_cancel,take_left,h.2,
    shift_or]

theorem decode_encode_append {value : ℕ} (h : value ≤ MAX) (rest : List UInt8) :
    decode (encode value ++ rest) = .ok (value,(encode value).length) := by
  have hmax : value < 2^62 := by unfold MAX at h; omega
  have hhead : ∀ {n}, value < 2^(n+6) → value >>> n < 64 := by
    intro n hn
    rw [Nat.shiftRight_eq_div_pow]
    exact Nat.div_lt_of_lt_mul (by rwa [pow_add] at hn)
  unfold encode
  split_ifs with h1 h2 h3
  · exact decode_cons rest (head_one value h1)
  · refine (decode_cons rest (head_marked (0x40,2) (by simp) _ (hhead h2))).trans ?_
    simp only [foldl_cons,foldl_nil,toNat_ofNat_mask,Nat.shiftRight_eq_div_pow]
    congr 2
    omega
  · refine (decode_cons rest (head_marked (0x80,4) (by simp) _ (hhead h3))).trans ?_
    simp only [foldl_cons,foldl_nil,toNat_ofNat_mask,Nat.shiftRight_eq_div_pow]
    congr 2
    omega
  · refine (decode_cons rest (head_marked (0xc0,8) (by simp) _ (hhead hmax))).trans ?_
    simp only [map_cons,map_nil,foldl_cons,foldl_nil,toNat_ofNat_mask,
      Nat.shiftRight_eq_div_pow]
    congr 2
    omega

private theorem foldl_shift_lt (bytes : List UInt8) (v k : ℕ) (h : v < k) :
    bytes.foldl (fun v byte => (v <<< 8) ||| byte.toNat) v < k*256^bytes.length := by
  induction bytes generalizing v k with
  | nil => simpa using h
  | cons b bytes ih =>
    rw [foldl_cons,length_cons,pow_succ',← mul_assoc]
    refine ih _ _ ?_
    have := b.toNat_lt
    rw [shift_or]
    omega

theorem decode_le_max {buf : List UInt8} {value used : ℕ} (h : decode buf = .ok (value,used)) :
    value ≤ MAX := by
  cases buf with
  | nil => simp [decode] at h
  | cons first rest =>
    simp only [decode] at h
    split_ifs at h
    obtain ⟨rfl,-⟩ := h
    have hfirst : (first &&& 0x3f).toNat < 64 := by
      exact Nat.and_lt_two_pow (n := 6) _ (by decide)
    have hlen : (rest.take (announced first-1)).length ≤ 7 := by
      have : announced first ≤ 8 := by unfold announced; split <;> omega
      rw [length_take]
      omega
    have hlt := foldl_shift_lt (rest.take (announced first-1)) _ _ hfirst
    have hpow : 64*256^(rest.take (announced first-1)).length ≤ 64*256^7 := by
      gcongr
      omega
    unfold MAX
    omega

end Courierust.Quic.Varint
