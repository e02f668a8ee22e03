import Courierust.Error
import Courierust.Lib.LsbBits
import Mathlib.Data.Nat.Bitwise

/-!
# Bit input and output of DEFLATE

`BitReader` and `BitWriter` keep a few bits in an accumulator. Both stand for a list of
bits: the ones still to be read, and the ones written so far.
-/

namespace Courierust.Deflate

open List
open LsbBits

/-! ### Reading -/

/-- `BitReader`: the octets from its position on, and the accumulator. -/
structure BitReader where
  rest : List UInt8
  acc : ℕ := 0
  nbits : ℕ := 0
  hitEof : Bool := false

namespace BitReader

def bits (r : BitReader) : List Bool := LsbBits.bits r.nbits r.acc ++ stream r.rest

def size (r : BitReader) : ℕ := r.nbits + 8 * r.rest.length

theorem length_bits (r : BitReader) : r.bits.length = r.size := by
  simp [bits,size]

structure Holds (r : BitReader) (w : List Bool) : Prop where
  acc : r.acc < 2 ^ r.nbits
  bits : r.bits = w
  hitEof : r.hitEof = false

/-- The loop of `ensure` over the octets. -/
def ensureFrom (n : ℕ) (hitEof : Bool) :
    List UInt8 → ℕ → ℕ → Except Error Unit × BitReader
  | rest, acc, nbits =>
    if n ≤ nbits then (.ok (), ⟨rest, acc, nbits, hitEof⟩)
    else
      match rest with
      | [] => (.error (Error.protocol "deflate: truncated bit stream"), ⟨[], acc, nbits, true⟩)
      | b :: rest => ensureFrom n hitEof rest (acc ||| (b.toNat <<< nbits)) (nbits + 8)

def ensure (r : BitReader) (n : ℕ) : Except Error Unit × BitReader :=
  ensureFrom n r.hitEof r.rest r.acc r.nbits

def peek (r : BitReader) (n : ℕ) : ℕ := r.acc &&& (2 ^ n - 1)

def consume (r : BitReader) (n : ℕ) : BitReader :=
  { r with acc := r.acc >>> n, nbits := r.nbits - n }

def alignByte (r : BitReader) : BitReader := r.consume (r.nbits % 8)

def exhausted (r : BitReader) : Bool := r.rest.isEmpty && r.nbits < 8

end BitReader

def BitM (α : Type) : Type := BitReader → Except Error α × BitReader

namespace BitM

instance : Monad BitM where
  pure a := fun r => (.ok a, r)
  bind x f := fun r =>
    match x r with
    | (.ok a, r) => f a r
    | (.error e, r) => (.error e, r)

variable {α β : Type}

def fail (e : Error) : BitM α := fun r => (.error e, r)

variable {f : α → BitM β} {x : BitM α} {a : α} {b : β}

theorem bind_eq {r r' : BitReader} (h : x r = (.ok a,r')) : (x >>= f) r = f a r' := by
  simp only [bind,h]

/-- The computation reads exactly `w` and returns `a`, whatever follows. -/
def Takes (x : BitM α) (w : List Bool) (a : α) : Prop :=
  ∀ (r : BitReader) (rest : List Bool), r.Holds (w ++ rest) →
    ∃ r', x r = (.ok a, r') ∧ r'.Holds rest

theorem Takes.pure (a : α) : Takes (pure a) [] a := fun r _ hr => ⟨r,rfl,hr⟩

theorem Takes.bind {w w' : List Bool} (hx : Takes x w a) (hf : Takes (f a) w' b) :
    Takes (x >>= f) (w ++ w') b := by
  intro r rest hr
  rw [append_assoc] at hr
  obtain ⟨r',hr',hrest⟩ := hx r (w' ++ rest) hr
  rw [bind_eq hr']
  exact hf r' rest hrest

theorem Takes.bind_nil {w : List Bool} (hx : Takes x w a) (hf : Takes (f a) [] b) :
    Takes (x >>= f) w b := by
  have h := hx.bind hf
  rwa [append_nil] at h

def Reads (x : BitM α) : Prop := ∀ r, (x r).2.size ≤ r.size

theorem Reads.bind (hx : Reads x) (hf : ∀ a, Reads (f a)) : Reads (x >>= f) := by
  intro r
  have hle := hx r
  simp only [Bind.bind]
  generalize x r = p at hle ⊢
  obtain ⟨result,r'⟩ := p
  cases result with
  | ok a => exact (hf a r').trans hle
  | error e => exact hle

theorem size_bind {r r' : BitReader} (hx : ∀ {a u}, x r = (.ok a,u) → u.size < r.size)
    (hf : ∀ a, Reads (f a)) (h : (x >>= f) r = (.ok b,r')) : r'.size < r.size := by
  rcases hread : x r with ⟨result,u⟩
  cases result with
  | error e =>
    simp only [Bind.bind,hread] at h
    cases h
  | ok a =>
    have hle := hf a u
    rw [bind_eq hread] at h
    rw [h] at hle
    exact hle.trans_lt (hx hread)

end BitM

open BitM

def take (n : ℕ) : BitM ℕ := fun r =>
  let (result, r) := if r.nbits < n then r.ensure n else (.ok (), r)
  match result with
  | .error e => (.error e, r)
  | .ok () => (.ok (r.peek n), r.consume n)

/-- The loop of `read_bytes` over the whole octets of the accumulator. -/
def readAcc : ℕ → BitReader → List UInt8 → BitReader × List UInt8
  | 0, r, out => (r, out)
  | n + 1, r, out => readAcc n (r.consume 8) (out ++ [UInt8.ofNat (r.acc &&& 0xff)])

/-- `read_bytes`: whole octets from the accumulator first, then from the input. -/
def readBytes (n : ℕ) (r : BitReader) (out : List UInt8) :
    Except Error Unit × BitReader × List UInt8 :=
  let r := r.alignByte
  let fromAcc := min (r.nbits / 8) n
  let (r, out) := readAcc fromAcc r out
  let rest := n - fromAcc
  if 0 < rest then
    if r.rest.length < rest then
      (.error (Error.protocol "deflate: truncated stored block"), r, out)
    else (.ok (), { r with rest := r.rest.drop rest }, out ++ r.rest.take rest)
  else (.ok (), r, out)

namespace BitReader

/-- Nothing is lost in `ensure`, and if it succeeds the accumulator has the bits. -/
theorem size_ensureFrom (n : ℕ) (eof : Bool) (rest : List UInt8) (acc nbits : ℕ) :
    (ensureFrom n eof rest acc nbits).2.size = nbits+8*rest.length ∧
      ((ensureFrom n eof rest acc nbits).1 = .ok () →
        n ≤ (ensureFrom n eof rest acc nbits).2.nbits) := by
  induction rest generalizing acc nbits with
  | nil =>
    rw [ensureFrom]
    split_ifs with hn
    · exact ⟨rfl,fun _ => hn⟩
    · exact ⟨rfl,fun h => by cases h⟩
  | cons b rest ih =>
    rw [ensureFrom]
    split_ifs with hn
    · exact ⟨rfl,fun _ => hn⟩
    · obtain ⟨hsize,hle⟩ := ih (acc ||| (b.toNat <<< nbits)) (nbits+8)
      rw [length_cons]
      exact ⟨by omega,hle⟩

variable {r : BitReader} {n : ℕ} {w : List Bool}

theorem or_shiftLeft_lt {acc nbits v : ℕ} (hacc : acc < 2^nbits) (hv : v < 2^n) :
    acc ||| (v <<< nbits) < 2^(nbits+n) := by
  rw [Nat.lor_comm]
  exact Nat.append_lt hacc hv

theorem ensureFrom_spec (n : ℕ) (rest : List UInt8) (acc nbits : ℕ)
    (hv : acc < 2^nbits) (hn : n ≤ nbits+8*rest.length) :
    ∃ r, ensureFrom n false rest acc nbits = (.ok (),r) ∧
      r.Holds (LsbBits.bits nbits acc ++ stream rest) ∧ n ≤ r.nbits := by
  induction rest generalizing acc nbits with
  | nil =>
    rw [ensureFrom,if_pos (by simpa using hn)]
    exact ⟨_,rfl,⟨hv,rfl,rfl⟩,by simpa using hn⟩
  | cons b rest ih =>
    rw [ensureFrom]
    split_ifs with hle
    · exact ⟨_,rfl,⟨hv,rfl,rfl⟩,hle⟩
    · obtain ⟨r,hr,hbits,hnr⟩ := ih _ _ (or_shiftLeft_lt hv b.toNat_lt)
        (by rw [length_cons] at hn; omega)
      refine ⟨r,hr,?_,hnr⟩
      rwa [bits_or_shiftLeft hv,append_assoc,← stream_cons] at hbits

theorem peek_eq (h : n ≤ r.nbits) : r.peek n = value (r.bits.take n) := by
  rw [peek,bits,take_append_of_le_length (by simpa using h),take_bits _ h,value_bits_mod,
    Nat.and_two_pow_sub_one_eq_mod]

theorem bits_consume (h : n ≤ r.nbits) : (r.consume n).bits = r.bits.drop n := by
  rw [bits,consume,bits_shiftRight _ h,bits,drop_append_of_le_length (by simpa using h)]

theorem Holds.consume (h : r.Holds w) (hn : n ≤ r.nbits) : (r.consume n).Holds (w.drop n) := by
  refine ⟨?_,by rw [bits_consume hn,h.bits],h.hitEof⟩
  rw [BitReader.consume,Nat.shiftRight_eq_div_pow]
  refine Nat.div_lt_of_lt_mul ?_
  rw [← Nat.pow_add,Nat.add_sub_cancel' hn]
  exact h.acc

theorem Holds.length (h : r.Holds w) : r.size = w.length := by
  rw [← r.length_bits,h.bits]

theorem Holds.ensure (h : r.Holds w) (hn : n ≤ w.length) :
    ∃ u, r.ensure n = (.ok (),u) ∧ u.Holds w ∧ n ≤ u.nbits := by
  have hspec := ensureFrom_spec n r.rest r.acc r.nbits h.acc (by rw [← h.length] at hn; exact hn)
  rwa [← h.hitEof,show LsbBits.bits r.nbits r.acc ++ stream r.rest = w from h.bits] at hspec

theorem size_consume_le (r : BitReader) (n : ℕ) : (r.consume n).size ≤ r.size := by
  simp only [consume,size]
  omega

end BitReader

open BitReader

theorem takes_take {n v : ℕ} (h : v < 2^n) : Takes (take n) (LsbBits.bits n v) v := by
  intro r rest hr
  have hstep : ∀ u : BitReader, u.Holds (LsbBits.bits n v ++ rest) → n ≤ u.nbits →
      u.peek n = v ∧ (u.consume n).Holds rest := by
    intro u hu hn
    have hconsume := hu.consume hn
    rw [drop_left' (by simp)] at hconsume
    refine ⟨?_,hconsume⟩
    rw [peek_eq hn,hu.bits,take_left' (by simp),value_bits h]
  by_cases hn : r.nbits < n
  · obtain ⟨u,hu,hholds,hle⟩ := hr.ensure (n := n) (by simp)
    obtain ⟨hpeek,hrest⟩ := hstep u hholds hle
    refine ⟨u.consume n,?_,hrest⟩
    simp only [take,if_pos hn,hu,hpeek]
  · obtain ⟨hpeek,hrest⟩ := hstep r hr (not_lt.1 hn)
    refine ⟨r.consume n,?_,hrest⟩
    simp only [take,if_neg hn,hpeek]

variable {r : BitReader} (v n : ℕ)

theorem take_cases (r : BitReader) (n : ℕ) :
    (∃ v r', take n r = (.ok v,r') ∧ r'.size+n = r.size) ∨
      ∃ e r', take n r = (.error e,r') ∧ r'.size = r.size := by
  by_cases hn : r.nbits < n
  · obtain ⟨hsize,hle⟩ := size_ensureFrom n r.hitEof r.rest r.acc r.nbits
    rw [← ensure] at hsize hle
    simp only [take,if_pos hn]
    generalize r.ensure n = p at hsize hle ⊢
    obtain ⟨result,u⟩ := p
    cases result with
    | error e => exact .inr ⟨e,u,rfl,hsize⟩
    | ok =>
      have hn := hle rfl
      refine .inl ⟨_,_,rfl,?_⟩
      simp only [size,consume] at hsize hn ⊢
      omega
  · simp only [take,if_neg hn]
    refine .inl ⟨_,_,rfl,?_⟩
    simp only [size,consume]
    omega

theorem size_take {n : ℕ} {r' : BitReader} {v : ℕ} (h : take n r = (.ok v,r')) :
    r'.size+n = r.size := by
  rcases take_cases r n with ⟨v',u,htake,hsize⟩ | ⟨e,u,htake,-⟩
  · cases htake.symm.trans h
    exact hsize
  · cases htake.symm.trans h

theorem reads_take : Reads (take n) := by
  intro r
  rcases take_cases r n with ⟨v,u,htake,hsize⟩ | ⟨e,u,htake,hsize⟩
  · rw [htake,← hsize]
    exact Nat.le_add_right _ _
  · rw [htake]
    exact hsize.le

/-- A property of bit computations that reading has and that sequences keep. -/
structure Composes (P : (α : Type) → BitM α → Prop) : Prop where
  pure : ∀ {α : Type} (a : α), P α (pure a)
  protocol : ∀ {α : Type} (msg : String), P α (fail (Error.protocol msg))
  bind : ∀ {α β : Type} {x : BitM α} {f : α → BitM β}, P α x → (∀ a, P β (f a)) → P β (x >>= f)
  take : ∀ n, P ℕ (take n)

theorem composes_reads : Composes fun _ x => Reads x :=
  ⟨fun _ _ => le_rfl,fun _ _ => le_rfl,Reads.bind,reads_take⟩

theorem take_eof {n : ℕ} (hn : 0 < n) (hr : r.size = 0) :
    (take n r).1 = .error (Error.protocol "deflate: truncated bit stream") ∧
      (take n r).2.exhausted = true := by
  have hnbits : r.nbits = 0 := by
    simp only [size] at hr
    omega
  have hrest : r.rest = [] := by
    simp only [size] at hr
    exact length_eq_zero_iff.1 (by omega)
  simp only [take,hnbits,if_pos hn,ensure,hrest,ensureFrom,
    if_neg (show ¬ n ≤ 0 by omega)]
  exact ⟨trivial,rfl⟩

theorem BitReader.Holds.alignByte {w : List Bool} (h : r.Holds w) :
    r.alignByte.Holds (w.drop (w.length%8)) := by
  have hconsume := h.consume (Nat.mod_le r.nbits 8)
  have hmod : w.length%8 = r.nbits%8 := by
    rw [← h.length]
    simp only [size]
    omega
  rwa [hmod]

theorem size_readAcc (r : BitReader) (out : List UInt8) : (readAcc n r out).1.size ≤ r.size := by
  induction n generalizing r out with
  | zero => exact le_rfl
  | succ n ih => exact (ih _ _).trans (r.size_consume_le 8)

theorem size_readBytes (r : BitReader) (out : List UInt8) :
    (readBytes n r out).2.1.size ≤ r.size := by
  have hacc : ∀ k, (readAcc k r.alignByte out).1.size ≤ r.size := fun k =>
    (size_readAcc k _ out).trans (r.size_consume_le _)
  simp only [readBytes]
  refine le_trans ?_ (hacc (min (r.alignByte.nbits/8) n))
  split_ifs
  · exact le_rfl
  · simp only [size,length_drop]
    omega
  · exact le_rfl

/-! ### Code words -/

def reverseBits (v n : ℕ) : ℕ :=
  (List.range n).foldl (fun out i => out ||| (((v >>> i) &&& 1) <<< (n - 1 - i))) 0

/-- The code word of `n` bits with this value, most significant bit first. -/
def codeWord (v n : ℕ) : List Bool := (LsbBits.bits n v).reverse

@[simp] theorem length_codeWord : (codeWord v n).length = n := by simp [codeWord]

theorem codeWord_succ : codeWord v (n+1) = v.testBit n :: codeWord v n := by
  rw [codeWord,bits_add n 1 v,reverse_append]
  simp [LsbBits.bits,codeWord]

theorem testBit_foldl_reverse (m j : ℕ) (hm : m ≤ n) :
    ((List.range m).foldl (fun out i => out ||| (((v >>> i) &&& 1) <<< (n-1-i))) 0).testBit j =
      (decide (j < n ∧ n-1-j < m) && v.testBit (n-1-j)) := by
  induction m with
  | zero => simp
  | succ m ih =>
    rw [range_succ,foldl_append,foldl_cons,foldl_nil,Nat.testBit_or,
      ih (by omega),Nat.testBit_shiftLeft,Nat.testBit_and,Nat.testBit_shiftRight]
    by_cases hj : j = n-1-m
    · subst hj
      have hlow : n-1-(n-1-m) = m := by omega
      simp [hlow,show n-1-m < n by omega]
    have hbit : (n-1-m ≤ j) → (1 : ℕ).testBit (j-(n-1-m)) = false := by
      intro hle
      exact Nat.testBit_lt_two_pow (Nat.one_lt_two_pow (by omega))
    have hiff : (j < n ∧ n-1-j < m) ↔ (j < n ∧ n-1-j < m+1) := by omega
    by_cases hle : n-1-m ≤ j
    · simp [hle,hbit hle,hiff]
    · simp [hle,hiff]

theorem bits_reverseBits : LsbBits.bits n (reverseBits v n) = codeWord v n := by
  refine ext_getElem? fun j => ?_
  by_cases hj : j < n
  · rw [getElem?_bits hj,codeWord,getElem?_reverse (by simpa using hj),LsbBits.length_bits,
      getElem?_bits (by omega),reverseBits,testBit_foldl_reverse _ _ _ _ le_rfl]
    simp [hj,show n-1-j < n by omega]
  · rw [getElem?_eq_none (by simpa using hj),getElem?_eq_none (by simpa using hj)]

/-! ### Writing -/

structure BitWriter where
  out : List UInt8 := []
  acc : ℕ := 0
  nbits : ℕ := 0

namespace BitWriter

def bits (w : BitWriter) : List Bool := stream w.out ++ LsbBits.bits w.nbits w.acc

structure Valid (w : BitWriter) : Prop where
  acc : w.acc < 2 ^ w.nbits
  nbits : w.nbits < 8

/-- The loop of `write_bits` that pushes whole octets. -/
def flush (out : List UInt8) (acc nbits : ℕ) : BitWriter :=
  if 8 ≤ nbits then flush (out ++ [UInt8.ofNat (acc &&& 0xff)]) (acc >>> 8) (nbits - 8)
  else ⟨out, acc, nbits⟩
termination_by nbits

def writeBits (w : BitWriter) (v n : ℕ) : BitWriter :=
  flush w.out (w.acc ||| ((v &&& (2 ^ n - 1)) <<< w.nbits)) (w.nbits + n)

/-- `write_bits_msb`. Its loop is that of `reverse_bits`. -/
def writeBitsMsb (w : BitWriter) (v n : ℕ) : BitWriter := w.writeBits (reverseBits v n) n

def alignByte (w : BitWriter) : BitWriter :=
  if 0 < w.nbits then ⟨w.out ++ [UInt8.ofNat (w.acc &&& 0xff)], 0, 0⟩ else w

/-- `sync_flush`: an empty stored block whose last four octets are left out. -/
def syncFlush (w : BitWriter) : BitWriter :=
  let w := (w.writeBits 0 3).alignByte
  let out := w.out ++ [0x00, 0x00, 0xff, 0xff]
  alignByte { w with out := out.take (out.length - 4) }

theorem stream_push (out : List UInt8) (acc : ℕ) :
    stream (out ++ [UInt8.ofNat (acc &&& 0xff)]) = stream out ++ LsbBits.bits 8 acc := by
  rw [stream_append,stream_cons,stream_nil,bits_ofNat,append_nil,
    show (0xff : ℕ) = 2^8-1 from rfl,Nat.and_two_pow_sub_one_eq_mod,bits_mod le_rfl]

theorem flush_spec (out : List UInt8) (acc nbits : ℕ) (h : acc < 2^nbits) :
    (flush out acc nbits).Valid ∧
      (flush out acc nbits).bits = stream out ++ LsbBits.bits nbits acc := by
  induction nbits using Nat.strong_induction_on generalizing out acc with
  | _ nbits ih =>
    rw [flush]
    split_ifs with h8
    · have hacc : acc >>> 8 < 2^(nbits-8) := by
        rw [Nat.shiftRight_eq_div_pow]
        refine Nat.div_lt_of_lt_mul ?_
        rwa [← Nat.pow_add,Nat.add_sub_cancel' h8]
      obtain ⟨hv,hbits⟩ := ih (nbits-8) (by omega) (out ++ [UInt8.ofNat (acc &&& 0xff)]) _ hacc
      refine ⟨hv,?_⟩
      have hsplit := bits_add 8 (nbits-8) acc
      rw [Nat.add_sub_cancel' h8] at hsplit
      rw [hbits,stream_push,hsplit,append_assoc]
    · exact ⟨⟨h,not_le.1 h8⟩,rfl⟩

variable {w : BitWriter}

theorem writeBits_spec (hw : w.Valid) (v n : ℕ) :
    (w.writeBits v n).Valid ∧ (w.writeBits v n).bits = w.bits ++ LsbBits.bits n v := by
  have hmask : v &&& (2^n-1) = v%2^n := Nat.and_two_pow_sub_one_eq_mod v n
  have hlt : v%2^n < 2^n := Nat.mod_lt _ (Nat.two_pow_pos n)
  obtain ⟨hv,hbits⟩ := flush_spec w.out _ (w.nbits+n) (BitReader.or_shiftLeft_lt hw.acc hlt)
  rw [writeBits,hmask]
  refine ⟨hv,?_⟩
  rw [hbits,bits_or_shiftLeft hw.acc,bits_mod le_rfl,← append_assoc]
  rfl

theorem writeBitsMsb_spec (hw : w.Valid) (v n : ℕ) :
    (w.writeBitsMsb v n).Valid ∧ (w.writeBitsMsb v n).bits = w.bits ++ codeWord v n := by
  rw [← bits_reverseBits]
  exact writeBits_spec hw _ n

theorem alignByte_spec (hw : w.Valid) :
    w.alignByte.nbits = 0 ∧ stream w.alignByte.out =
      w.bits ++ List.replicate ((8-w.nbits%8)%8) false := by
  have hlt := hw.nbits
  rw [alignByte]
  split_ifs with h
  · refine ⟨rfl,?_⟩
    have hsplit := bits_add w.nbits (8-w.nbits) w.acc
    rw [Nat.add_sub_cancel' hlt.le] at hsplit
    have hzero : LsbBits.bits (8-w.nbits) (w.acc >>> w.nbits) =
        replicate (8-w.nbits) false := by
      rw [Nat.shiftRight_eq_div_pow,Nat.div_eq_of_lt hw.acc]
      exact bits_zero_right _
    rw [stream_push,hsplit,hzero,
      Nat.mod_eq_of_lt hlt,Nat.mod_eq_of_lt (by omega : 8-w.nbits < 8)]
    simp [bits]
  · have hzero : w.nbits = 0 := by omega
    exact ⟨hzero,by simp [bits,hzero,LsbBits.bits]⟩

end BitWriter

end Courierust.Deflate
