import Courierust.Deflate.Bits

/-!
# Huffman decode tables

`DecodeTable.build` makes a table from code lengths, and `decode_symbol` reads one symbol:
through the nine-bit lookup when enough bits are at hand, and by the canonical walk
otherwise. Every table that `build` accepts decodes each of its code words, on either way.
-/

namespace Courierust.Deflate

open List
open LsbBits BitM

def fastBits : ℕ := 9

def maxCodeLen : ℕ := 15

def firstCode (count : ℕ → ℕ) : ℕ → ℕ
  | 0 => 0
  | len + 1 => (firstCode count len + count len) <<< 1

variable {r : BitReader} {len s k : ℕ}

variable {lens : List ℕ} {r' : BitReader}

theorem firstCode_mul_le (count : ℕ → ℕ) (len k : ℕ) :
    (firstCode count len+count len)*2^(k+1) ≤ firstCode count (len+(k+1)) := by
  induction k with
  | zero =>
    rw [firstCode,Nat.shiftLeft_eq]
  | succ k ih =>
    calc (firstCode count len+count len)*2^(k+1+1)
        = (firstCode count len+count len)*2^(k+1)*2 := by rw [Nat.pow_succ,Nat.mul_assoc]
      _ ≤ (firstCode count (len+(k+1))+count (len+(k+1)))*2 := by
          refine Nat.mul_le_mul_right _ ?_
          omega
      _ = firstCode count (len+(k+1)+1) := by rw [firstCode,Nat.shiftLeft_eq]

/-- One store into the fast table: every index whose low `len` bits are `rev`. -/
structure FastEntry where
  len : ℕ
  sym : ℕ
  rev : ℕ
  pos : 0 < len

/-- `DecodeTable`. The fast table is the list of the stores into it. -/
structure DecodeTable where
  count : ℕ → ℕ
  offset : ℕ → ℕ
  symbol : List ℕ
  fast : List FastEntry

inductive Completeness where
  | complete
  | singleCodeAllowed
  deriving DecidableEq

/-- The Kraft loop of `build`: what is left of the code space, and the longest length. -/
def kraft (count : ℕ → ℕ) : ℕ → ℕ → ℤ → ℕ → Except Error (ℤ × ℕ)
  | 0, _, left, maxLen => .ok (left, maxLen)
  | fuel + 1, len, left, maxLen =>
    let left := 2 * left - count len
    if left < 0 then .error (Error.protocol "deflate: over-subscribed code")
    else kraft count fuel (len + 1) left (if count len ≠ 0 then len else maxLen)

def Completeness.allowed : Completeness → ℕ → Bool
  | .complete, maxLen => maxLen = 0
  | .singleCodeAllowed, maxLen => maxLen ≤ 1

namespace DecodeTable

/-- `count`: the code lengths that are not zero, counted. -/
def countOf (lens : List ℕ) (len : ℕ) : ℕ := if len = 0 then 0 else lens.count len

/-- `offset`: where the symbols of a length begin. -/
def offsetOf (count : ℕ → ℕ) (len : ℕ) : ℕ := ((List.range len).map count).sum

/-- `symbol`: the symbols by length, and in order within each length. -/
def symbolOf (lens : List ℕ) : List ℕ :=
  (List.range maxCodeLen).flatMap fun i =>
    (List.range lens.length).filter fun sym => lens.getD sym 0 = i + 1

/-- The stores into the fast table: each code of at most `FAST_BITS` bits. -/
def fastOf (count offset : ℕ → ℕ) (symbol : List ℕ) : List FastEntry :=
  (List.range fastBits).flatMap fun i =>
    (List.range (count (i + 1))).map fun k =>
      { len := i + 1
        sym := symbol.getD (offset (i + 1) + k) 0
        rev := reverseBits (firstCode count (i + 1) + k) (i + 1)
        pos := Nat.succ_pos i }

def ofLens (lens : List ℕ) : DecodeTable :=
  let count := countOf lens
  let offset := offsetOf count
  let symbol := symbolOf lens
  { count, offset, symbol, fast := fastOf count offset symbol }

/-- `build`. With at most 288 symbols the symbol table cannot overflow. -/
def build (lens : List ℕ) (completeness : Completeness) : Except Error DecodeTable :=
  if lens.any fun l => maxCodeLen < l then
    .error (Error.protocol "deflate: invalid code length")
  else
    match kraft (countOf lens) maxCodeLen 1 1 0 with
    | .error e => .error e
    | .ok (left, maxLen) =>
      if left ≠ 0 ∧ completeness.allowed maxLen = false then
        .error (Error.protocol "deflate: incomplete code")
      else if (lens.drop 288).any fun l => l ≠ 0 then
        .error (Error.protocol "deflate: symbol out of range")
      else .ok (ofLens lens)

def isEmpty (t : DecodeTable) : Bool := (List.range 16).all fun len => t.count len = 0

/-- `fast[idx]`: the last store at this index. -/
def lookup (t : DecodeTable) (idx : ℕ) : Option FastEntry :=
  t.fast.reverse.find? fun e => idx % 2 ^ e.len = e.rev

def walkFrom (t : DecodeTable) : ℕ → ℕ → ℕ → ℕ → BitM ℕ
  | 0, _, _, _ => fail (Error.protocol "deflate: invalid Huffman code")
  | fuel + 1, len, code, first => do
    let bit ← take 1
    let code := (code <<< 1) ||| bit
    let count := t.count len
    if first ≤ code ∧ code < first + count then
      pure (t.symbol.getD (t.offset len + (code - first)) 0)
    else walkFrom t fuel (len + 1) code ((first + count) <<< 1)

/-- The fallback of `decode_symbol`: the canonical walk, one bit at a time. -/
def walk (t : DecodeTable) : BitM ℕ := t.walkFrom maxCodeLen 1 0 0

end DecodeTable

def decodeSymbol (t : DecodeTable) : BitM ℕ := fun r =>
  if fastBits ≤ r.nbits then
    match t.lookup (r.peek fastBits) with
    | some e => (.ok e.sym, r.consume e.len)
    | none => t.walk r
  else t.walk r

/-! ### What is left to read -/

variable {t : DecodeTable}

variable {P : (α : Type) → BitM α → Prop}

theorem Composes.walkFrom (h : Composes P) (t : DecodeTable) (fuel len code first : ℕ) :
    P ℕ (t.walkFrom fuel len code first) := by
  induction fuel generalizing len code first with
  | zero => exact h.protocol _
  | succ fuel ih =>
    refine h.bind (h.take 1) fun bit => ?_
    dsimp only
    split_ifs
    · exact h.pure _
    · exact ih _ _ _

theorem size_walkFrom {fuel code first : ℕ}
    (h : t.walkFrom fuel len code first r = (.ok s,r')) : r'.size < r.size := by
  cases fuel with
  | zero => cases h
  | succ fuel =>
    refine size_bind (fun hbit => ?_) (fun bit => ?_) h
    · have hsize := size_take hbit
      omega
    · dsimp only
      split_ifs
      · exact composes_reads.pure _
      · exact composes_reads.walkFrom t _ _ _ _

theorem size_decodeSymbol (h : decodeSymbol t r = (.ok s,r')) : r'.size < r.size := by
  rw [decodeSymbol] at h
  split_ifs at h with hn
  · split at h
    · next e _ =>
      have hpos := e.pos
      cases h
      simp only [BitReader.size,BitReader.consume,fastBits] at hn ⊢
      omega
    · exact size_walkFrom h
  · exact size_walkFrom h

theorem reads_decodeSymbol (t : DecodeTable) : Reads (decodeSymbol t) := by
  intro r
  rw [decodeSymbol]
  split_ifs
  · cases t.lookup (r.peek fastBits) with
    | none => exact composes_reads.walkFrom t _ _ _ _ r
    | some e => exact r.size_consume_le _
  · exact composes_reads.walkFrom t _ _ _ _ r

/-! ### Decoding -/

/-- The codes of each length fit in the space the shorter ones leave. -/
structure Kraft (count : ℕ → ℕ) : Prop where
  zero : count 0 = 0
  room : ∀ len, 0 < len → len ≤ maxCodeLen → firstCode count len + count len ≤ 2 ^ len

theorem kraft_room {count : ℕ → ℕ} {fuel maxLen : ℕ} {left : ℤ} {p : ℤ × ℕ}
    (h : kraft count fuel (len+1) left maxLen = .ok p)
    (hleft : left = 2^len-(firstCode count len+count len : ℕ)) :
    ∀ k, len < k → k ≤ len+fuel → firstCode count k+count k ≤ 2^k := by
  induction fuel generalizing len left maxLen with
  | zero =>
    intro k hk hle
    omega
  | succ fuel ih =>
    simp only [kraft] at h
    split at h
    · cases h
    · next hneg =>
      have hnext : 2*left-(count (len+1) : ℤ) =
          2^(len+1)-(firstCode count (len+1)+count (len+1) : ℕ) := by
        rw [hleft,firstCode,Nat.shiftLeft_eq]
        push_cast
        ring
      intro k hk hle
      by_cases heq : k = len+1
      · subst heq
        have hcast : ((2^(len+1) : ℕ) : ℤ) = 2^(len+1) := by push_cast; rfl
        omega
      · exact ih h hnext k (by omega) (by omega)

namespace DecodeTable

variable {lens : List ℕ} {completeness : Completeness} {t : DecodeTable}

theorem build_eq (h : build lens completeness = .ok t) : t = ofLens lens ∧ Kraft t.count := by
  rw [build] at h
  split at h
  · cases h
  split at h
  · cases h
  · next left maxLen hk =>
    split_ifs at h
    cases h
    refine ⟨rfl,rfl,fun len hpos hle => ?_⟩
    have hroom : ∀ k, 0 < k → k ≤ 0+_ → _ := kraft_room hk rfl
    exact hroom len hpos (by simpa using hle)

theorem code_step (v k : ℕ) : ((v/2^(k+1)) <<< 1) ||| (v.testBit k).toNat = v/2^k := by
  have hbit : (v.testBit k).toNat < 2^1 := Bool.toNat_lt _
  rw [← Nat.shiftLeft_add_eq_or_of_lt hbit,Nat.toNat_testBit,Nat.shiftLeft_eq,Nat.pow_succ,
    ← Nat.div_div_eq_div_mul]
  omega

theorem takes_bit (b : Bool) : Takes (take 1) [b] b.toNat := by
  have h := takes_take (n := 1) (Bool.toNat_lt b)
  have hb : LsbBits.bits 1 b.toNat = [b] := by cases b <;> rfl
  rwa [hb] at h

theorem takes_walkFrom (t : DecodeTable) {v : ℕ}
    (hlo : firstCode t.count len ≤ v) (hhi : v < firstCode t.count len+t.count len)
    (k l fuel : ℕ) (hk : l+(k+1) = len) (hfuel : k < fuel) :
    Takes (t.walkFrom fuel (l+1) (v/2^(k+1)) (firstCode t.count (l+1)))
      (codeWord v (k+1))
      (t.symbol.getD (t.offset len+(v-firstCode t.count len)) 0) := by
  induction k generalizing l fuel with
  | zero =>
    obtain ⟨fuel,rfl⟩ := Nat.exists_eq_succ_of_ne_zero (by omega : fuel ≠ 0)
    have hlen : l+1 = len := hk
    refine Takes.bind (takes_bit _) ?_
    rw [code_step,pow_zero,Nat.div_one,hlen,if_pos ⟨hlo,hhi⟩]
    exact Takes.pure _
  | succ k ih =>
    obtain ⟨fuel,rfl⟩ := Nat.exists_eq_succ_of_ne_zero (by omega : fuel ≠ 0)
    -- the codes of this length all lie below the one that is read
    have hbelow : firstCode t.count (l+1)+t.count (l+1) ≤ v/2^(k+1) := by
      rw [Nat.le_div_iff_mul_le (Nat.two_pow_pos _)]
      have hmul := firstCode_mul_le t.count (l+1) k
      rw [show l+1+(k+1) = len by omega] at hmul
      exact hmul.trans hlo
    rw [codeWord_succ,← singleton_append,walkFrom]
    refine Takes.bind (takes_bit _) ?_
    rw [code_step,if_neg (by omega)]
    exact ih (l+1) fuel (by omega) (by omega)

theorem takes_walk (t : DecodeTable) (hkraft : Kraft t.count) (hpos : 0 < len)
    (hlen : len ≤ maxCodeLen) (hk : k < t.count len) :
    Takes t.walk (codeWord (firstCode t.count len+k) len)
      (t.symbol.getD (t.offset len+k) 0) := by
  have hroom := hkraft.room len hpos hlen
  have hfirst : firstCode t.count (0+1) = 0 := by simp [firstCode,hkraft.zero]
  obtain ⟨n,rfl⟩ := Nat.exists_eq_add_one_of_ne_zero hpos.ne'
  have h := takes_walkFrom t (Nat.le_add_right (firstCode t.count (n+1)) k) (by omega) n 0 maxCodeLen (by omega) (by omega)
  rwa [hfirst,Nat.div_eq_of_lt (by omega),Nat.add_sub_cancel_left] at h

theorem takes_lookup (hkraft : Kraft (ofLens lens).count) {idx : ℕ} {e : FastEntry}
    (h : (ofLens lens).lookup idx = some e) :
    e.len ≤ fastBits ∧ Takes (ofLens lens).walk (LsbBits.bits e.len idx) e.sym := by
  have hmem := mem_of_find?_eq_some h
  have hidx : idx%2^e.len = e.rev := by simpa using find?_some h
  rw [mem_reverse] at hmem
  obtain ⟨i,hi,hmap⟩ := mem_flatMap.1 hmem
  obtain ⟨k,hk,rfl⟩ := mem_map.1 hmap
  rw [mem_range] at hi hk
  have hword : LsbBits.bits (i+1) idx =
      codeWord (firstCode (ofLens lens).count (i+1)+k) (i+1) := by
    rw [← bits_reverseBits,← bits_mod le_rfl,hidx]
    rfl
  refine ⟨hi,?_⟩
  rw [hword]
  exact takes_walk _ hkraft (Nat.succ_pos i) (by simp only [fastBits,maxCodeLen] at hi ⊢; omega) hk

end DecodeTable

theorem bits_peek {n : ℕ} (hk : k ≤ r.nbits) (hn : n ≤ k) :
    LsbBits.bits n (r.peek k) = r.bits.take n := by
  have hlength : (r.bits.take k).length = k := by
    rw [length_take,r.length_bits]
    simp only [BitReader.size]
    omega
  have hbits := bits_value (r.bits.take k)
  rw [hlength,← BitReader.peek_eq hk] at hbits
  rw [← take_bits _ hn,hbits,take_take,min_eq_left hn]

theorem walk_of_lookup (hkraft : Kraft (DecodeTable.ofLens lens).count) {w : List Bool}
    (hr : r.Holds w) (hn : fastBits ≤ r.nbits) {e : FastEntry}
    (he : (DecodeTable.ofLens lens).lookup (r.peek fastBits) = some e) :
    ∃ u, (DecodeTable.ofLens lens).walk r = (.ok e.sym,u) ∧ u.Holds (w.drop e.len) ∧
      (r.consume e.len).Holds (w.drop e.len) := by
  obtain ⟨hle,htakes⟩ := DecodeTable.takes_lookup hkraft he
  -- the entry stands for the bits at the front of the reader
  rw [bits_peek hn hle,hr.bits] at htakes
  rw [← take_append_drop e.len w] at hr
  obtain ⟨u,hu,hholds⟩ := htakes r _ hr
  rw [take_append_drop] at hr
  exact ⟨u,hu,hholds,hr.consume (hle.trans hn)⟩

/-- `decode_symbol` reads what the walk reads, whether or not the reader holds enough bits for
the fast table. -/
theorem takes_decodeSymbol_of_walk (hkraft : Kraft (DecodeTable.ofLens lens).count) {w : List Bool}
    (h : Takes (DecodeTable.ofLens lens).walk w s) :
    Takes (decodeSymbol (DecodeTable.ofLens lens)) w s := by
  intro r rest hr
  obtain ⟨r',hwalk,hrest⟩ := h r rest hr
  rw [decodeSymbol]
  split_ifs with hn
  · cases he : (DecodeTable.ofLens lens).lookup (r.peek fastBits) with
    | none => exact ⟨r',hwalk,hrest⟩
    | some e =>
      obtain ⟨u,hu,hholds,hconsume⟩ := walk_of_lookup hkraft hr hn he
      cases hu.symm.trans hwalk
      rw [← hholds.bits,hrest.bits] at hconsume
      exact ⟨_,rfl,hconsume⟩
  · exact ⟨r',hwalk,hrest⟩

theorem takes_decodeSymbol {completeness : Completeness}
    (ht : DecodeTable.build lens completeness = .ok t) (len : ℕ) (hpos : 0 < len)
    (hlen : len ≤ maxCodeLen) (hk : k < t.count len) :
    Takes (decodeSymbol t) (codeWord (firstCode t.count len+k) len)
      (t.symbol.getD (t.offset len+k) 0) := by
  obtain ⟨rfl,hkraft⟩ := DecodeTable.build_eq ht
  exact takes_decodeSymbol_of_walk hkraft (DecodeTable.takes_walk _ hkraft hpos hlen hk)

end Courierust.Deflate
