import Courierust.Hpack.Huffman

/-!
# Huffman codes, and how the tables lead to symbols

The octets `encode` produces carry the codes of the symbols, back to back, and then
fewer than eight ones. The decoder is at a symbol boundary whenever its window starts
with a code; the tables then lead it through the code's octets to the symbol's leaf.

The facts about the code itself (lengths, and where the tables lead for each symbol)
are checked once over the whole table.
-/

namespace Courierust.Hpack.Huffman

open List
open MsbBits

/-! ### The bits of an encoded string -/

def codeBits (b : UInt8) : List Bool := bits (codeOf b.toNat).2 (codeOf b.toNat).1

def codesOf (src : List UInt8) : List Bool := src.flatMap codeBits

variable {levels : List Level} {src : List UInt8} {br : BitReader} {consumed code node : ℕ}

theorem drain_spec (acc n : ℕ) :
    stream (drain acc n).1 ++ bits (drain acc n).2 acc = bits n acc ∧ (drain acc n).2 < 8 := by
  induction n using drain.induct with
  | case1 n ih =>
    obtain ⟨ih,hlt⟩ := ih
    refine ⟨?_,hlt⟩
    have hsplit : bits (n+8) acc = bits 8 (acc >>> n) ++ bits n acc := by
      rw [Nat.add_comm,bits_add]
    rw [drain,stream_cons,append_assoc,ih,bits_ofNat,← hsplit]
  | case2 n hn =>
    have hlt : n < 8 := by
      by_contra h
      exact hn (n-8) (by omega)
    have hdrain : drain acc n = ([],n) := by
      interval_cases n <;> rfl
    simp [hdrain,hlt]

theorem huffman_lengths :
    HUFFMAN.length = 257 ∧
      HUFFMAN.all (fun (code,len) => Nat.ble 5 len && Nat.ble len 30 && Nat.blt code (2^len)) := by
  decide +kernel

variable (b : UInt8)

theorem codeOf_mem : (codeOf b.toNat,b.toNat) ∈ HUFFMAN.zipIdx := by
  have hb : b.toNat < HUFFMAN.length := by
    rw [huffman_lengths.1]
    have := b.toNat_lt
    omega
  rw [mk_mem_zipIdx_iff_getElem?,codeOf,getD_eq_getElem?_getD,
    getElem?_eq_getElem hb]
  rfl

theorem codeOf_fits : 5 ≤ (codeOf b.toNat).2 ∧ (codeOf b.toNat).2 ≤ 30 ∧
    (codeOf b.toNat).1 < 2^(codeOf b.toNat).2 := by
  have hmem : codeOf b.toNat ∈ HUFFMAN := fst_mem_of_mem_zipIdx (codeOf_mem b)
  have h := all_eq_true.1 huffman_lengths.2 _ hmem
  simp only [Bool.and_eq_true,Nat.ble_eq,Nat.blt_eq] at h
  exact ⟨h.1.1,h.1.2,h.2⟩

theorem stream_encodeFrom (src : List UInt8) (acc nbits : ℕ) (hn : nbits < 8) :
    ∃ k < 8, stream (encodeFrom src acc nbits) =
      bits nbits acc ++ codesOf src ++ List.replicate k true := by
  induction src generalizing acc nbits with
  | nil =>
    by_cases hpos : 0 < nbits
    · refine ⟨8-nbits,by omega,?_⟩
      have hfill : (1 <<< (8-nbits))-1 < 2^(8-nbits) := by
        rw [Nat.one_shiftLeft]
        exact Nat.sub_one_lt (Nat.two_pow_pos _).ne'
      have hbits := bits_shiftLeft_or (w := nbits) (v := acc) hfill
      rw [show nbits+(8-nbits) = 8 by omega,Nat.one_shiftLeft,bits_two_pow_sub_one] at hbits
      simp only [encodeFrom,if_pos hpos,stream_cons,stream_nil,bits_ofNat,append_nil,
        Nat.one_shiftLeft,hbits,codesOf,flatMap_nil]
    · refine ⟨0,by omega,?_⟩
      obtain rfl : nbits = 0 := by omega
      simp [encodeFrom,codesOf,bits]
  | cons b src ih =>
    obtain ⟨-,hle,hlt⟩ := codeOf_fits b
    simp only [encodeFrom]
    generalize hacc : (acc <<< (codeOf b.toNat).2%2^64) ||| (codeOf b.toNat).1 = acc'
    obtain ⟨hdrain,hleft⟩ := drain_spec acc' (nbits+(codeOf b.toNat).2)
    obtain ⟨k,hk,hrest⟩ := ih acc' _ hleft
    refine ⟨k,hk,?_⟩
    -- At most 37 bits are pending, so the truncation to 64 bits loses none of them.
    have hbits : bits (nbits+(codeOf b.toNat).2) acc' = bits nbits acc ++ codeBits b := by
      rw [← hacc,codeBits,← bits_shiftLeft_or hlt]
      rw [bits_eq_reverse,bits_eq_reverse]
      refine congrArg List.reverse (LsbBits.bits_congr fun i hi => ?_)
      simp only [Nat.testBit_or,Nat.testBit_mod_two_pow,show i < 64 by omega,decide_true,
        Bool.true_and]
    rw [stream_append,hrest,← append_assoc,← append_assoc,hdrain,hbits]
    simp [codesOf]

theorem stream_encode (src : List UInt8) :
    ∃ k < 8, stream (encode src) = codesOf src ++ List.replicate k true := by
  obtain ⟨k,hk,h⟩ := stream_encodeFrom src 0 0 (by omega)
  exact ⟨k,hk,by simpa [bits,encode] using h⟩

theorem five_mul_length_le (src : List UInt8) : 5*src.length ≤ (codesOf src).length := by
  induction src with
  | nil => simp
  | cons b src ih =>
    have := (codeOf_fits b).1
    simp only [codesOf,flatMap_cons,length_append,length_cons,codeBits,
      length_bits] at ih ⊢
    omega

theorem length_le_of_encode (src : List UInt8) : src.length ≤ (encode src).length*2 := by
  obtain ⟨k,-,h⟩ := stream_encode src
  have hlen := congrArg length h
  have := five_mul_length_le src
  simp only [length_stream,length_append,length_replicate] at hlen
  omega

/-! ### The bit reader -/

/-- The reader stands at bit `consumed` of `src`. -/
structure At (br : BitReader) (src : List UInt8) (consumed : ℕ) : Prop where
  data : br.data = src
  bit : br.bit < 8
  pos : 8 * br.pos + br.bit = consumed

theorem At.skip (h : At br src consumed) (n : ℕ) : At (br.skip n) src (consumed+n) := by
  obtain ⟨hdata,hbit,hpos⟩ := h
  refine ⟨hdata,?_,?_⟩
  · simp only [BitReader.skip]
    omega
  · simp only [BitReader.skip]
    omega

theorem peekFrom_spec (data : List UInt8) (fuel left p b v got : ℕ) (hfuel : left ≤ fuel)
    (hb : b < 8) (hend : 8*p+b+left ≤ 8*data.length) (hv : v < 2^got) :
    bits (got+left) (BitReader.peekFrom data fuel left p b v) =
        bits got v ++ ((stream data).drop (8*p+b)).take left ∧
      BitReader.peekFrom data fuel left p b v < 2^(got+left) := by
  induction fuel generalizing left p b v got with
  | zero =>
    obtain rfl : left = 0 := by omega
    simpa [BitReader.peekFrom] using hv
  | succ fuel ih =>
    cases left with
    | zero => simpa [BitReader.peekFrom] using hv
    | succ left =>
      simp only [BitReader.peekFrom]
      generalize htake : min (8-b) (left+1) = take
      generalize hu : ((data.getD p 0).toNat >>> (8-b-take)) &&& ((1 <<< take)-1) = u
      have hmask : u = (data.getD p 0).toNat >>> (8-b-take)%2^take := by
        rw [← hu,Nat.one_shiftLeft,Nat.and_two_pow_sub_one_eq_mod]
      have hult : u < 2^take := hmask ▸ Nat.mod_lt _ (Nat.two_pow_pos _)
      have hv' : (v <<< take) ||| u < 2^(got+take) := by
        refine Nat.or_lt_two_pow ?_ ?_
        · rw [Nat.shiftLeft_eq,pow_add]
          exact Nat.mul_lt_mul_of_pos_right hv (Nat.two_pow_pos _)
        · exact lt_of_lt_of_le hult (Nat.pow_le_pow_right (by omega) (by omega))
      have hwindow : bits (got+take) ((v <<< take) ||| u) =
          bits got v ++ ((stream data).drop (8*p+b)).take take := by
        rw [bits_shiftLeft_or hult,take_drop_stream (by omega) (by omega),hmask,
          bits_mod le_rfl]
      have hsplit : ((stream data).drop (8*p+b)).take (left+1) =
          ((stream data).drop (8*p+b)).take take ++
            ((stream data).drop (8*p+b+take)).take (left+1-take) := by
        rw [← drop_drop (i := take),← take_add]
        congr 1
        omega
      have hsum : got+(left+1) = got+take+(left+1-take) := by omega
      rw [hsum,hsplit,← append_assoc,← hwindow]
      split_ifs with hnext
      · have := ih (left+1-take) (p+1) 0 _ _ (by omega) (by omega) (by omega) hv'
        rwa [show 8*(p+1)+0 = 8*p+b+take by omega] at this
      · have := ih (left+1-take) p (b+take) _ _ (by omega) (by omega) (by omega) hv'
        rwa [← Nat.add_assoc (8*p)] at this

theorem At.peek {n : ℕ} (h : At br src consumed) (hend : consumed+n ≤ 8*src.length) :
    bits n (br.peek n) = ((stream src).drop consumed).take n ∧ br.peek n < 2^n := by
  obtain ⟨rfl,hbit,rfl⟩ := h
  have := peekFrom_spec _ n n _ _ 0 0 le_rfl hbit hend (by omega)
  simpa [bits,BitReader.peek] using this

/-! ### Where the tables lead -/

/-- From `node`, the last `rem` bits of a code lead to the leaf of `sym`, whatever bits
    follow them in the window. -/
def leadsTo (levels : List Level) (sym code len : ℕ) : ℕ → ℕ → Bool
  | rem + 9, node =>
    match entry levels node ((code >>> (rem + 1)) &&& 0xFF) with
    | .next n => leadsTo levels sym code len (rem + 1) n
    | _ => false
  | rem, node =>
    (List.range (1 <<< (8 - rem))).all fun i =>
      entry levels node (((code &&& ((1 <<< rem) - 1)) <<< (8 - rem)) + i) == .leaf sym len

def levelsFit (levels : List Level) : Bool :=
  HUFFMAN.zipIdx.all fun ((code, len), sym) => leadsTo levels sym code len len 0

theorem levelsFit_buildLevels : levelsFit buildLevels = true := by decide +kernel

theorem leadsTo_buildLevels :
    leadsTo buildLevels b.toNat (codeOf b.toNat).1 (codeOf b.toNat).2 (codeOf b.toNat).2 0 :=
  all_eq_true.1 levelsFit_buildLevels _ (codeOf_mem b)

theorem leadsTo_link {sym len rem : ℕ} (hrem : 8 < rem) (h : leadsTo levels sym code len rem node) :
    ∃ n, entry levels node ((code >>> (rem-8)) &&& 0xFF) = .next n ∧
      leadsTo levels sym code len (rem-8) n := by
  obtain ⟨r,rfl⟩ : ∃ r, rem = r+9 := ⟨rem-9,by omega⟩
  rw [leadsTo] at h
  split at h
  · next n hn => exact ⟨n,hn,h⟩
  · cases h

theorem leadsTo_leaf {sym len rem v : ℕ} (hrem : rem ≤ 8)
    (h : leadsTo levels sym code len rem node) (hv : v < 2^8)
    (hbits : (bits 8 v).take rem = bits rem code) : entry levels node v = .leaf sym len := by
  have hall : ∀ i < 2^(8-rem),
      entry levels node (((code &&& ((1 <<< rem)-1)) <<< (8-rem))+i) = .leaf sym len := by
    have : leadsTo levels sym code len rem node =
        (List.range (1 <<< (8-rem))).all fun i =>
          entry levels node (((code &&& ((1 <<< rem)-1)) <<< (8-rem))+i) == .leaf sym len := by
      interval_cases rem <;> rfl
    rw [this,all_eq_true] at h
    intro i hi
    simpa using h i (by simpa [Nat.one_shiftLeft] using hi)
  -- The window is the code's bits followed by some fill.
  have hfill : v%2^(8-rem) < 2^(8-rem) := Nat.mod_lt _ (Nat.two_pow_pos _)
  have hhigh : code%2^rem = v >>> (8-rem) := by
    refine eq_of_bits_eq (Nat.mod_lt _ (Nat.two_pow_pos _)) ?_ ?_
    · rw [Nat.shiftRight_eq_div_pow]
      refine Nat.div_lt_of_lt_mul ?_
      rwa [← pow_add,show 8-rem+rem = 8 by omega]
    · rw [bits_mod le_rfl,← hbits]
      have := drop_take_bits (w := 8) (d := 0) (t := rem) (v := v) (by omega)
      simpa using this
  have hv' : v = ((code &&& ((1 <<< rem)-1)) <<< (8-rem))+v%2^(8-rem) := by
    rw [Nat.one_shiftLeft,Nat.and_two_pow_sub_one_eq_mod,hhigh,Nat.shiftLeft_eq,
      Nat.shiftRight_eq_div_pow]
    exact (Nat.div_add_mod' v _).symm
  rw [hv']
  exact hall _ hfill

/-! ### Decoding -/

section Decode

variable {levels : List Level} {src : List UInt8} {maxOut : ℕ}

variable {consumed : ℕ} {br : BitReader}

theorem At.window (h : At br src consumed) (hlt : consumed < 8*src.length) {w : ℕ}
    (hw : w = min (8*src.length-consumed) 8) :
    bits 8 (br.peek w <<< (8-w)) =
        ((stream src).drop consumed).take w ++ List.replicate (8-w) false ∧
      br.peek w <<< (8-w) < 2^8 := by
  obtain ⟨hbits,hpeek⟩ := h.peek (n := w) (by omega)
  have h8 : 8 = w+(8-w) := by omega
  constructor
  · rw [← hbits]
    nth_rewrite 1 [h8]
    exact bits_shiftLeft w (8-w) _
  · rw [Nat.shiftLeft_eq]
    calc br.peek w*2^(8-w) < 2^w*2^(8-w) :=
          Nat.mul_lt_mul_of_pos_right hpeek (Nat.two_pow_pos _)
      _ = 2^8 := by rw [← pow_add,← h8]

/-- More than eight bits of a code are left, and the next eight are there: they lead to the next
    table. -/
theorem decodeFrom_link (maxOut : ℕ) {sym len rem : ℕ} {t : List Bool}
    (hlead : leadsTo levels sym code len rem node) (h8 : 8 < rem) (hat : At br src consumed)
    (hbits : (stream src).drop consumed = t) (hlong : 8 ≤ t.length)
    (hagree : t.take 8 = (bits rem code).take 8) :
    ∃ n, entry levels node ((code >>> (rem-8)) &&& 0xFF) = .next n ∧
      leadsTo levels sym code len (rem-8) n ∧
      ∀ codeStart out fuel,
        decodeFrom levels (8*src.length) maxOut (fuel+1) br consumed codeStart node out =
          decodeFrom levels (8*src.length) maxOut fuel (br.skip 8) (consumed+8) codeStart n
            out := by
  have hcount := congrArg length hbits
  rw [length_drop,length_stream] at hcount
  obtain ⟨n,hn,hlead'⟩ := leadsTo_link h8 hlead
  obtain ⟨hwin,hlt⟩ := hat.window (w := 8) (by omega) (by omega)
  have hidx : br.peek 8 <<< (8-8) = (code >>> (rem-8)) &&& 0xFF := by
    refine eq_of_bits_eq hlt ?_ ?_
    · exact Nat.and_lt_two_pow _ (by decide)
    have hwindow := drop_take_bits (w := rem) (d := 0) (t := 8) (v := code) (by omega)
    rw [drop_zero,Nat.sub_zero] at hwindow
    rw [hwin,hbits,hagree,hwindow,show (0xFF : ℕ) = 2^8-1 from rfl,
      Nat.and_two_pow_sub_one_eq_mod,bits_mod le_rfl]
    simp
  refine ⟨n,hn,hlead',fun codeStart out fuel => ?_⟩
  rw [decodeFrom]
  simp only [if_neg (show ¬ 8*src.length-consumed = 0 by omega),
    if_neg (show ¬ 8*src.length-consumed < 8 by omega),hidx,hn]

/-- One symbol: the loop runs through the rest of its code and is at the next boundary
    with the symbol appended. It uses at most one unit of fuel per bit. -/
theorem decodeFrom_code {sym len rem : ℕ} {codeStart : ℕ} {out : List UInt8}
    {rest : List Bool} (hlead : leadsTo levels sym code len rem node) (hrem : 0 < rem)
    (hlen : consumed+rem = codeStart+len) (hat : At br src consumed)
    (hbits : (stream src).drop consumed = bits rem code ++ rest) (fuel : ℕ) (hfuel : rem ≤ fuel) :
    ∃ fuel' br', fuel ≤ fuel'+rem ∧ At br' src (consumed+rem) ∧
      decodeFrom levels (8*src.length) maxOut fuel br consumed codeStart node out =
        if sym = EOS_SYMBOL then .error .eos
        else if maxOut ≤ out.length then .error .outputLimit
        else decodeFrom levels (8*src.length) maxOut fuel' br' (consumed+rem) (consumed+rem) 0
          (out ++ [UInt8.ofNat sym]) := by
  induction rem using Nat.strong_induction_on generalizing node br consumed fuel with
  | _ rem ih =>
    have hcount := congrArg length hbits
    simp only [length_drop,length_stream,length_append,length_bits] at hcount
    obtain ⟨fuel,rfl⟩ : ∃ f, fuel = f+1 := ⟨fuel-1,by omega⟩
    have hpos : ¬ 8*src.length-consumed = 0 := by omega
    generalize hw : (if 8*src.length-consumed < 8 then 8*src.length-consumed else 8) = w
    have hw' : w = min (8*src.length-consumed) 8 := by rw [← hw]; split_ifs <;> omega
    obtain ⟨hwin,hlt⟩ := hat.window (by omega) hw'
    by_cases h8 : 8 < rem
    · -- The window is eight bits of the code and leads to the next table.
      obtain ⟨n,-,hlead',hstep⟩ := decodeFrom_link maxOut hlead h8 hat hbits
        (by simp; omega) (by rw [take_append_of_le_length (by simp; omega)])
      have hbits' : (stream src).drop (consumed+8) = bits (rem-8) code ++ rest := by
        rw [← drop_drop,hbits,drop_append_of_le_length (by simp; omega)]
        congr 1
        nth_rewrite 1 [show rem = 8+(rem-8) by omega]
        rw [bits_add,drop_left' (by simp)]
      obtain ⟨fuel',br',hle,hat',heq⟩ := ih (rem-8) (by omega) hlead' (by omega) (by omega)
        (hat.skip 8) hbits' fuel (by omega)
      rw [show consumed+8+(rem-8) = consumed+rem by omega] at hat' heq
      exact ⟨fuel',br',by omega,hat',(hstep codeStart out fuel).trans heq⟩
    · -- The code ends in this window.
      have hleaf : entry levels node (br.peek w <<< (8-w)) = .leaf sym len := by
        refine leadsTo_leaf (by omega) hlead hlt ?_
        rw [hwin,hbits,take_append_of_le_length (by simp; omega),take_take,
          show min rem w = rem by omega,take_left' (by simp)]
      refine ⟨fuel,br.skip rem,by omega,hat.skip rem,?_⟩
      have hend : codeStart+len-consumed = rem := by omega
      have hbefore : consumed < codeStart+len := by omega
      simp only [decodeFrom,hw,hleaf,if_neg hpos,hend,if_pos hbefore]
      rw [if_neg (by omega),← hlen]

end Decode

end Courierust.Hpack.Huffman
