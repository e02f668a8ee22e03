import Courierust.Hpack.HuffmanCorrect

/-!
# What the Huffman decoder accepts

Every long enough sequence of bits starts with a code, so any octets are the codes of a string
and a tail that starts with none. The decoder takes the tail for padding if the bits behind its
last whole window are ones; the windows before them are not looked at again.
-/

namespace Courierust.Hpack.Huffman

open MsbBits
open List

/-! ### The code is complete -/

def allCodes : List (List Bool) := HUFFMAN.map fun (code, len) => bits len code

def behind (bit : Bool) (codes : List (List Bool)) : List (List Bool) :=
  codes.filterMap fun code => if code.head? = some bit then some code.tail else none

def complete : ℕ → List (List Bool) → Bool
  | 0, codes => codes.any List.isEmpty
  | depth + 1, codes =>
    codes.any List.isEmpty ||
      complete depth (behind false codes) && complete depth (behind true codes)

def linksAway (levels : List Level) (code : ℕ) : ℕ → ℕ → Bool
  | rem + 9, node =>
    match entry levels node ((code >>> (rem + 1)) &&& 0xFF) with
    | .next n => n != 0 && linksAway levels code (rem + 1) n
    | _ => false
  | _, _ => true

variable {t : List Bool} {codes : List (List Bool)} {k : ℕ}

variable {src : List UInt8} {maxOut : ℕ}

/-- The code is complete, the tables lead away from the first one, and a code of fewer than 30
    bits is not all ones. -/
theorem tables_exact :
    (complete 30 allCodes && HUFFMAN.all (fun (code,len) => linksAway buildLevels code len 0) &&
      HUFFMAN.all fun (code,len) => Nat.blt (code+1) (2^len) || len == 30) = true := by
  decide +kernel

theorem exists_of_any_isEmpty (h : codes.any List.isEmpty = true)
    (t : List Bool) : ∃ c ∈ codes, c <+: t := by
  obtain ⟨c,hc,hnil⟩ := List.any_eq_true.1 h
  rw [List.isEmpty_iff] at hnil
  exact ⟨c,hc,hnil ▸ List.nil_prefix⟩

theorem exists_of_complete {depth : ℕ} (h : complete depth codes = true) (ht : depth ≤ t.length) :
    ∃ c ∈ codes, c <+: t := by
  induction depth generalizing codes t with
  | zero => exact exists_of_any_isEmpty h t
  | succ depth ih =>
    rw [complete,Bool.or_eq_true,Bool.and_eq_true] at h
    rcases h with h | ⟨hfalse,htrue⟩
    · exact exists_of_any_isEmpty h t
    obtain ⟨bit,rest,rfl⟩ := exists_cons_of_length_pos (by omega : 0 < t.length)
    have hside : complete depth (behind bit codes) = true := by cases bit <;> assumption
    obtain ⟨c,hc,hextends⟩ := ih hside (by simpa using ht)
    obtain ⟨code,hcode,heq⟩ := mem_filterMap.1 hc
    split_ifs at heq with hhead
    cases code with
    | nil => cases hhead
    | cons b tail =>
      obtain rfl := Option.some.inj hhead
      obtain rfl := Option.some.inj heq
      exact ⟨b :: tail,hcode,cons_prefix_cons.2 ⟨rfl,hextends⟩⟩

theorem of_mem_allCodes {c : List Bool} (hc : c ∈ allCodes) : ∃ code len sym,
    c = bits len code ∧ codeOf sym = (code,len) ∧ sym ≤ 256 ∧ 5 ≤ len ∧
      leadsTo buildLevels sym code len len 0 ∧ linksAway buildLevels code len 0 := by
  obtain ⟨⟨code,len⟩,hmem,rfl⟩ := mem_map.1 hc
  obtain ⟨sym,hsym⟩ := mem_iff_getElem?.1 hmem
  have hzip : ((code,len),sym) ∈ HUFFMAN.zipIdx := mk_mem_zipIdx_iff_getElem?.2 hsym
  have hlead := all_eq_true.1 levelsFit_buildLevels _ hzip
  have hexact := tables_exact
  rw [Bool.and_eq_true,Bool.and_eq_true,all_eq_true] at hexact
  have hlen := all_eq_true.1 huffman_lengths.2 _ hmem
  simp only [Bool.and_eq_true,Nat.ble_eq] at hlen
  have hlt := (List.getElem?_eq_some_iff.1 hsym).1
  rw [huffman_lengths.1] at hlt
  have hcode : codeOf sym = (code,len) := by
    rw [codeOf,getD_eq_getElem?_getD,hsym]
    rfl
  exact ⟨code,len,sym,rfl,hcode,by omega,hlen.1.1,hlead,hexact.1.2 _ hmem⟩

/-! ### Tails -/

def NoCode (u : List Bool) : Prop := ∀ c ∈ allCodes, ¬ c <+: u

def tailOk (u : List Bool) : Bool :=
  decide (u.length % 8 ≠ 0) && (u.drop (8 * (u.length / 8))).all id

section Tail

variable {levels : List Level} {src : List UInt8} {maxOut : ℕ}

variable {consumed rem code : ℕ} {br : BitReader}

variable {u : List Bool}

theorem isPadding_eq (hat : At br src consumed)
    (hbits : (stream src).drop consumed = u) (hpos : 0 < u.length) (hlen : u.length < 8) :
    isPadding br u.length = u.all id := by
  have hcount := congrArg length hbits
  rw [length_drop,length_stream] at hcount
  obtain ⟨hpeek,hlt⟩ := hat.peek (n := u.length) (by omega)
  rw [hbits,take_length] at hpeek
  have hones : (2 : ℕ)^u.length-1 < 2^u.length := Nat.sub_one_lt (Nat.two_pow_pos _).ne'
  rw [isPadding,Nat.one_shiftLeft,decide_eq_true hlen,Bool.true_and,Bool.eq_iff_iff,
    beq_iff_eq,all_eq_true]
  constructor
  · intro heq b hb
    rw [heq,bits_two_pow_sub_one] at hpeek
    exact eq_of_mem_replicate (hpeek ▸ hb)
  · intro hall
    refine eq_of_bits_eq hlt hones ?_
    rw [hpeek,bits_two_pow_sub_one]
    exact eq_replicate_of_mem hall

theorem take_bits (h : bits rem code <+: t) (hk : k ≤ rem) :
    (bits rem code).take k = t.take k := by
  rw [prefix_iff_eq_take.1 h,take_take,length_bits,min_eq_left hk]

theorem decodeFrom_truncated {sym len node : ℕ} {codeStart : ℕ} {out : List UInt8}
    (hlead : leadsTo levels sym code len rem node) (haway : linksAway levels code rem node)
    (hat : At br src consumed) (hbits : (stream src).drop consumed = u)
    (hle : consumed ≤ 8*src.length) (hcut : u.length < rem)
    (hextends : bits rem code <+: u ++ List.replicate 30 false)
    (hlen : consumed+rem = codeStart+len) (hstart : node ≠ 0 ∨ u ≠ []) (fuel : ℕ)
    (hfuel : u.length < fuel) :
    decodeFrom levels (8*src.length) maxOut fuel br consumed codeStart node out =
      if tailOk u then .ok out else .error .invalidCode := by
  induction hl : u.length using Nat.strong_induction_on
    generalizing rem node br consumed u fuel with
  | _ l ih =>
    have hcount := congrArg length hbits
    rw [length_drop,length_stream] at hcount
    obtain ⟨fuel,rfl⟩ : ∃ f, fuel = f+1 := ⟨fuel-1,by omega⟩
    by_cases h8 : 8 ≤ u.length
    · obtain ⟨n,hn,hlead',hstep⟩ := decodeFrom_link maxOut hlead (by omega) hat hbits
        h8 (by rw [take_bits hextends (by omega),take_append_of_le_length h8])
      obtain ⟨r,rfl⟩ : ∃ r, rem = r+9 := ⟨rem-9,by omega⟩
      have hn' : entry levels node ((code >>> (r+1)) &&& 0xFF) = .next n := hn
      rw [linksAway,hn',Bool.and_eq_true,bne_iff_ne] at haway
      have hextends' : bits (r+1) code <+: u.drop 8 ++ replicate 30 false := by
        have hdrop := hextends.drop 8
        rw [drop_append_of_le_length h8,show r+9 = 8+(r+1) by omega,bits_add,
          drop_left' (by simp)] at hdrop
        exact hdrop
      rw [hstep,ih (u.length-8) (by omega) hlead' haway.2 (hat.skip 8)
        (by rw [← drop_drop,hbits]) (by omega) (by rw [length_drop]; omega) hextends'
        (by omega) (.inl haway.1) fuel (by rw [length_drop]; omega) (by simp)]
      have htail : tailOk (u.drop 8) = tailOk u := by
        rw [tailOk,tailOk,length_drop,drop_drop,
          show 8+8*((u.length-8)/8) = 8*(u.length/8) by omega,
          show (u.length-8)%8 = u.length%8 by omega]
      rw [htail]
    · by_cases hnil : u = []
      · have hnode := hstart.resolve_right (not_not.2 hnil)
        have hend : 8*src.length-consumed = 0 := by rw [hcount,hnil]; rfl
        rw [decodeFrom]
        simp only [hend,if_pos hnode,if_true,hnil]
        rfl
      have hpos : 0 < u.length := length_pos_iff.2 hnil
      have hpad := isPadding_eq hat hbits hpos (by omega)
      have hok : tailOk u = u.all id := by
        rw [tailOk,Nat.div_eq_of_lt (by omega),Nat.mod_eq_of_lt (by omega),Nat.mul_zero,
          drop_zero,decide_eq_true hpos.ne',Bool.true_and]
      obtain ⟨hwin,hlt⟩ := hat.window (w := u.length) (by omega) (by omega)
      rw [hbits,take_length] at hwin
      have hzero : ∀ k ≤ 8, (bits 8 (br.peek u.length <<< (8-u.length))).take k =
          (u ++ replicate 30 false).take k := by
        intro k hk
        have hfill : u ++ replicate 30 false =
            u ++ replicate (8-u.length) false ++ replicate (22+u.length) false := by
          rw [append_assoc,← replicate_add]
          congr 2
          omega
        rw [hwin,hfill]
        exact (take_append_of_le_length (by simp; omega)).symm
      rw [decodeFrom]
      simp only [hcount,if_neg hpos.ne',if_pos (show u.length < 8 by omega)]
      by_cases hrem : rem ≤ 8
      · rw [leadsTo_leaf hrem hlead hlt (by rw [hzero rem hrem,
          ← take_bits hextends le_rfl,take_of_length_le (by simp)])]
        dsimp only
        rw [if_pos (by omega),hpad,hok]
      obtain ⟨n,hn,-⟩ := leadsTo_link (by omega) hlead
      have hidx : br.peek u.length <<< (8-u.length) = (code >>> (rem-8)) &&& 0xFF := by
        refine eq_of_bits_eq hlt (Nat.and_lt_two_pow _ (by decide)) ?_
        have hwindow := drop_take_bits (w := rem) (d := 0) (t := 8) (v := code) (by omega)
        rw [drop_zero,Nat.sub_zero] at hwindow
        rw [show (0xFF : ℕ) = 2^8-1 from rfl,Nat.and_two_pow_sub_one_eq_mod,
          bits_mod le_rfl,← hwindow,take_bits hextends (by omega),← hzero 8 le_rfl,
          take_of_length_le (by simp)]
      rw [hidx,hn]
      rw [hpad,hok]

end Tail

/-! ### Whole runs -/

variable {s out : List UInt8} {u : List Bool} {consumed : ℕ} {br : BitReader}

theorem decodeFrom_tail (hu : NoCode u) (hat : At br src consumed)
    (hle : consumed ≤ 8*src.length) (hbits : (stream src).drop consumed = u) (fuel : ℕ)
    (hfuel : u.length < fuel) :
    decodeFrom buildLevels (8*src.length) maxOut fuel br consumed consumed 0 out =
      if u = [] ∨ tailOk u then .ok out else .error .invalidCode := by
  have hcount := congrArg length hbits
  rw [length_drop,length_stream] at hcount
  by_cases hnil : u = []
  · obtain ⟨fuel,rfl⟩ : ∃ f, fuel = f+1 := ⟨fuel-1,by omega⟩
    have hend : 8*src.length-consumed = 0 := by rw [hcount,hnil]; rfl
    rw [if_pos (.inl hnil),decodeFrom]
    simp [hend]
  -- some code goes on where the tail ends
  have hexact := tables_exact
  rw [Bool.and_eq_true,Bool.and_eq_true] at hexact
  obtain ⟨c,hc,hextends⟩ := exists_of_complete hexact.1.1
    (t := u ++ replicate 30 false) (by simp)
  obtain ⟨code,len,sym,rfl,-,-,-,hlead,haway⟩ := of_mem_allCodes hc
  have hcut : u.length < len := by
    by_contra hshort
    have hpart : bits len code <+: u :=
      prefix_of_prefix_length_le hextends (prefix_append _ _) (by simpa using hshort)
    exact hu _ hc hpart
  rw [decodeFrom_truncated hlead haway hat hbits hle hcut hextends rfl (.inr hnil) fuel hfuel]
  simp [hnil]

theorem exists_of_decodeFrom {r : List UInt8}
    (hat : At br src consumed) (hle : consumed ≤ 8*src.length)
    (hbits : (stream src).drop consumed = t) (hout : out.length+t.length/5 ≤ maxOut)
    (fuel : ℕ) (hfuel : t.length < fuel)
    (hok : decodeFrom buildLevels (8*src.length) maxOut fuel br consumed consumed 0 out = .ok r) :
    ∃ s u, t = codesOf s ++ u ∧ NoCode u ∧ (u = [] ∨ tailOk u = true) ∧ r = out ++ s := by
  induction hl : t.length using Nat.strong_induction_on generalizing t br consumed out fuel with
  | _ l ih =>
    by_cases hno : NoCode t
    · rw [decodeFrom_tail hno hat hle hbits fuel hfuel] at hok
      split_ifs at hok with htail
      cases hok
      exact ⟨[],t,rfl,hno,htail,(append_nil _).symm⟩
    rw [NoCode] at hno
    push Not at hno
    obtain ⟨c,hc,rest,hrest⟩ := hno
    obtain ⟨code,len,sym,rfl,hcode,hsym,hlen,hlead,-⟩ := of_mem_allCodes hc
    have hsize := congrArg length hrest
    have hcount := congrArg length hbits
    rw [length_append,length_bits] at hsize
    rw [length_drop,length_stream] at hcount
    obtain ⟨fuel',br',hf,hat',heq⟩ := decodeFrom_code hlead (by omega) rfl hat
      (hbits.trans hrest.symm) fuel (by omega)
    rw [heq] at hok
    by_cases heos : sym = EOS_SYMBOL
    · rw [if_pos heos] at hok
      cases hok
    rw [if_neg heos,if_neg (by omega)] at hok
    obtain ⟨s,u,hsplit,hu,htail,hr⟩ := ih rest.length (by omega) hat' (by omega)
      (by rw [← drop_drop,hbits,← hrest,drop_left' (by simp)])
      (by rw [length_append,length_singleton]; omega) fuel' (by omega) hok rfl
    have hlt : sym < 256 := by
      unfold EOS_SYMBOL at heos
      omega
    have hsymbol : codeBits (UInt8.ofNat sym) = bits len code := by
      rw [codeBits,UInt8.toNat_ofNat',Nat.mod_eq_of_lt hlt,hcode]
    refine ⟨UInt8.ofNat sym :: s,u,?_,hu,htail,by rw [hr,append_assoc]; rfl⟩
    rw [codesOf,flatMap_cons,hsymbol,append_assoc,← codesOf,← hsplit,hrest]

theorem decodeFrom_codes_tail (s : List UInt8) (hu : NoCode u)
    (hat : At br src consumed) (hle : consumed ≤ 8*src.length)
    (hbits : (stream src).drop consumed = codesOf s ++ u) (hout : out.length+s.length ≤ maxOut)
    (fuel : ℕ) (hfuel : 8*src.length-consumed < fuel) :
    decodeFrom buildLevels (8*src.length) maxOut fuel br consumed consumed 0 out =
      if u = [] ∨ tailOk u then .ok (out ++ s) else .error .invalidCode := by
  induction s generalizing br consumed out fuel with
  | nil =>
    have hcount := congrArg length hbits
    rw [append_nil]
    exact decodeFrom_tail hu hat hle hbits fuel (by simp [codesOf] at hcount; omega)
  | cons b s ih =>
    have hcount := congrArg length hbits
    simp only [codesOf,flatMap_cons,append_assoc,length_drop,length_stream,
      length_append,codeBits,length_bits] at hcount hbits
    have hlen := (codeOf_fits b).1
    rw [length_cons] at hout
    obtain ⟨fuel',br',hf,hat',heq⟩ := decodeFrom_code (leadsTo_buildLevels b) (by omega) rfl hat
      hbits fuel (by omega)
    rw [heq,if_neg (by have := b.toNat_lt; unfold EOS_SYMBOL; omega),if_neg (by omega),
      UInt8.ofNat_toNat,ih hat' (by omega) ?_ (by simp; omega) fuel' (by omega)]
    · rw [append_assoc]
      rfl
    · rw [← drop_drop,hbits,drop_left' (by simp)]
      rfl

theorem decode_ok_iff (hmax : 2*src.length ≤ maxOut) :
    decode src maxOut = .ok s ↔
      ∃ u, stream src = codesOf s ++ u ∧ NoCode u ∧ (u = [] ∨ tailOk u = true) := by
  have hat : At ⟨src,0,0⟩ src 0 := ⟨rfl,by simp,rfl⟩
  rw [decode,Nat.mul_comm src.length 8]
  constructor
  · intro hok
    obtain ⟨s',u,hsplit,hu,htail,rfl⟩ := exists_of_decodeFrom hat (by omega) rfl
      (by simp; omega) _ (by simp) hok
    exact ⟨u,hsplit,hu,htail⟩
  · rintro ⟨u,hsplit,hu,htail⟩
    have hcount := congrArg length hsplit
    rw [length_stream,length_append] at hcount
    have hfive := five_mul_length_le s
    rw [decodeFrom_codes_tail s hu hat (by omega) hsplit (by simp; omega) _ (by omega),
      if_pos htail]
    rfl

theorem noCode_ones (hk : k < 30) : NoCode (List.replicate k true) := by
  intro c hc hextends
  obtain ⟨⟨code,len⟩,hmem,rfl⟩ := mem_map.1 hc
  replace hextends : bits len code <+: replicate k true := hextends
  have hexact := tables_exact
  rw [Bool.and_eq_true,all_eq_true] at hexact
  have hcode := hexact.2 _ hmem
  have hlen := all_eq_true.1 huffman_lengths.2 _ hmem
  simp only [Bool.and_eq_true,Nat.ble_eq,Nat.blt_eq,Bool.or_eq_true,beq_iff_eq] at hlen hcode
  have hle := hextends.length_le
  rw [length_bits,length_replicate] at hle
  have hones : bits len code = bits len (2^len-1) := by
    rw [bits_two_pow_sub_one,prefix_iff_eq_take.1 hextends,length_bits,take_replicate,
      min_eq_left hle]
  have heq := eq_of_bits_eq hlen.2 (Nat.sub_one_lt (Nat.two_pow_pos _).ne') hones
  omega

theorem decode_encode (h : s.length ≤ maxOut) : decode (encode s) maxOut = .ok s := by
  obtain ⟨k,hk,hbits⟩ := stream_encode s
  have hat : At ⟨encode s,0,0⟩ (encode s) 0 := ⟨rfl,by simp,rfl⟩
  have htail : replicate k true = [] ∨ tailOk (replicate k true) = true := by
    interval_cases k <;> decide
  rw [decode,Nat.mul_comm,decodeFrom_codes_tail s (noCode_ones (by omega)) hat (by omega) hbits
    (by simpa using h) _ (by omega),if_pos htail,nil_append]

/-! ### The image of `encode` -/

theorem eq_of_stream_eq {a b : List UInt8} (h : stream a = stream b) : a = b := by
  induction a generalizing b with
  | nil =>
    have hlen := congrArg length h
    exact (length_eq_zero_iff.1 (by simpa using hlen.symm)).symm
  | cons x a ih =>
    cases b with
    | nil =>
      have hlen := congrArg length h
      simp at hlen
    | cons y b =>
      obtain ⟨hxy,hab⟩ := append_inj h (by simp)
      rw [ih hab,UInt8.toNat_inj.1 (eq_of_bits_eq x.toNat_lt y.toNat_lt hxy)]

theorem encode_eq_iff :
    encode s = src ↔ ∃ k < 8, stream src = codesOf s ++ List.replicate k true := by
  obtain ⟨k,hk,hencode⟩ := stream_encode s
  constructor
  · rintro rfl
    exact ⟨k,hk,hencode⟩
  · rintro ⟨k',hk',hsrc⟩
    have hlen := congrArg length hencode
    have hlen' := congrArg length hsrc
    rw [length_stream,length_append,length_replicate] at hlen hlen'
    obtain rfl : k = k' := by omega
    exact eq_of_stream_eq (hencode.trans hsrc.symm)

theorem eq_replicate_of_tailOk (hlen : u.length < 8) (h : u = [] ∨ tailOk u = true) :
    u = List.replicate u.length true := by
  rcases h with rfl | h
  · rfl
  · rw [tailOk,Nat.div_eq_of_lt hlen,Nat.mul_zero,drop_zero,Bool.and_eq_true] at h
    exact eq_replicate_of_mem (all_eq_true.1 h.2)

/-- The octets end in a code that is cut off after at least a whole window, with nothing but ones
    behind the last whole window of it. -/
def LongTail (src : List UInt8) : Prop :=
  ∃ s u, stream src = codesOf s ++ u ∧ NoCode u ∧ 8 ≤ u.length ∧ tailOk u = true

/-- The decoder accepts exactly what `encode` writes, unless the octets end in a long tail. -/
theorem decode_iff_encode (src : List UInt8) :
    ((∀ maxOut ≥ 2 * src.length, ∀ s, decode src maxOut = .ok s ↔ encode s = src) ↔
      ¬ LongTail src) ∧
    ∀ s, decode (encode s) (2 * (encode s).length) = .ok s := by
  refine ⟨⟨?_,?_⟩,fun s => ?_⟩
  · rintro h ⟨s,u,hsplit,hu,hlong,htail⟩
    have hok := (decode_ok_iff le_rfl).2 ⟨u,hsplit,hu,.inr htail⟩
    obtain ⟨k,hk,hencode⟩ := encode_eq_iff.1 ((h _ le_rfl s).1 hok)
    rw [hsplit] at hencode
    have hlen := congrArg length (append_cancel_left hencode)
    rw [length_replicate] at hlen
    omega
  · intro hshort maxOut hmax s
    constructor
    · intro hok
      obtain ⟨u,hsplit,hu,htail⟩ := (decode_ok_iff hmax).1 hok
      have hlen : u.length < 8 := by
        by_contra hlong
        have hne : u ≠ [] := by
          rintro rfl
          exact hlong (by decide)
        exact hshort ⟨s,u,hsplit,hu,by omega,htail.resolve_left hne⟩
      exact encode_eq_iff.2 ⟨u.length,hlen,eq_replicate_of_tailOk hlen htail ▸ hsplit⟩
    · rintro rfl
      have hle := length_le_of_encode s
      exact decode_encode (by omega)
  · have hle := length_le_of_encode s
    exact decode_encode (by omega)

/-- The code of `0` and eleven ones: the eight in front are not taken for padding that is too
    long. -/
theorem decode_accepts_long_padding :
    decode [0x07, 0xff] 4 = .ok [0x30] ∧ encode [0x30] = [0x07] := by
  refine ⟨(decode_ok_iff (by decide)).2 ⟨replicate 11 true,by decide,?_,by decide⟩,
    by decide⟩
  exact noCode_ones (by decide)

end Courierust.Hpack.Huffman
