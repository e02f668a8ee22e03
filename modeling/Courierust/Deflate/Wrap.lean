import Courierust.Deflate.Roundtrip

/-!
# Messages longer than 2^32 octets

Past position 2^32 the limit of the match finder is taken modulo 2^32 and no longer excludes
old positions. On a long run of zeros with a window of 256 octets the compressor then writes a
back-reference of 258 octets, which the receiver rejects.

The run is followed symbolically. Every 259 octets the compressor writes one literal and one
match of 258 octets at distance one; the literal is there because the last stored position is
258 octets back, outside the window. `wrapMessage` is laid out so that one of these literals
falls on position 2^32 + 256, where the limit is zero.
-/

namespace Courierust.Deflate

open List
open LsbBits BitM

variable {p maxOut dist len : ℕ} {tokens : List Token} {prev : ℕ → ℕ} {inf : Inflater}
variable {d : Deflater}

variable {i maxDist : ℕ} {data : List UInt8}

theorem Encodes.append {out out' out'' : List UInt8} {tokens' : List Token}
    (h : Encodes maxDist out tokens out') (h' : Encodes maxDist out' tokens' out'') :
    Encodes maxDist out (tokens ++ tokens') out'' := by
  induction h with
  | nil out => exact h'
  | literal b h ih => exact .literal b (ih h')
  | backReference hlen hdist hcode h ih => exact .backReference hlen hdist hcode (ih h')

structure Advances (data : List UInt8) (window maxDist i : ℕ) (mf : MatchFinder)
    (tokens : List Token) (j : ℕ) (mf' : MatchFinder) : Prop where
  emitted : lz77Tokens data window mf i = tokens ++ lz77Tokens data window mf' j
  encodes : Encodes maxDist (data.take i) tokens (data.take j)

namespace Advances

variable {data : List UInt8} {window maxDist i j k : ℕ} {mf mf' mf'' : MatchFinder}
  {ts ts' : List Token}

theorem trans (h : Advances data window maxDist i mf ts j mf')
    (h' : Advances data window maxDist j mf' ts' k mf'') :
    Advances data window maxDist i mf (ts ++ ts') k mf'' :=
  ⟨by rw [h.emitted,h'.emitted,append_assoc],h.encodes.append h'.encodes⟩

theorem literal (maxDist : ℕ) (hi : i < data.length) (h : ¬ Usable (findMatch data mf window i).1) :
    Advances data window maxDist i mf [.literal (data.getD i 0)] (i+1)
      (findMatch data mf window i).2 := by
  refine ⟨lz77Tokens_literal hi h,.literal _ ?_⟩
  rw [getD_eq_getElem _ _ hi,← take_succ_eq_append_getElem hi]
  exact .nil _

theorem backReference (hi : i < data.length)
    (hfound : (findMatch data mf window i).1 = (len,dist)) (husable : Usable (len,dist))
    (hrepeats : Repeats data i len dist) (hdist : dist ≤ maxDist) :
    Advances data window maxDist i mf [.backReference len dist] (i+len)
      (findMatch data mf window i).2 := by
  have htokens := lz77Tokens_match hi (show Usable (findMatch data mf window i).1 by rwa [hfound])
  rw [hfound] at htokens
  refine ⟨htokens,.backReference ⟨husable.1,hrepeats.short⟩ ⟨?_,hdist⟩ husable.2 ?_⟩
  · rw [length_take,min_eq_left hi.le]
    exact hrepeats.le
  · rw [hrepeats.repeatFrom_take]
    exact .nil _

end Advances

/-! ### The message -/

def leadIn : List UInt8 := (List.range 78).map fun i => UInt8.ofNat (i + 1)

def zeroRun (n : ℕ) : List UInt8 := leadIn ++ List.replicate n 0

theorem length_leadIn : leadIn.length = 78 := by simp [leadIn]

theorem length_zeroRun (n : ℕ) : (zeroRun n).length = 78+n := by
  rw [zeroRun,length_append,length_leadIn,length_replicate]

theorem zeroRun_lead (n : ℕ) (hi : i < 78) : (zeroRun n).getD i 0 = UInt8.ofNat (i+1) := by
  have hlen : i < leadIn.length := by rwa [length_leadIn]
  rw [zeroRun,getD_append _ _ _ _ hlen,getD_eq_getElem _ _ hlen]
  simp [leadIn]

theorem zeroRun_zero (n : ℕ) (hi : 78 ≤ i) : (zeroRun n).getD i 0 = 0 := by
  rw [zeroRun,getD_append_right _ _ _ _ (by rwa [length_leadIn])]
  by_cases hn : i-leadIn.length < n
  · exact getD_replicate 0 hn
  · exact getD_eq_default _ _ (by rw [length_replicate]; omega)

theorem hashAt_zero (n : ℕ) (hi : 78 ≤ i) : hashAt (zeroRun n) i = 0 := by
  rw [hashAt,zeroRun_zero n hi,zeroRun_zero n (by omega),zeroRun_zero n (by omega)]
  rfl

theorem search_nothing {limit steps cand : ℕ}
    (hprev : ∀ p, prev p = emptySlot ∨ prev p < p) (hcand : cand = emptySlot ∨ cand < i)
    (hne : ∀ p < i, data.getD p 0 ≠ data.getD i 0) (best : ℕ × ℕ) :
    search data prev limit i steps cand best = best := by
  induction steps generalizing cand with
  | zero => rfl
  | succ steps ih =>
    rw [search]
    by_cases hopen : cand ≠ emptySlot ∧ limit ≤ cand
    · have hlt := hcand.resolve_left hopen.1
      rw [if_pos hopen,if_neg (hne cand hlt)]
      exact ih ((hprev cand).imp_right fun h => h.trans hlt)
    · rw [if_neg hopen]

theorem matchLen_zero {cand m l : ℕ} (n : ℕ) (hcand : 78 ≤ cand) (hi : 78 ≤ i) :
    matchLen (zeroRun n) cand i m l = l+m := by
  induction m generalizing l with
  | zero => rfl
  | succ m ih =>
    rw [matchLen,if_pos (by rw [zeroRun_zero n (by omega),zeroRun_zero n (by omega)]),ih]
    omega

theorem search_zero {limit steps cand n : ℕ} (hopen : cand ≠ emptySlot)
    (hlimit : limit ≤ cand) (hcand : 78 ≤ cand) (hi : 78 ≤ i)
    (hroom : i+maxMatch ≤ (zeroRun n).length) :
    search (zeroRun n) prev limit i (steps+1) cand (0,0) = (maxMatch,i-cand) := by
  have hmin : min ((zeroRun n).length-i) maxMatch = maxMatch := by omega
  rw [search,if_pos ⟨hopen,hlimit⟩,
    if_pos (by rw [zeroRun_zero n hcand,zeroRun_zero n hi]),hmin]
  rw [matchLen_zero n hcand hi,if_pos (by decide),if_pos (by decide)]
  rfl

/-! ### The compressor on the run -/

section
variable {n : ℕ}

variable {mf : MatchFinder}

theorem advances_lead (hmf : Chained mf 0) (hdist : mf.maxDist = 256) (i : ℕ)
    (hi : i ≤ 78) (hn : 3 ≤ n) :
    ∃ mf', Advances (zeroRun n) 256 256 0 mf
        ((List.range i).map fun k => .literal (UInt8.ofNat (k+1))) i mf' ∧
      Chained mf' i ∧ mf'.maxDist = 256 := by
  induction i with
  | zero => exact ⟨mf,⟨rfl,.nil _⟩,hmf,hdist⟩
  | succ i ih =>
    obtain ⟨mf',hadv,hchained,hmax⟩ := ih (by omega)
    have hlt : i < (zeroRun n).length := by
      rw [length_zeroRun]
      omega
    have hne : ∀ p < i, (zeroRun n).getD p 0 ≠ (zeroRun n).getD i 0 := by
      intro p hp heq
      rw [zeroRun_lead n (by omega),zeroRun_lead n (by omega)] at heq
      have hnat := congrArg UInt8.toNat heq
      simp only [UInt8.toNat_ofNat'] at hnat
      omega
    have hfind : (findMatch (zeroRun n) mf' 256 i).1 = (0,0) := by
      rw [findMatch]
      split_ifs
      · exact search_nothing hchained.prev (hchained.head _) hne _
      · rfl
    obtain ⟨hchained',hmax',_⟩ := findMatch_spec 256 hlt hchained
    have hstep := Advances.literal 256 hlt
      (show ¬ Usable (findMatch (zeroRun n) mf' 256 i).1 by rw [hfind]; decide)
    rw [zeroRun_lead n (by omega)] at hstep
    refine ⟨_,?_,hchained',hmax'.trans hmax⟩
    rw [range_succ,map_append]
    exact hadv.trans hstep

theorem findMatch_firstZero (hmf : Chained mf 78) :
    (findMatch (zeroRun n) mf 256 78).1 = (0,0) := by
  rw [findMatch]
  split_ifs
  · refine search_nothing hmf.prev (hmf.head _) (fun p hp heq => ?_) _
    rw [zeroRun_lead n hp,zeroRun_zero n le_rfl] at heq
    have hnat := congrArg UInt8.toNat heq
    simp only [UInt8.toNat_ofNat',UInt8.reduceToNat] at hnat
    omega
  · rfl

theorem advances_match (hp : 78 ≤ p) (hsmall : p < 2^32-1)
    (hhead : mf.head 0 = p) (hmax : mf.maxDist = 256)
    (hroom : p+1+maxMatch ≤ (zeroRun n).length) :
    ∃ mf', Advances (zeroRun n) 256 256 (p+1) mf [.backReference maxMatch 1] (p+259) mf' ∧
      mf'.head 0 = (p+1)%2^32 ∧ mf'.maxDist = 256 := by
  have hlt : p+1 < (zeroRun n).length := by
    simp only [maxMatch] at hroom
    omega
  have hmin : p+1+minMatch ≤ (zeroRun n).length := by
    simp only [maxMatch,minMatch] at hroom ⊢
    omega
  have hfind : findMatch (zeroRun n) mf 256 (p+1) = ((maxMatch,1),mf.insert 0 (p+1)) := by
    rw [findMatch,if_pos hmin]
    dsimp only
    rw [hashAt_zero n (by omega),hhead,hmax]
    have hlimit : (p+1-min 256 256)%2^32 ≤ p := (Nat.mod_le _ _).trans (by omega)
    rw [show maxChain = 63+1 from rfl,
      search_zero (by simp only [emptySlot]; omega) hlimit hp (by omega) hroom,
      Nat.add_sub_cancel_left]
  have hstep := Advances.backReference hlt
    (show (findMatch (zeroRun n) mf 256 (p+1)).1 = (maxMatch,1) by rw [hfind]) (by decide)
    ⟨Nat.one_pos,by omega,le_rfl,hroom,fun k _ => by
      rw [zeroRun_zero n (by omega),zeroRun_zero n (by omega)]⟩ (show 1 ≤ 256 by decide)
  rw [hfind] at hstep
  exact ⟨_,hstep,mf.head_insert 0 (p+1),hmax⟩

/-- A position of the run whose last stored neighbour is outside the window is a literal. -/
theorem advances_zero (hp : 78 ≤ p)
    (hfind : (findMatch (zeroRun n) mf 256 p).1 = (0,0)) (hmax : mf.maxDist = 256)
    (hroom : p+minMatch ≤ (zeroRun n).length) :
    ∃ mf', Advances (zeroRun n) 256 256 p mf [.literal 0] (p+1) mf' ∧
      mf'.head 0 = p%2^32 ∧ mf'.maxDist = 256 := by
  have hlt : p < (zeroRun n).length := by
    simp only [minMatch] at hroom
    omega
  have hstep := Advances.literal 256 hlt
    (show ¬ Usable (findMatch (zeroRun n) mf 256 p).1 by rw [hfind]; decide)
  rw [zeroRun_zero n hp] at hstep
  refine ⟨_,hstep,?_,?_⟩
  · rw [findMatch,if_pos hroom]
    rw [hashAt_zero n hp]
    exact mf.head_insert 0 p
  · rw [findMatch,if_pos hroom]
    exact hmax

def period : List Token := [.literal 0, .backReference maxMatch 1]

/-- Each period starts where the last one ended, while the position has not wrapped around. -/
theorem advances_period (hp : 78 ≤ p) (hsmall : p < 2^32-1)
    (hfind : (findMatch (zeroRun n) mf 256 p).1 = (0,0)) (hmax : mf.maxDist = 256)
    (hroom : p+259 ≤ (zeroRun n).length) :
    ∃ mf', Advances (zeroRun n) 256 256 p mf period (p+259) mf' ∧
      mf'.head 0 = p+1 ∧ mf'.maxDist = 256 := by
  have hmin : p+minMatch ≤ (zeroRun n).length := by
    simp only [minMatch]
    omega
  have hlong : p+1+maxMatch ≤ (zeroRun n).length := by
    simp only [maxMatch]
    omega
  obtain ⟨mf₁,hlit,hhead₁,hmax₁⟩ := advances_zero hp hfind hmax hmin
  rw [Nat.mod_eq_of_lt (by omega)] at hhead₁
  obtain ⟨mf₂,hmatch,hhead₂,hmax₂⟩ := advances_match hp hsmall hhead₁ hmax₁ hlong
  rw [Nat.mod_eq_of_lt (by omega)] at hhead₂
  exact ⟨mf₂,hlit.trans hmatch,hhead₂,hmax₂⟩

theorem findMatch_outside (hp : 78+259 ≤ p) (hsmall : p < 2^32+256)
    (hhead : mf.head 0 = p-258) (hmax : mf.maxDist = 256) :
    (findMatch (zeroRun n) mf 256 p).1 = (0,0) := by
  rw [findMatch]
  split_ifs
  · dsimp only
    rw [hashAt_zero n (by omega),hhead,hmax,show maxChain = 63+1 from rfl,search,
      Nat.mod_eq_of_lt (by omega),if_neg (by omega)]
  · rfl

theorem advances_run (hmf : Chained mf 78) (hmax : mf.maxDist = 256) {m : ℕ}
    (hp : p = 78+259*(m+1)) (hsmall : p ≤ 2^32+256) (hroom : p ≤ (zeroRun n).length) :
    ∃ mf', Advances (zeroRun n) 256 256 78 mf ((List.replicate (m+1) period).flatten) p mf' ∧
      mf'.head 0 = p-258 ∧ mf'.maxDist = 256 := by
  induction m generalizing p with
  | zero =>
    obtain ⟨mf₁,hadv,hhead,hmax₁⟩ := advances_period le_rfl (by omega)
      (findMatch_firstZero (n := n) hmf) hmax (by omega)
    refine ⟨mf₁,?_,by omega,hmax₁⟩
    rw [replicate_one,flatten_singleton,hp]
    exact hadv
  | succ m ih =>
    obtain ⟨q,hq⟩ : ∃ q, q = 78+259*(m+1) := ⟨_,rfl⟩
    have hnext : p = q+259 := by
      rw [hp,hq]
      ring
    have hback : p-258 = q+1 := by omega
    obtain ⟨mf₀,hadv,hhead,hmax₀⟩ := ih hq (by omega) (by omega)
    have hfind := findMatch_outside (n := n) (by omega) (by omega) hhead hmax₀
    obtain ⟨mf₁,hperiod,hhead₁,hmax₁⟩ := advances_period (by omega) (by omega) hfind
      hmax₀ (by omega)
    rw [replicate_succ',flatten_append,flatten_singleton,hback,hnext]
    exact ⟨mf₁,hadv.trans hperiod,hhead₁,hmax₁⟩

end

/-! ### The receiver -/

theorem inflateBlock_beyond (window : List UInt8) {out out' : List UInt8} {rest : List Bool}
    (h : Encodes maxDist out tokens out') (hout : out'.length+len ≤ maxOut)
    (hlen : minMatch ≤ len ∧ len ≤ maxMatch) (hcode : (distanceCode dist).isSome)
    (hdist : maxDist < dist) {r : BitReader}
    (hr : r.Holds (tokens.flatMap Token.bits ++ ((Token.backReference len dist).bits ++ rest))) :
    ∃ r', r'.hitEof = false ∧ inflateBlock (copyFrom window maxOut maxDist) maxOut 1 r out =
      (.error (Error.protocol "deflate: back-reference beyond the negotiated window"),r',out') := by
  obtain ⟨u,hu,heq⟩ := inflateTokens_spec window h (show _ ≤ maxOut by omega) hr
  obtain ⟨r',hread,hr'⟩ := takes_token (.backReference len dist)
    (by rintro _ _ ⟨⟩; exact ⟨hlen,hcode⟩) u _ hu
  refine ⟨r',hr'.hitEof,?_⟩
  have hcopy : copyFrom window maxOut maxDist out' dist len =
      .error (Error.protocol "deflate: back-reference beyond the negotiated window") := by
    rw [copyFrom,copyMatch,if_neg (by omega),if_pos hdist]
  rw [inflateBlock,inflateHuffman,build_fixedLit,build_fixedDist]
  refine heq.trans ((inflateTokens_eq hread out').trans ?_)
  dsimp only
  rw [hcopy]

theorem inflateMessage_beyond {mf' : MatchFinder} {rest : List Token}
    (hadv : Advances data (1 <<< d.windowBits) (1 <<< inf.windowBits) 0 d.finder.prepare tokens i mf')
    (hnext : lz77Tokens data (1 <<< d.windowBits) mf' i = .backReference len dist :: rest)
    (hout : i+len ≤ maxOut) (hlen : minMatch ≤ len ∧ len ≤ maxMatch)
    (hcode : (distanceCode dist).isSome) (hdist : 1 <<< inf.windowBits < dist) :
    inf.inflateMessage
        (deflateSyncInto data d.finder.prepare {} (1 <<< d.windowBits)).1.syncFlush.out maxOut =
      (.error (Error.protocol "deflate: back-reference beyond the negotiated window"),
        inf.reset) := by
  obtain ⟨pad,hpad,hstream⟩ := stream_deflateSync data d.finder.prepare (1 <<< d.windowBits)
  generalize (deflateSyncInto data d.finder.prepare {} (1 <<< d.windowBits)).1.syncFlush.out =
    encoded at hstream ⊢
  rw [hadv.emitted,hnext] at hstream
  have hr := holds_stream (encoded ++ [0x00,0x00,0xff,0xff])
  rw [stream_append,hstream] at hr
  simp only [flatMap_append,flatMap_cons,append_assoc] at hr
  obtain ⟨r₁,hhead,hr₁⟩ := takes_blockHead (by decide) (by decide) _ _ hr
  have hencodes := hadv.encodes
  rw [take_zero] at hencodes
  obtain ⟨r₂,heof,herror⟩ := inflateBlock_beyond inf.window hencodes
    (show _ ≤ maxOut by rw [length_take]; omega) hlen hcode hdist hr₁
  rw [Inflater.inflateMessage,inflateBlocks_error hhead herror,heof]
  rfl

/-! ### The message is rejected -/

def wrapMessage : List UInt8 := zeroRun (2 ^ 32 + 436)

theorem length_wrapMessage : wrapMessage.length = 2^32+514 := length_zeroRun _

def wrapTokens : List Token :=
  ((List.range 78).map fun k => Token.literal (UInt8.ofNat (k + 1))) ++
    (List.replicate 16582886 period).flatten

theorem advances_wrapMessage {mf : MatchFinder} (hmf : Chained mf 0) (hmax : mf.maxDist = 256) :
    ∃ mf', Advances wrapMessage 256 256 0 mf wrapTokens (2^32+256) mf' ∧
      lz77Tokens wrapMessage 256 mf' (2^32+256) = [.backReference maxMatch 258] := by
  obtain ⟨n,hn⟩ : ∃ n, n = 2^32+436 := ⟨_,rfl⟩
  obtain ⟨p,hp⟩ : ∃ p, p = 2^32+256 := ⟨_,rfl⟩
  have hlen : (zeroRun n).length = p+258 := by
    rw [length_zeroRun,hn,hp]
    norm_num
  rw [wrapMessage,← hn,← hp]
  obtain ⟨mf₁,hlead,hchained,hmax₁⟩ := advances_lead (n := n) hmf hmax 78 le_rfl (by omega)
  obtain ⟨mf₂,hrun,hhead,hmax₂⟩ := advances_run (n := n) (m := 16582885) hchained hmax₁
    (by rw [hp]; norm_num) hp.le (by omega)
  refine ⟨mf₂,hlead.trans hrun,?_⟩
  have hfind : (findMatch (zeroRun n) mf₂ 256 p).1 = (maxMatch,258) := by
    rw [findMatch,if_pos (by rw [hlen]; simp only [minMatch]; omega)]
    dsimp only
    rw [hashAt_zero n (by omega),hhead,hmax₂,show maxChain = 63+1 from rfl,
      search_zero (by simp only [emptySlot]; omega) _ (by omega) (by omega)
        (by rw [hlen]; simp only [maxMatch]; omega)]
    · rw [Nat.sub_sub_self (by omega)]
    · rw [hp]
      norm_num
  have htokens := lz77Tokens_match (show p < (zeroRun n).length by omega)
    (show Usable (findMatch (zeroRun n) mf₂ 256 p).1 by rw [hfind]; decide)
  rw [hfind] at htokens
  rw [htokens,lz77Tokens_end (by rw [hlen]; simp only [maxMatch]; omega)]

theorem length_periods (k : ℕ) :
    (((List.replicate k period).flatten).flatMap Token.bits).length = 21*k := by
  induction k with
  | zero => rfl
  | succ k ih =>
    have hperiod : (period.flatMap Token.bits).length = 21 := by decide
    rw [replicate_succ,flatten_cons,flatMap_append,length_append,ih,hperiod]
    omega

theorem length_wrapTokens : (wrapTokens.flatMap Token.bits).length = 624+21*16582886 := by
  have hlead : (((List.range 78).map fun k => Token.literal (UInt8.ofNat (k+1))).flatMap
      Token.bits).length = 624 := by decide +kernel
  rw [wrapTokens,flatMap_append,length_append,hlead,length_periods]

/-- With windows of 256 octets on both sides the message is compressed, and the receiver rejects
it, whatever either side did before. -/
theorem wrapMessage_rejected (hd : d.Valid) (hbits : d.windowBits = 8)
    (hthreshold : d.threshold ≤ 2^32) (hwindow : inf.windowBits = 8)
    (hout : wrapMessage.length ≤ maxOut) :
    ∃ encoded d', d.deflateMessage wrapMessage = (some encoded,d') ∧
      inf.inflateMessage encoded maxOut =
        (.error (Error.protocol "deflate: back-reference beyond the negotiated window"),
          inf.reset) := by
  obtain ⟨i,hi⟩ := hd.chained
  have hmax : d.finder.prepare.maxDist = 256 := by
    rw [show d.finder.prepare.maxDist = d.finder.maxDist from rfl,hd.maxDist,hbits]
    rfl
  obtain ⟨mf',hadv,hlast⟩ := advances_wrapMessage hi.prepare hmax
  have hlen := length_wrapMessage
  have hbitCount := length_wrapTokens
  -- from here on the message is only known by its length and its tokens
  generalize wrapMessage = data at hadv hlast hlen hout ⊢
  generalize wrapTokens = tokens at hadv hbitCount
  have hadv' : Advances data (1 <<< d.windowBits) (1 <<< inf.windowBits) 0 d.finder.prepare tokens
      (2^32+256) mf' := by
    rw [hbits,hwindow]
    exact hadv
  have hlast' : lz77Tokens data (1 <<< d.windowBits) mf' (2^32+256) =
      [.backReference maxMatch 258] := by
    rw [hbits]
    exact hlast
  have hfits : 2^32+256+maxMatch ≤ maxOut := by
    simp only [maxMatch]
    omega
  have hreject := inflateMessage_beyond hadv' hlast' hfits (by decide) (by decide)
    (by rw [hwindow]; decide)
  obtain ⟨pad,hpad,hstream⟩ := stream_deflateSync data d.finder.prepare (1 <<< d.windowBits)
  -- twenty-one bits for every 259 octets: the message gets shorter
  have hshort : (deflateSyncInto data d.finder.prepare {} (1 <<< d.windowBits)).1.syncFlush.out.length <
      data.length := by
    have hbad : (Token.backReference maxMatch 258).bits.length = 20 := by decide
    have hcount := congrArg length hstream
    rw [length_stream,hbits,show 1 <<< 8 = 256 from rfl,hadv.emitted,hlast] at hcount
    simp only [flatMap_append,length_append,length_bits,length_codeWord,
      length_replicate,hbitCount,flatMap_cons,flatMap_nil,hbad,
      length_nil] at hcount
    rw [hbits,show 1 <<< 8 = 256 from rfl]
    omega
  have hlong : ¬ data.length < d.threshold := by
    omega
  obtain ⟨d',hsent⟩ := deflateMessage_of_shorter hlong hshort
  exact ⟨_,d',hsent,hreject⟩

end Courierust.Deflate
