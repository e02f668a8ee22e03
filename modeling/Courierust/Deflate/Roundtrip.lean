import Courierust.Deflate.Compress

/-!
# What is compressed is decompressed

The decoder reads each token the compressor writes, and so the whole message back. The
one-shot pair `deflate` and `inflate` round-trips for every input. A message of RFC 7692
round-trips when it has at most 2^32 octets, or the window is the largest one: beyond that the
compressor's limit wraps around, and a distance may exceed a smaller window.
-/

namespace Courierust.Deflate

open List
open LsbBits BitM DecodeTable

/-! ### The fixed codes -/

def fixedLit : DecodeTable := ofLens fixedLitlenLens

def fixedDist : DecodeTable := ofLens fixedDistLens

variable {out : List UInt8} {tokens : List Token} {rest : List Bool} {r₂ : BitReader} {e : Error}

set_option maxRecDepth 4000 in
theorem build_fixedLit : build fixedLitlenLens .singleCodeAllowed = .ok fixedLit := rfl

theorem build_fixedDist : build fixedDistLens .singleCodeAllowed = .ok fixedDist := rfl

/-- For each length of the two tables how many codes there are, the first of them, where their
symbols begin, and which they are. -/
theorem fixed_tables :
    (fixedLit.count 7 = 24 ∧ firstCode fixedLit.count 7 = 0 ∧ fixedLit.offset 7 = 0 ∧
      ∀ k < 24, fixedLit.symbol.getD (0+k) 0 = 256+k) ∧
    (fixedLit.count 8 = 152 ∧ firstCode fixedLit.count 8 = 48 ∧ fixedLit.offset 8 = 24 ∧
      ∀ k < 152, fixedLit.symbol.getD (24+k) 0 = if k < 144 then k else 280+(k-144)) ∧
    (fixedLit.count 9 = 112 ∧ firstCode fixedLit.count 9 = 400 ∧ fixedLit.offset 9 = 176 ∧
      ∀ k < 112, fixedLit.symbol.getD (176+k) 0 = 144+k) ∧
    fixedDist.count 5 = 32 ∧ firstCode fixedDist.count 5 = 0 ∧ fixedDist.offset 5 = 0 ∧
      ∀ k < 32, fixedDist.symbol.getD (0+k) 0 = k := by
  decide +kernel

variable {extra code k base len : ℕ}

theorem takes_fixedLit_seven (hk : k < 24) :
    Takes (decodeSymbol fixedLit) (codeWord k 7) (256+k) := by
  obtain ⟨hcount,hfirst,hoffset,hsym⟩ := fixed_tables.1
  have h := takes_decodeSymbol build_fixedLit 7 (by decide) (by decide)
    (by rwa [hcount])
  rwa [hfirst,hoffset,hsym k hk,Nat.zero_add] at h

theorem takes_fixedLit_eight {sym : ℕ} (hk : k < 152)
    (hsym : sym = if k < 144 then k else 280+(k-144)) :
    Takes (decodeSymbol fixedLit) (codeWord (48+k) 8) sym := by
  obtain ⟨hcount,hfirst,hoffset,hget⟩ := fixed_tables.2.1
  have h := takes_decodeSymbol build_fixedLit 8 (by decide) (by decide)
    (by rwa [hcount])
  rwa [hfirst,hoffset,hget k hk,← hsym] at h

theorem takes_fixedLit_nine (hk : k < 112) :
    Takes (decodeSymbol fixedLit) (codeWord (400+k) 9) (144+k) := by
  obtain ⟨hcount,hfirst,hoffset,hsym⟩ := fixed_tables.2.2.1
  have h := takes_decodeSymbol build_fixedLit 9 (by decide) (by decide)
    (by rwa [hcount])
  rwa [hfirst,hoffset,hsym k hk] at h

theorem takes_fixedDist (hk : k < 32) : Takes (decodeSymbol fixedDist) (codeWord k 5) k := by
  obtain ⟨hcount,hfirst,hoffset,hsym⟩ := fixed_tables.2.2.2
  have h := takes_decodeSymbol build_fixedDist 5 (by decide) (by decide)
    (by rwa [hcount])
  rwa [hfirst,hoffset,hsym k hk,Nat.zero_add] at h

theorem takes_literalCode (b : UInt8) :
    Takes (decodeSymbol fixedLit) (codeWord (fixedLiteralCode b).1 (fixedLiteralCode b).2)
      b.toNat := by
  have hb := b.toNat_lt
  rw [fixedLiteralCode]
  split_ifs with h
  · have hlt : b.toNat < 144 := UInt8.lt_iff_toNat_lt.1 h
    exact takes_fixedLit_eight (by omega) (if_pos hlt).symm
  · have hge : 144 ≤ b.toNat := not_lt.1 fun hlt => h (UInt8.lt_iff_toNat_lt.2 hlt)
    have hnine := takes_fixedLit_nine (k := b.toNat-144) (by omega)
    rwa [Nat.add_sub_cancel' hge] at hnine

theorem takes_lengthSymbol (hlo : 257 ≤ code) (hhi : code ≤ 285) :
    Takes (decodeSymbol fixedLit) (codeWord (fixedLengthCode code).1 (fixedLengthCode code).2)
      code := by
  rw [fixedLengthCode]
  split_ifs with h
  · have hseven := takes_fixedLit_seven (k := code-256) (by omega)
    rwa [show 256+(code-256) = code by omega] at hseven
  · have height := takes_fixedLit_eight (k := 144+(code-280)) (by omega)
      (show code = _ by rw [if_neg (by omega)]; omega)
    rwa [← Nat.add_assoc] at height

theorem takes_takeExtra {v : ℕ} (hle : base ≤ v) (hlt : v-base < 2^extra) :
    Takes (takeExtra base extra) (LsbBits.bits extra (v-base)) v := by
  rw [takeExtra]
  split_ifs with h
  · refine .bind_nil (takes_take hlt) ?_
    rw [Nat.add_sub_cancel' hle]
    exact .pure v
  · obtain rfl : extra = 0 := by omega
    obtain rfl : v = base := by omega
    exact .pure v

theorem lengthCode_isSome (hlo : minMatch ≤ len) (hhi : len ≤ maxMatch) :
    (lengthCode len).isSome := by
  have hall : ∀ n ≤ maxMatch, minMatch ≤ n → (lengthCode n).isSome := by decide +kernel
  exact hall len hhi hlo

theorem lengthCode_spec (h : lengthCode len = some (code,extra,base)) :
    257 ≤ code ∧ code ≤ 285 ∧ lengthBase.getD (code-257) (0,0) = (base,extra) ∧
      base ≤ len ∧ len-base < 2^extra := by
  rw [lengthCode] at h
  split_ifs at h with hmax
  · cases h
    subst hmax
    decide
  obtain ⟨k,rfl,hget,hle,hlt⟩ := findSpan_spec h
  have hk : k < lengthBase.length := (List.getElem?_eq_some_iff.1 hget).1
  have hlength : lengthBase.length = 29 := rfl
  refine ⟨by omega,by omega,?_,hle,hlt⟩
  rw [Nat.add_sub_cancel_left,getD_eq_getElem?_getD,hget]
  rfl

theorem distanceCode_spec {dist : ℕ} (h : distanceCode dist = some (code,extra,base)) :
    code < 30 ∧ distBase.getD code (0,0) = (base,extra) ∧ 0 < dist ∧
      base ≤ dist ∧ dist-base < 2^extra := by
  obtain ⟨k,rfl,hget,hle,hlt⟩ := findSpan_spec h
  have hk : k < distBase.length := (List.getElem?_eq_some_iff.1 hget).1
  have hpos : ∀ p ∈ distBase, 0 < p.1 := by decide
  have hbase := hpos _ (mem_of_getElem? hget)
  rw [Nat.zero_add]
  refine ⟨hk,?_,hbase.trans_le hle,hle,hlt⟩
  rw [getD_eq_getElem?_getD,hget]
  rfl

theorem takes_token (token : Token)
    (h : ∀ len dist, token = .backReference len dist →
      (minMatch ≤ len ∧ len ≤ maxMatch) ∧ (distanceCode dist).isSome) :
    Takes (readToken fixedLit fixedDist) token.bits token := by
  cases token with
  | literal b =>
    have hb := b.toNat_lt
    refine .bind_nil (takes_literalCode b) ?_
    rw [if_pos hb,UInt8.ofNat_toNat]
    exact .pure _
  | endOfBlock =>
    refine .bind_nil (takes_fixedLit_seven (by decide)) ?_
    exact .pure _
  | backReference len dist =>
    obtain ⟨⟨hlo,hhi⟩,hsome⟩ := h len dist rfl
    obtain ⟨⟨code,extra,base⟩,hlen⟩ := Option.isSome_iff_exists.1 (lengthCode_isSome hlo hhi)
    obtain ⟨⟨dcode,dextra,dbase⟩,hdist⟩ := Option.isSome_iff_exists.1 hsome
    obtain ⟨hclo,hchi,hentry,hle,hlt⟩ := lengthCode_spec hlen
    obtain ⟨hd,hdentry,hpos,hdle,hdlt⟩ := distanceCode_spec hdist
    rw [Token.bits,hlen,hdist]
    refine .bind (takes_lengthSymbol hclo hchi) ?_
    rw [if_neg (by omega),if_neg (by omega),if_pos hchi]
    rw [readMatch]
    rw [hentry]
    refine .bind (takes_takeExtra hle hlt) ?_
    refine .bind (takes_fixedDist (by omega)) ?_
    rw [if_neg (by omega),hdentry]
    refine .bind_nil (takes_takeExtra hdle hdlt) ?_
    rw [if_neg (by omega)]
    exact .pure _

/-! ### Blocks -/

section
variable {copy : List UInt8 → ℕ → ℕ → Except Error (List UInt8)} {maxOut maxDist : ℕ}

variable {r r₁ : BitReader} {out' : List UInt8} {btype bfinal : ℕ} {truncatedOk : Bool}

theorem inflateTokens_eq {lit dist : DecodeTable} {r' : BitReader} {token : Token}
    (h : readToken lit dist r = (.ok token,r')) (out : List UInt8) :
    inflateTokens copy maxOut lit dist r out =
      match token with
      | .literal octet =>
        if maxOut ≤ out.length then
          (.error (Error.overflow "deflate: output exceeds limit"),r',out)
        else inflateTokens copy maxOut lit dist r' (out ++ [octet])
      | .endOfBlock => (.ok (),r',out)
      | .backReference len distance =>
        match copy out distance len with
        | .error e => (.error e,r',out)
        | .ok out => inflateTokens copy maxOut lit dist r' out := by
  rw [inflateTokens]
  split
  · next hread => cases hread.symm.trans h
  · next token' u hread =>
    cases hread.symm.trans h
    cases token <;> rfl

theorem inflateTokens_spec (window : List UInt8) (h : Encodes maxDist out tokens out')
    (hout : out'.length ≤ maxOut)
    (hr : r.Holds (tokens.flatMap Token.bits ++ rest)) :
    ∃ r', r'.Holds rest ∧
      inflateTokens (copyFrom window maxOut maxDist) maxOut fixedLit fixedDist r out =
        inflateTokens (copyFrom window maxOut maxDist) maxOut fixedLit fixedDist r' out' := by
  induction h generalizing r with
  | nil out => exact ⟨r,hr,rfl⟩
  | @literal out out' tokens b h ih =>
    rw [flatMap_cons,append_assoc] at hr
    obtain ⟨u,hread,hu⟩ := takes_token (.literal b) (by simp) r _ hr
    obtain ⟨r',hr',heq⟩ := ih hout hu
    have hlen := h.length_le
    rw [length_append,length_singleton] at hlen
    refine ⟨r',hr',?_⟩
    rw [inflateTokens_eq hread]
    dsimp only
    rw [if_neg (by omega),heq]
  | @backReference out out' tokens len dist hlen hdist hcode h ih =>
    rw [flatMap_cons,append_assoc] at hr
    obtain ⟨u,hread,hu⟩ := takes_token (.backReference len dist)
      (by rintro _ _ ⟨⟩; exact ⟨hlen,hcode⟩) r _ hr
    obtain ⟨r',hr',heq⟩ := ih hout hu
    have hle := h.length_le
    rw [length_repeatFrom] at hle
    obtain ⟨out₁,hcopy,hout₁⟩ := copyMatch_spec window
      (by omega : out.length+len ≤ maxOut) hdist.2 (by omega)
    rw [repeatFrom_append _ _ _ _ hdist.1] at hout₁
    refine ⟨r',hr',?_⟩
    rw [inflateTokens_eq hread]
    dsimp only
    rw [copyFrom,hcopy,append_cancel_left hout₁]
    exact heq

theorem inflateBlock_fixed (window : List UInt8) (h : Encodes maxDist out tokens out')
    (hout : out'.length ≤ maxOut)
    (hr : r.Holds (tokens.flatMap Token.bits ++ (codeWord 0 7 ++ rest))) :
    ∃ r', r'.Holds rest ∧
      inflateBlock (copyFrom window maxOut maxDist) maxOut 1 r out = (.ok (),r',out') := by
  obtain ⟨u,hu,heq⟩ := inflateTokens_spec window h hout hr
  obtain ⟨r',hread,hr'⟩ := takes_token .endOfBlock (by simp) u _ hu
  refine ⟨r',hr',?_⟩
  rw [inflateBlock,inflateHuffman,build_fixedLit,build_fixedDist]
  exact heq.trans (inflateTokens_eq hread out')

theorem takes_blockHead (hf : bfinal < 2) (ht : btype < 4) :
    Takes blockHead (LsbBits.bits 1 bfinal ++ LsbBits.bits 2 btype) (bfinal,btype) := by
  refine .bind (takes_take hf) ?_
  exact .bind_nil (takes_take ht) (Takes.pure _)

theorem inflateBlocks_eq (hhead : blockHead r = (.ok (bfinal,btype),r₁))
    (hblock : inflateBlock copy maxOut btype r₁ out = (.ok (),r₂,out')) :
    inflateBlocks copy maxOut truncatedOk r out =
      if bfinal ≠ 0 then (.ok (),out')
      else inflateBlocks copy maxOut truncatedOk r₂ out' := by
  rw [inflateBlocks]
  split
  · next heq => cases heq.symm.trans hhead
  · next f t u heq =>
    cases heq.symm.trans hhead
    split
    · next heq => cases heq.symm.trans hblock
    · next v o heq =>
      cases heq.symm.trans hblock
      rfl

theorem inflateBlocks_error (hhead : blockHead r = (.ok (bfinal,btype),r₁))
    (hblock : inflateBlock copy maxOut btype r₁ out = (.error e,r₂,out')) :
    inflateBlocks copy maxOut truncatedOk r out =
      if truncatedOk && r₂.hitEof then (.ok (),out') else (.error e,out') := by
  rw [inflateBlocks]
  split
  · next heq => cases heq.symm.trans hhead
  · next f t u heq =>
    cases heq.symm.trans hhead
    split
    · next e v o heq =>
      cases heq.symm.trans hblock
      rfl
    · next heq => cases heq.symm.trans hblock

theorem inflateBlocks_headError (hhead : blockHead r = (.error e,r₁)) (out : List UInt8) :
    inflateBlocks copy maxOut truncatedOk r out =
      if truncatedOk && r₁.exhausted then (.ok (),out) else (.error e,out) := by
  rw [inflateBlocks]
  split
  · next e u heq =>
    cases heq.symm.trans hhead
    rfl
  · next heq => cases heq.symm.trans hhead

theorem blockHead_end (hr : r.size = 0) : blockHead r =
    (.error (Error.protocol "deflate: truncated bit stream"),(take 1 r).2) := by
  have htake : take 1 r = (.error (Error.protocol "deflate: truncated bit stream"),(take 1 r).2) :=
    Prod.ext (take_eof Nat.one_pos hr).1 rfl
  simp only [blockHead,bind]
  rw [htake]

theorem inflateBlocks_end (hr : r.size = 0) (out : List UInt8) :
    inflateBlocks copy maxOut true r out = (.ok (),out) := by
  rw [inflateBlocks_headError (blockHead_end hr),(take_eof Nat.one_pos hr).2]
  rfl

/-- The empty stored block of a sync flush: what is left up to an octet, and the marker. -/
theorem inflateBlock_marker {pad : ℕ} (hpad : pad < 8)
    (hr : r.Holds (List.replicate pad false ++ stream [0x00,0x00,0xff,0xff]))
    (out : List UInt8) (hout : out.length ≤ maxOut) :
    ∃ r', r'.Holds [] ∧ inflateBlock copy maxOut 0 r out = (.ok (),r',out) := by
  have halign := hr.alignByte
  rw [length_append,length_replicate,length_stream,length_cons,length_cons,
    length_cons,length_singleton,show (pad+8*(1+1+1+1))%8 = pad by omega,
    drop_left' length_replicate] at halign
  have hmarker : stream [0x00,0x00,0xff,0xff] = LsbBits.bits 16 0 ++ LsbBits.bits 16 0xffff := rfl
  have htakes : Takes storedLength (LsbBits.bits 16 0 ++ LsbBits.bits 16 0xffff) 0 := by
    refine .bind (takes_take (by decide)) ?_
    exact .bind_nil (takes_take (by decide)) (Takes.pure 0)
  obtain ⟨u,hread,hu⟩ := htakes r.alignByte [] (by rwa [append_nil,← hmarker])
  refine ⟨u.alignByte,hu.alignByte,?_⟩
  rw [inflateBlock,inflateStored,hread]
  dsimp only
  rw [if_neg (by omega),readBytes]
  simp [readAcc]

end

/-! ### Round trips -/

variable {d d' : Deflater} {encoded : List UInt8} (data : List UInt8)

theorem holds_stream : (⟨data,0,0,false⟩ : BitReader).Holds (stream data) :=
  ⟨Nat.one_pos,rfl,rfl⟩

theorem bits_block (window bfinal : ℕ) (mf : MatchFinder) :
    let w := (encodeLz77 data window ((({} : BitWriter).writeBits bfinal 1).writeBits 1 2) mf 0).1
    (w.writeBits 0 7).Valid ∧ (w.writeBits 0 7).bits =
      LsbBits.bits 1 bfinal ++ (LsbBits.bits 2 1 ++
        ((lz77Tokens data window mf 0).flatMap Token.bits ++ codeWord 0 7)) := by
  intro w
  obtain ⟨hv₁,hb₁⟩ := BitWriter.writeBits_spec (w := {}) ⟨Nat.one_pos,by decide⟩ bfinal 1
  obtain ⟨hv₂,hb₂⟩ := BitWriter.writeBits_spec hv₁ 1 2
  obtain ⟨hv₃,hb₃⟩ := bits_encodeLz77 data window hv₂ mf 0
  obtain ⟨hv₄,hb₄⟩ := BitWriter.writeBits_spec hv₃ 0 7
  refine ⟨hv₄,hb₄.trans ?_⟩
  rw [hb₃,hb₂,hb₁]
  rfl

theorem inflate_deflate {maxOut : ℕ} (hout : data.length ≤ maxOut) :
    inflate (deflate data) maxOut = .ok data := by
  obtain ⟨hvalid,hbits⟩ := bits_block data maxWindow 1 (MatchFinder.prepare {})
  obtain ⟨_,hstream⟩ := BitWriter.alignByte_spec hvalid
  have hr := holds_stream (deflate data)
  rw [show stream (deflate data) = _ from hstream,hbits] at hr
  simp only [append_assoc] at hr
  obtain ⟨r₁,hhead,hr₁⟩ := takes_blockHead (by decide) (by decide) _ _ hr
  have hencodes := encodes_lz77Tokens maxWindow maxDistance
    (Nat.zero_le data.length) (chained_default defaultWindow).prepare (.inl le_rfl)
  rw [take_zero] at hencodes
  obtain ⟨r₂,_,hblock⟩ := inflateBlock_fixed [] hencodes hout hr₁
  rw [inflate,inflateBlocks_eq hhead hblock]
  rfl

/-- A sync flush without its marker: the header of an empty stored block, and zeros up to the
next octet. -/
theorem stream_syncFlush {w : BitWriter} (hw : w.Valid) :
    ∃ pad < 8, stream w.syncFlush.out =
      w.bits ++ (LsbBits.bits 3 0 ++ List.replicate pad false) := by
  obtain ⟨hv,hb⟩ := BitWriter.writeBits_spec hw 0 3
  obtain ⟨hnbits,hstream⟩ := BitWriter.alignByte_spec hv
  have hout : w.syncFlush.out = (w.writeBits 0 3).alignByte.out := by
    rw [BitWriter.syncFlush,BitWriter.alignByte,if_neg hnbits.not_gt]
    simp
  refine ⟨(8-(w.writeBits 0 3).nbits%8)%8,Nat.mod_lt _ (by decide),?_⟩
  rw [hout,hstream,hb,append_assoc]

theorem stream_deflateSync (mf : MatchFinder) (window : ℕ) :
    ∃ pad < 8, stream (deflateSyncInto data mf {} window).1.syncFlush.out =
      LsbBits.bits 1 0 ++ (LsbBits.bits 2 1 ++ ((lz77Tokens data window mf 0).flatMap Token.bits ++
        (codeWord 0 7 ++ (LsbBits.bits 3 0 ++ List.replicate pad false)))) := by
  obtain ⟨hvalid,hblock⟩ := bits_block data window 0 mf
  obtain ⟨pad,hpad,hstream⟩ := stream_syncFlush hvalid
  rw [hblock] at hstream
  simp only [append_assoc] at hstream
  exact ⟨pad,hpad,hstream⟩

/-- The finder of a compressor holds chains of earlier messages only, and its reach is the one
of the window bits. -/
structure Deflater.Valid (d : Deflater) : Prop where
  chained : ∃ i, Chained d.finder i
  maxDist : d.finder.maxDist = min defaultWindow (1 <<< d.windowBits)

theorem Deflater.valid_default : ({} : Deflater).Valid := ⟨⟨0,chained_default _⟩,rfl⟩

theorem Deflater.Valid.setThreshold (h : d.Valid) (bytes : ℕ) :
    (d.setThreshold bytes).Valid := ⟨h.chained,h.maxDist⟩

theorem Deflater.Valid.setWindowBits (h : d.Valid) (bits : ℕ) : (d.setWindowBits bits).Valid := by
  simp only [Deflater.setWindowBits]
  split_ifs
  · obtain ⟨i,hi⟩ := h.chained
    exact ⟨⟨i,hi.head,hi.prev,hi.touched⟩,rfl⟩
  · exact h

theorem Deflater.Valid.deflateMessage (h : d.Valid) (data : List UInt8) :
    (d.deflateMessage data).2.Valid ∧ (d.deflateMessage data).2.windowBits = d.windowBits ∧
      (d.deflateMessage data).2.threshold = d.threshold := by
  obtain ⟨i,hi⟩ := h.chained
  obtain ⟨hmax,hchained⟩ := chained_encodeLz77 data (1 <<< d.windowBits)
    ((({} : BitWriter).writeBits 0 1).writeBits 1 2) hi.prepare
  have hvalid : Deflater.Valid { d with
      finder := (deflateSyncInto data d.finder.prepare {} (1 <<< d.windowBits)).2 } :=
    ⟨hchained,hmax.trans h.maxDist⟩
  rw [Deflater.deflateMessage]
  split_ifs
  · exact ⟨h,rfl,rfl⟩
  · dsimp only
    split_ifs
    · exact ⟨hvalid,rfl,rfl⟩
    · exact ⟨hvalid,rfl,rfl⟩

theorem Deflater.windowBits_deflateMessage (d : Deflater) (data : List UInt8) :
    (d.deflateMessage data).2.windowBits = d.windowBits := by
  simp only [Deflater.deflateMessage]
  split_ifs <;> rfl

theorem deflateMessage_eq {data : List UInt8} (h : d.deflateMessage data = (some encoded,d')) :
    (deflateSyncInto data d.finder.prepare {} (1 <<< d.windowBits)).1.syncFlush.out = encoded ∧
      encoded.length < data.length := by
  simp only [Deflater.deflateMessage] at h
  split_ifs at h with hthreshold hlong
  all_goals cases h
  exact ⟨rfl,not_le.1 hlong⟩

theorem deflateMessage_of_shorter {data : List UInt8} (hlong : ¬ data.length < d.threshold)
    (hshort : (deflateSyncInto data d.finder.prepare {} (1 <<< d.windowBits)).1.syncFlush.out.length <
      data.length) :
    ∃ d', d.deflateMessage data =
      (some (deflateSyncInto data d.finder.prepare {} (1 <<< d.windowBits)).1.syncFlush.out,d') := by
  rw [Deflater.deflateMessage,if_neg hlong]
  exact ⟨_,if_neg (not_le.2 hshort)⟩

/-- A compressed message is decompressed by every receiver whose window is at least the sender's,
whatever it keeps of earlier messages, if that is the largest window or the message has at most
2^32 octets. -/
theorem inflateMessage_deflateMessage (hd : d.Valid) {data : List UInt8}
    (h : d.deflateMessage data = (some encoded,d')) {inf : Inflater}
    (hsmall : 15 ≤ inf.windowBits ∨ data.length ≤ 2^32)
    (hbits : d.windowBits ≤ inf.windowBits) {maxOut : ℕ} (hout : data.length ≤ maxOut) :
    inf.inflateMessage encoded maxOut = (.ok data,inf.absorb data) := by
  obtain ⟨i,hi⟩ := hd.chained
  have hencoded := (deflateMessage_eq h).1
  obtain ⟨pad,hpad,hstream⟩ := stream_deflateSync data d.finder.prepare (1 <<< d.windowBits)
  have hr := holds_stream (encoded ++ [0x00,0x00,0xff,0xff])
  rw [stream_append,← hencoded,hstream] at hr
  simp only [append_assoc] at hr
  obtain ⟨r₁,hhead₁,hr₁⟩ := takes_blockHead (by decide) (by decide) _ _ hr
  have hshift : ∀ {a}, a ≤ inf.windowBits → 1 <<< a ≤ 1 <<< inf.windowBits := by
    intro a ha
    rw [Nat.one_shiftLeft,Nat.one_shiftLeft]
    exact Nat.pow_le_pow_right (by decide) ha
  have hencodes := encodes_lz77Tokens (1 <<< d.windowBits) (1 <<< inf.windowBits)
    (Nat.zero_le data.length) hi.prepare
    (hsmall.imp hshift fun hsmall => ⟨hsmall,(min_le_left _ _).trans (hshift hbits)⟩)
  rw [take_zero] at hencodes
  obtain ⟨r₂,hr₂,hblock₁⟩ := inflateBlock_fixed inf.window hencodes hout hr₁
  obtain ⟨r₃,hhead₂,hr₃⟩ := takes_blockHead (by decide) (by decide) _ _ hr₂
  obtain ⟨r₄,hr₄,hblock₂⟩ := inflateBlock_marker hpad hr₃ data
    hout
  rw [Inflater.inflateMessage,← hencoded,inflateBlocks_eq hhead₁ hblock₁,if_neg (by decide),
    inflateBlocks_eq hhead₂ hblock₂,if_neg (by decide),inflateBlocks_end hr₄.length]

end Courierust.Deflate
