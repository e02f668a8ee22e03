import Courierust.Deflate.Gzip

/-!
# Streams that are cut short

A decoder that succeeds has seen all it needs: what it read it would read with more behind it.
A compressed stream ends with the end of its block, so no part of it inflates, and no part of a
container opens.
-/

namespace Courierust.Deflate

open List
open LsbBits BitM

/-! ### What was read -/

def Determined {α : Type} (x : BitM α) : Prop :=
  ∀ (r : BitReader) (w : List Bool) (a : α) (r' : BitReader), r.Holds w → x r = (.ok a, r') →
    ∃ u v, w = u ++ v ∧ r'.Holds v ∧ Takes x u a

section
variable {α β : Type}

theorem Determined.pure (a : α) : Determined (pure a : BitM α) := by
  intro r w b r' hr h
  cases h
  exact ⟨[],w,rfl,hr,Takes.pure a⟩

theorem Determined.bind {x : BitM α} {f : α → BitM β} (hx : Determined x)
    (hf : ∀ a, Determined (f a)) : Determined (x >>= f) := by
  intro r w b r' hr h
  rcases hread : x r with ⟨result,r₁⟩
  cases result with
  | error e =>
    simp only [Bind.bind,hread] at h
    cases h
  | ok a =>
    obtain ⟨u,v,rfl,hr₁,htakes⟩ := hx r w a r₁ hr hread
    rw [bind_eq hread] at h
    obtain ⟨u',v',rfl,hr',htakes'⟩ := hf a r₁ v b r' hr₁ h
    exact ⟨u ++ u',v',by rw [append_assoc],hr',htakes.bind htakes'⟩

end

theorem determined_take (n : ℕ) : Determined (take n) := by
  intro r w v r' hr h
  have hsize := size_take h
  have hlen : n ≤ w.length := by
    rw [← hr.length]
    omega
  have htake : (w.take n).length = n := by
    rw [length_take]
    omega
  have hbits := bits_value (w.take n)
  rw [htake] at hbits
  have hlt : value (w.take n) < 2^n := by
    have := value_lt (w.take n)
    rwa [htake] at this
  have htakes := takes_take hlt
  rw [hbits] at htakes
  obtain ⟨r₁,hread,hr₁⟩ := htakes r (w.drop n) (by rwa [take_append_drop])
  cases h.symm.trans hread
  exact ⟨w.take n,w.drop n,(take_append_drop n w).symm,hr₁,htakes⟩

theorem composes_determined : Composes fun _ x => Determined x :=
  ⟨Determined.pure,fun _ _ _ _ _ _ h => (by cases h),Determined.bind,determined_take⟩

theorem determined_decodeSymbol {lens : List ℕ} {completeness : Completeness} {t : DecodeTable}
    (ht : DecodeTable.build lens completeness = .ok t) : Determined (decodeSymbol t) := by
  obtain ⟨rfl,hkraft⟩ := DecodeTable.build_eq ht
  intro r w s r' hr h
  have hwalk : (DecodeTable.ofLens lens).walk r = (.ok s,r') →
      ∃ u v, w = u ++ v ∧ r'.Holds v ∧ Takes (decodeSymbol (DecodeTable.ofLens lens)) u s := by
    intro hwalk
    obtain ⟨u,v,hsplit,hr',htakes⟩ := composes_determined.walkFrom _ _ _ _ _ r w s r' hr hwalk
    exact ⟨u,v,hsplit,hr',takes_decodeSymbol_of_walk hkraft htakes⟩
  rw [decodeSymbol] at h
  split_ifs at h with hn
  · split at h
    · next e he =>
      cases h
      obtain ⟨hle,htakes⟩ := DecodeTable.takes_lookup hkraft he
      rw [bits_peek hn hle,hr.bits] at htakes
      exact ⟨w.take e.len,w.drop e.len,(take_append_drop e.len w).symm,
        hr.consume (hle.trans hn),takes_decodeSymbol_of_walk hkraft htakes⟩
    · exact hwalk h
  · exact hwalk h

theorem determined_readToken : Determined (readToken fixedLit fixedDist) :=
  composes_determined.readToken (determined_decodeSymbol build_fixedLit)
    (determined_decodeSymbol build_fixedDist)

/-! ### What is cut -/

section
variable {rest v missing : List Bool} {full r : BitReader}

/-- Where a computation would take `w`, on a part of the same bits it fails, or it has seen `w`
and goes on with a part of the rest. -/
theorem Determined.cut {α : Type} {x : BitM α} (hx : Determined x) {w : List Bool} {a : α}
    (htakes : Takes x w a) (hfull : full.Holds (w ++ rest)) (hr : r.Holds v)
    (hcut : v ++ missing = w ++ rest) :
    (∃ e r', x r = (.error e,r')) ∨
      ∃ (full' r' : BitReader) (v' : List Bool), x r = (.ok a,r') ∧ full'.Holds rest ∧
        r'.Holds v' ∧ v' ++ missing = rest := by
  rcases hread : x r with ⟨result,r'⟩
  cases result with
  | error e => exact .inl ⟨e,r',rfl⟩
  | ok b =>
    obtain ⟨u,v',rfl,hr',htakes'⟩ := hx r v b r' hr hread
    obtain ⟨full₁,hread₁,hfull₁⟩ := htakes full rest hfull
    rw [← hcut,append_assoc] at hfull
    obtain ⟨full₂,hread₂,hfull₂⟩ := htakes' full (v' ++ missing) hfull
    cases hread₁.symm.trans hread₂
    exact .inr ⟨full₁,r',v',rfl,hfull₁,hr',hfull₂.bits.symm.trans hfull₁.bits⟩

variable {copy : List UInt8 → ℕ → ℕ → Except Error (List UInt8)} {maxOut maxDist : ℕ}

theorem inflateTokens_error {lit dist : DecodeTable} {r' : BitReader} {e : Error}
    (h : readToken lit dist r = (.error e,r')) (out : List UInt8) :
    inflateTokens copy maxOut lit dist r out = (.error e,r',out) := by
  rw [inflateTokens]
  split
  · next e' u hread =>
    cases hread.symm.trans h
    rfl
  · next hread => cases hread.symm.trans h

/-- The tokens of an encoding are read as they were written, and none of them ends the block. -/
theorem Encodes.takes {out out' : List UInt8} {tokens : List Token}
    (h : Encodes maxDist out tokens out') : ∀ token ∈ tokens, token ≠ .endOfBlock ∧
      Takes (readToken fixedLit fixedDist) token.bits token := by
  induction h with
  | nil out => exact fun token htoken => absurd htoken not_mem_nil
  | literal b h ih => exact forall_mem_cons.2 ⟨⟨by simp,takes_token _ (by simp)⟩,ih⟩
  | backReference hlen hdist hcode h ih =>
    refine forall_mem_cons.2 ⟨⟨by simp,takes_token _ ?_⟩,ih⟩
    rintro _ _ ⟨⟩
    exact ⟨hlen,hcode⟩

/-- A block of which a part of the end is missing fails, whatever was produced before it. -/
theorem inflateTokens_cut (copy : List UInt8 → ℕ → ℕ → Except Error (List UInt8)) (maxOut : ℕ)
    {tokens : List Token}
    (htokens : ∀ token ∈ tokens, token ≠ .endOfBlock ∧
      Takes (readToken fixedLit fixedDist) token.bits token)
    (hfull : full.Holds (tokens.flatMap Token.bits ++ (codeWord 0 7 ++ rest))) (hr : r.Holds v)
    (hcut : v ++ missing = tokens.flatMap Token.bits ++ (codeWord 0 7 ++ rest))
    (hmissing : rest.length < missing.length) (out : List UInt8) :
    ∃ e, (inflateTokens copy maxOut fixedLit fixedDist r out).1 = .error e := by
  induction tokens generalizing full r v out with
  | nil =>
    obtain ⟨e,r',hread⟩ | ⟨full',r',v',_,_,_,hcut'⟩ := determined_readToken.cut
      (takes_token .endOfBlock (by simp)) hfull hr hcut
    · exact ⟨e,congrArg Prod.fst (inflateTokens_error hread out)⟩
    · have hlength := congrArg length hcut'
      rw [length_append] at hlength
      omega
  | cons token tokens ih =>
    obtain ⟨⟨hend,htakes⟩,hrest⟩ := forall_mem_cons.1 htokens
    rw [flatMap_cons,append_assoc] at hfull hcut
    obtain ⟨e,r',hread⟩ | ⟨full',r',v',hread,hfull',hr',hcut'⟩ :=
      determined_readToken.cut htakes hfull hr hcut
    · exact ⟨e,congrArg Prod.fst (inflateTokens_error hread out)⟩
    rw [inflateTokens_eq hread]
    cases token with
    | literal octet =>
      split_ifs
      · exact ⟨_,rfl⟩
      · exact ih hrest hfull' hr' hcut' _
    | endOfBlock => exact absurd rfl hend
    | backReference len distance =>
      dsimp only
      cases copy out distance len with
      | error e => exact ⟨e,rfl⟩
      | ok out' => exact ih hrest hfull' hr' hcut' _

end

theorem inflate_cut (data : List UInt8) (maxOut : ℕ) {n : ℕ} (hn : n < (deflate data).length) :
    ∃ e, inflate ((deflate data).take n) maxOut = .error e := by
  obtain ⟨hvalid,hbits⟩ := bits_block data maxWindow 1 (MatchFinder.prepare {})
  obtain ⟨_,hstream⟩ := BitWriter.alignByte_spec hvalid
  have hfull := holds_stream (deflate data)
  have hcut := congrArg stream (take_append_drop n (deflate data))
  rw [stream_append] at hcut
  rw [show stream (deflate data) = _ from hstream,hbits] at hfull hcut
  simp only [append_assoc] at hfull hcut
  -- The padding of the last octet is shorter than an octet, so a missing octet is missing bits
  -- of the block.
  have hmissing : ∀ pad < 8, (replicate pad false).length <
      (stream ((deflate data).drop n)).length := by
    intro pad hpad
    rw [length_replicate,length_stream,length_drop]
    omega
  have hencodes := encodes_lz77Tokens maxWindow maxDistance
    (Nat.zero_le data.length) (chained_default defaultWindow).prepare (.inl le_rfl)
  rw [inflate]
  obtain ⟨e,r',hhead⟩ | ⟨full',r',v',hhead,hfull',hr',hcut'⟩ :=
    Determined.cut composes_determined.blockHead (takes_blockHead (by decide) (by decide)) hfull (holds_stream _) hcut
  · rw [inflateBlocks_headError hhead]
    exact ⟨e,rfl⟩
  let copy := copyFrom [] maxOut maxDistance
  obtain ⟨e,htokens⟩ := inflateTokens_cut copy maxOut hencodes.takes hfull' hr' hcut'
    (hmissing _ (Nat.mod_lt _ (by decide))) []
  have hblock : inflateBlock copy maxOut 1 r' [] =
      (.error e,(inflateTokens copy maxOut fixedLit fixedDist r' []).2) := by
    rw [inflateBlock,inflateHuffman,build_fixedLit,build_fixedDist]
    exact Prod.ext htokens rfl
  rw [inflateBlocks_error hhead hblock]
  exact ⟨e,rfl⟩

theorem openStream_cut (header : List UInt8) (data trailer : List UInt8) (maxOut : ℕ) {m : ℕ}
    (hm : m < (deflate data).length+8) :
    ∃ e, openStream (header ++ (deflate data ++ trailer).take m) header.length maxOut =
      .error e := by
  obtain ⟨body,hbody⟩ : ∃ body, body = (deflate data ++ trailer).take m := ⟨_,rfl⟩
  have hlength : body.length ≤ m := by
    rw [hbody,length_take]
    exact Nat.min_le_left _ _
  have hstream : body.take (body.length-8) = (deflate data).take (body.length-8) := by
    rw [hbody,take_take,min_eq_left (by rw [← hbody]; omega),
      take_append_of_le_length (by rw [← hbody]; omega)]
  rw [← hbody,openStream,length_append]
  by_cases hshort : header.length+body.length < header.length+8
  · rw [if_pos hshort]
    exact ⟨_,rfl⟩
  obtain ⟨e,herror⟩ := inflate_cut data maxOut
    (by omega : body.length-8 < (deflate data).length)
  rw [if_neg hshort]
  rw [if_neg (by omega),drop_left,
    show header.length+body.length-8-header.length = body.length-8 by omega,hstream,herror]
  exact ⟨e,rfl⟩

theorem gunzip_cut (data : List UInt8) (maxOut : ℕ) {n : ℕ} (hn : n < (gzip data).length) :
    ∃ e, gunzip ((gzip data).take n) maxOut = .error e := by
  obtain ⟨header,hheader⟩ : ∃ header : List UInt8,
      header = [0x1f,0x8b,8,0,0,0,0,0,2,0xff] := ⟨_,rfl⟩
  obtain ⟨trailer,htrailer⟩ : ∃ trailer, trailer =
      leBytes32 (crc32 data).toNat ++ leBytes32 data.length := ⟨_,rfl⟩
  have hgzip : gzip data = header ++ (deflate data ++ trailer) := by
    rw [gzip,hheader,htrailer,append_assoc,append_assoc]
  have hlength : trailer.length = 8 := by
    rw [htrailer,length_append,length_leBytes32,length_leBytes32]
  have hten : header.length = 10 := congrArg length hheader
  rw [hgzip,length_append,length_append] at hn
  rw [hgzip,gunzip]
  by_cases hshort : ((header ++ (deflate data ++ trailer)).take n).length < 18
  · rw [if_pos (.inl hshort)]
    exact ⟨_,rfl⟩
  have hn' : 18 ≤ n := (not_lt.1 hshort).trans (length_take_le n _)
  obtain ⟨m,rfl⟩ := Nat.exists_eq_add_of_le (by omega : header.length ≤ n)
  rw [take_length_add_append] at hshort ⊢
  obtain ⟨e,herror⟩ := openStream_cut header data trailer maxOut (by omega : m < _)
  refine ⟨e,?_⟩
  obtain ⟨body,hbody⟩ : ∃ body, body = (deflate data ++ trailer).take m := ⟨_,rfl⟩
  subst hheader
  rw [if_neg]
  · change (if (8 : UInt8) ≠ 8 then _ else if (0 : UInt8) &&& 0xe0 ≠ 0 then _ else
      streamStart _ 0 >>= _) = _
    exact herror
  · rintro (h | h | h)
    · exact hshort h
    · exact h rfl
    · exact h rfl

end Courierust.Deflate
