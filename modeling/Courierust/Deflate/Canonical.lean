import Courierust.Deflate.Huffman

/-!
# The canonical code

RFC 1951 numbers the codes of each length consecutively, in the order of their symbols. The
tables decode exactly these code words, and lengths that ask for too many codes are refused.
-/

namespace Courierust.Deflate

open List
open LsbBits BitM DecodeTable

variable {lens : List ℕ} {t : DecodeTable} {r r' : BitReader} {w : List Bool} {k s n : ℕ}

/-- The symbols with codes of this length, in order. -/
def symbolsOf (lens : List ℕ) (len : ℕ) : List ℕ :=
  (List.range lens.length).filter fun sym => lens.getD sym 0 = len

/-- The bits start with the canonical code word of this symbol, which has `len` bits. -/
def StartsWith (lens : List ℕ) (w : List Bool) (s len : ℕ) : Prop :=
  0 < len ∧ ∃ k, (symbolsOf lens len)[k]? = some s ∧
    codeWord (firstCode (countOf lens) len + k) len <+: w

theorem length_symbolsOf (hn : 0 < n) : (symbolsOf lens n).length = countOf lens n := by
  have hmap : (List.range lens.length).map (lens.getD · 0) = lens :=
    ext_getElem (by simp) fun i _ hi => by simp [hi]
  rw [countOf,if_neg hn.ne']
  conv_rhs => rw [← hmap,List.count,countP_map,countP_eq_length_filter]
  rfl

theorem symbolOf_getD (hn : n < maxCodeLen) (hk : (symbolsOf lens (n+1))[k]? = some s) :
    (symbolOf lens).getD (offsetOf (countOf lens) (n+1)+k) 0 = s := by
  have hoffset : ((List.range n).flatMap fun i => symbolsOf lens (i+1)).length =
      offsetOf (countOf lens) (n+1) := by
    rw [offsetOf,range_succ_eq_map,map_cons,sum_cons,length_flatMap]
    simp [length_symbolsOf,countOf,Function.comp_def]
  obtain ⟨hlt,-⟩ := List.getElem?_eq_some_iff.1 hk
  obtain ⟨m,hm⟩ := Nat.exists_eq_add_of_lt hn
  change ((List.range maxCodeLen).flatMap fun i => symbolsOf lens (i+1)).getD _ 0 = s
  rw [getD_eq_getElem?_getD,hm,Nat.add_assoc,range_add,flatMap_append,← hoffset,
    getElem?_append_right (by omega),Nat.add_sub_cancel_left,range_succ_eq_map,map_cons,
    flatMap_cons,Nat.add_zero,getElem?_append_left hlt,hk]
  rfl

theorem codeWord_push (c : ℕ) (b : Bool) (n : ℕ) :
    codeWord ((c <<< 1) ||| b.toNat) (n+1) = codeWord c n ++ [b] := by
  rw [codeWord,LsbBits.bits,reverse_cons,← Nat.shiftLeft_add_eq_or_of_lt (Bool.toNat_lt b),
    Nat.shiftLeft_eq]
  cases b <;> simp [codeWord,Nat.add_div]

theorem walkFrom_ok {fuel c : ℕ} (hr : r.Holds w)
    (h : t.walkFrom fuel (n+1) c (firstCode t.count (n+1)) r = (.ok s,r')) :
    ∃ len k, 0 < len ∧ k < t.count len ∧
      codeWord (firstCode t.count len+k) len <+: codeWord c n ++ w := by
  induction fuel generalizing n c r w with
  | zero => cases h
  | succ fuel ih =>
    cases w with
    | nil =>
      have heof := (take_eof Nat.one_pos hr.length).1
      rcases htake : take 1 r with ⟨result,u⟩
      rw [htake] at heof
      obtain rfl : result = _ := heof
      simp only [walkFrom,bind,htake] at h
      cases h
    | cons b w =>
      obtain ⟨u,htake,hu⟩ := takes_bit b r w hr
      rw [walkFrom,bind_eq htake] at h
      split_ifs at h with hin
      · refine ⟨n+1,_,Nat.succ_pos n,Nat.sub_lt_left_of_lt_add hin.1 hin.2,?_⟩
        rw [Nat.add_sub_cancel' hin.1,codeWord_push]
        simp
      · have hnext := ih hu h
        rwa [codeWord_push,append_assoc] at hnext

theorem walk_of_decodeSymbol (hkraft : Kraft (ofLens lens).count) (hr : r.Holds w)
    (h : decodeSymbol (ofLens lens) r = (.ok s,r')) : ∃ u, (ofLens lens).walk r = (.ok s,u) := by
  rw [decodeSymbol] at h
  split_ifs at h with hn
  · split at h
    · next e he =>
      cases h
      obtain ⟨u,hu,-⟩ := walk_of_lookup hkraft hr hn he
      exact ⟨u,hu⟩
    · exact ⟨r',h⟩
  · exact ⟨r',h⟩

theorem firstCode_add (count : ℕ → ℕ) (n : ℕ) : firstCode count n+count n =
    ∑ i ∈ Finset.range (n+1), count i*2^(n-i) := by
  induction n with
  | zero => simp [firstCode]
  | succ n ih =>
    rw [firstCode,ih,Nat.shiftLeft_eq,Finset.sum_range_succ _ (n+1),Finset.sum_mul]
    congr 1
    · refine Finset.sum_congr rfl fun i hi => ?_
      rw [Finset.mem_range] at hi
      rw [Nat.sub_add_comm (by omega)]
      ring
    · simp

/-- A table that is built decodes the canonical code: a symbol exactly where its code word stands,
and no lengths are accepted that leave no room for their code words. -/
theorem decodes_canonical_code {completeness : Completeness}
    (ht : build lens completeness = .ok t) (hr : r.Holds w) :
    (∀ s len, StartsWith lens w s len →
      (∀ s' len', StartsWith lens w s' len' → s' = s) ∧
      ∃ r', decodeSymbol t r = (.ok s, r') ∧ r'.Holds (w.drop len)) ∧
    ((∃ e r', decodeSymbol t r = (.error e, r')) ↔ ∀ s len, ¬ StartsWith lens w s len) ∧
    (∀ len ∈ lens, len ≤ maxCodeLen) ∧
    ∑ len ∈ Finset.range (maxCodeLen + 1), countOf lens len * 2 ^ (maxCodeLen - len) ≤
      2 ^ maxCodeLen := by
  have hmax : ∀ len ∈ lens, len ≤ maxCodeLen := by
    rw [build] at ht
    split at ht
    · cases ht
    · next hany => simpa using hany
  obtain ⟨rfl,hkraft⟩ := build_eq ht
  have hdecode : ∀ s len, StartsWith lens w s len →
      ∃ r', decodeSymbol (ofLens lens) r = (.ok s,r') ∧ r'.Holds (w.drop len) := by
    rintro s len ⟨hpos,k,hk,rest,rfl⟩
    obtain ⟨hlt,hs⟩ := List.getElem?_eq_some_iff.1 hk
    have hmem : s ∈ symbolsOf lens len := hs ▸ getElem_mem hlt
    rw [symbolsOf,mem_filter,mem_range,decide_eq_true_eq] at hmem
    have hlen : len ≤ maxCodeLen := by
      rw [← hmem.2,getD_eq_getElem _ _ hmem.1]
      exact hmax _ (getElem_mem _)
    rw [length_symbolsOf hpos] at hlt
    obtain ⟨r',hread,hrest⟩ := takes_decodeSymbol ht len hpos hlen hlt r rest hr
    obtain ⟨n,rfl⟩ := Nat.exists_eq_add_one_of_ne_zero hpos.ne'
    rw [drop_left' (length_codeWord _ _),hread]
    exact ⟨r',congrArg (fun s => (Except.ok s,r')) (symbolOf_getD hlen hk),hrest⟩
  refine ⟨fun s len hs => ⟨fun s' len' hs' => ?_,hdecode s len hs⟩,⟨?_,fun hnone => ?_⟩,hmax,?_⟩
  · obtain ⟨u,hu,-⟩ := hdecode s len hs
    obtain ⟨u',hu',-⟩ := hdecode s' len' hs'
    cases hu.symm.trans hu'
    rfl
  · rintro ⟨e,u,hu⟩ s len hs
    obtain ⟨u',hu',-⟩ := hdecode s len hs
    cases hu.symm.trans hu'
  · rcases hread : decodeSymbol (ofLens lens) r with ⟨result,u⟩
    cases result with
    | error e => exact ⟨e,u,rfl⟩
    | ok s =>
      obtain ⟨u',hwalk⟩ := walk_of_decodeSymbol hkraft hr hread
      obtain ⟨len,k,hpos,hk,hword⟩ := walkFrom_ok hr hwalk
      have hlt : k < (symbolsOf lens len).length := (length_symbolsOf hpos).symm ▸ hk
      exact absurd ⟨hpos,k,getElem?_eq_getElem hlt,hword⟩ (hnone _ len)
  · rw [← firstCode_add]
    exact hkraft.room maxCodeLen (by decide) le_rfl

theorem decodes_canonical_code_of_four :
    build [2, 1, 3, 3] .complete = .ok (ofLens [2, 1, 3, 3]) ∧
      StartsWith [2, 1, 3, 3] (stream [0x03]) 2 3 ∧
      ∃ r', decodeSymbol (ofLens [2, 1, 3, 3]) ⟨[0x03], 0, 0, false⟩ = (.ok 2, r') := by
  have ht : build [2,1,3,3] .complete = .ok (ofLens [2,1,3,3]) := rfl
  have htwo : StartsWith [2,1,3,3] (stream [0x03]) 2 3 := ⟨by decide,0,by decide,by decide⟩
  have hr : (⟨[0x03],0,0,false⟩ : BitReader).Holds (stream [0x03]) := ⟨Nat.one_pos,rfl,rfl⟩
  obtain ⟨-,r',hr',-⟩ := (decodes_canonical_code ht hr).1 2 3 htwo
  exact ⟨ht,htwo,r',hr'⟩

end Courierust.Deflate
