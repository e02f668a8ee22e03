import Courierust.Deflate.Inflate

/-!
# Compression

The compressor finds repetitions through hash chains and writes one block with the fixed
Huffman codes. Positions are kept as 32-bit numbers, and so is the limit that bounds how far
back a chain is followed: both are taken modulo 2^32.
-/

namespace Courierust.Deflate

open List

def findSpan : List (ℕ × ℕ) → ℕ → ℕ → Option (ℕ × ℕ × ℕ)
  | [], _, _ => none
  | (base, extra) :: rest, index, v =>
    if base ≤ v ∧ v < base + 1 <<< extra then some (index, extra, base)
    else findSpan rest (index + 1) v

def lengthCode (len : ℕ) : Option (ℕ × ℕ × ℕ) :=
  if len = 258 then some (285, 0, 258) else findSpan lengthBase 257 len

def distanceCode (dist : ℕ) : Option (ℕ × ℕ × ℕ) := findSpan distBase 0 dist

/-- `WINDOW`. -/
def defaultWindow : ℕ := 28672

def maxWindow : ℕ := 32768

def maxChain : ℕ := 64

def minMatch : ℕ := 3

def maxMatch : ℕ := 258

/-- `EMPTY`. -/
def emptySlot : ℕ := 2 ^ 32 - 1

def hash3 (a b c : UInt8) : ℕ := ((a.toNat <<< 10) ^^^ (b.toNat <<< 5) ^^^ c.toNat) &&& (2 ^ 15 - 1)

/-- `MatchFinder`. The tables are functions; an entry never stored is empty. -/
structure MatchFinder where
  head : ℕ → ℕ := fun _ => emptySlot
  prev : ℕ → ℕ := fun _ => emptySlot
  touched : List ℕ := []
  maxDist : ℕ := defaultWindow

namespace MatchFinder

/-- `prepare`: the slots that were written are cleared. -/
def prepare (mf : MatchFinder) : MatchFinder :=
  { mf with head := fun slot => if slot ∈ mf.touched then emptySlot else mf.head slot, touched := [] }

/-- Storing position `i` under its hash. -/
def insert (mf : MatchFinder) (h i : ℕ) : MatchFinder :=
  { mf with
    prev := Function.update mf.prev i (mf.head h)
    head := Function.update mf.head h (i % 2 ^ 32)
    touched := mf.touched ++ [h] }

end MatchFinder

variable {mf : MatchFinder} {data : List UInt8} {i : ℕ} {w : BitWriter}

theorem MatchFinder.head_insert (mf : MatchFinder) (h i : ℕ) :
    (mf.insert h i).head h = i%2^32 := Function.update_self h _ mf.head

/-- `fixed_literal_code`: a code and its length. -/
def fixedLiteralCode (b : UInt8) : ℕ × ℕ :=
  if b < 144 then (0x30 + b.toNat, 8) else (0x190 + (b.toNat - 144), 9)

def fixedLengthCode (code : ℕ) : ℕ × ℕ :=
  if 257 ≤ code ∧ code ≤ 279 then (code - 256, 7) else (0xc0 + (code - 280), 8)

section
variable (data : List UInt8)

/-- The loop that counts equal octets, at most `n` more. -/
def matchLen (cand i : ℕ) : ℕ → ℕ → ℕ
  | 0, l => l
  | n + 1, l =>
    if data.getD (cand + l) 0 = data.getD (i + l) 0 then matchLen cand i n (l + 1) else l

/-- The loop along a chain, at most `MAX_CHAIN` steps: length and distance of the best match. -/
def search (prev : ℕ → ℕ) (limit i : ℕ) : ℕ → ℕ → ℕ × ℕ → ℕ × ℕ
  | 0, _, best => best
  | steps + 1, cand, best =>
    if cand ≠ emptySlot ∧ limit ≤ cand then
      if data.getD cand 0 = data.getD i 0 then
        let l := matchLen data cand i (min (data.length - i) maxMatch) 0
        if minMatch ≤ l ∧ best.1 < l then
          if l = maxMatch then (l, i - cand)
          else search prev limit i steps (prev cand) (l, i - cand)
        else search prev limit i steps (prev cand) best
      else search prev limit i steps (prev cand) best
    else best

def hashAt (i : ℕ) : ℕ := hash3 (data.getD i 0) (data.getD (i + 1) 0) (data.getD (i + 2) 0)

def findMatch (mf : MatchFinder) (window i : ℕ) : (ℕ × ℕ) × MatchFinder :=
  if i + minMatch ≤ data.length then
    let h := hashAt data i
    let limit := (i - min window mf.maxDist) % 2 ^ 32
    (search data mf.prev limit i maxChain (mf.head h) (0, 0), mf.insert h i)
  else ((0, 0), mf)

end

namespace BitWriter

def writeExtra (w : BitWriter) (v extra : ℕ) : BitWriter :=
  if 0 < extra then w.writeBits v extra else w

def writeLiteral (w : BitWriter) (b : UInt8) : BitWriter :=
  w.writeBitsMsb (fixedLiteralCode b).1 (fixedLiteralCode b).2

def writeMatch (w : BitWriter) (len dist : ℕ) : BitWriter :=
  match lengthCode len, distanceCode dist with
  | some (code, extra, base), some (dcode, dextra, dbase) =>
    let w := w.writeBitsMsb (fixedLengthCode code).1 (fixedLengthCode code).2
    let w := w.writeExtra (len - base) extra
    let w := w.writeBitsMsb dcode 5
    w.writeExtra (dist - dbase) dextra
  | _, _ => w

end BitWriter

def Usable (best : ℕ × ℕ) : Prop := minMatch ≤ best.1 ∧ (distanceCode best.2).isSome

instance (best : ℕ × ℕ) : Decidable (Usable best) := by
  unfold Usable
  infer_instance

/-- `encode_lz77` from a position on. -/
def encodeLz77 (data : List UInt8) (window : ℕ) (w : BitWriter) (mf : MatchFinder) (i : ℕ) :
    BitWriter × MatchFinder :=
  if i < data.length then
    let found := findMatch data mf window i
    if h : Usable found.1 then
      have := h.1
      encodeLz77 data window (w.writeMatch found.1.1 found.1.2) found.2 (i + found.1.1)
    else encodeLz77 data window (w.writeLiteral (data.getD i 0)) found.2 (i + 1)
  else (w, mf)
termination_by data.length - i
decreasing_by
  · have hlen : 3 ≤ (findMatch data mf window i).1.1 := this
    omega
  · omega

def lz77Tokens (data : List UInt8) (window : ℕ) (mf : MatchFinder) (i : ℕ) : List Token :=
  if i < data.length then
    let found := findMatch data mf window i
    if h : Usable found.1 then
      have := h.1
      .backReference found.1.1 found.1.2 :: lz77Tokens data window found.2 (i + found.1.1)
    else .literal (data.getD i 0) :: lz77Tokens data window found.2 (i + 1)
  else []
termination_by data.length - i
decreasing_by
  · have hlen : 3 ≤ (findMatch data mf window i).1.1 := this
    omega
  · omega

section
variable {data : List UInt8} {window : ℕ} {mf : MatchFinder} {i : ℕ}

theorem lz77Tokens_match (hi : i < data.length) (h : Usable (findMatch data mf window i).1) :
    lz77Tokens data window mf i =
      .backReference (findMatch data mf window i).1.1 (findMatch data mf window i).1.2 ::
        lz77Tokens data window (findMatch data mf window i).2
          (i+(findMatch data mf window i).1.1) := by
  rw [lz77Tokens,if_pos hi,dif_pos h]

theorem lz77Tokens_literal (hi : i < data.length) (h : ¬ Usable (findMatch data mf window i).1) :
    lz77Tokens data window mf i = .literal (data.getD i 0) ::
      lz77Tokens data window (findMatch data mf window i).2 (i+1) := by
  rw [lz77Tokens,if_pos hi,dif_neg h]

theorem lz77Tokens_end (hi : ¬ i < data.length) : lz77Tokens data window mf i = [] := by
  rw [lz77Tokens,if_neg hi]

end

def deflateSyncInto (data : List UInt8) (mf : MatchFinder) (w : BitWriter) (window : ℕ) :
    BitWriter × MatchFinder :=
  let (w, mf) := encodeLz77 data window ((w.writeBits 0 1).writeBits 1 2) mf 0
  (w.writeBits 0 7, mf)

/-- `deflate`: one final block. -/
def deflate (data : List UInt8) : List UInt8 :=
  let w : BitWriter := {}
  let (w, _) := encodeLz77 data maxWindow ((w.writeBits 1 1).writeBits 1 2)
    (MatchFinder.prepare {}) 0
  (w.writeBits 0 7).alignByte.out

/-- `Deflater`. Its writer is reset for every message. -/
structure Deflater where
  threshold : ℕ := 128
  finder : MatchFinder := { maxDist := min defaultWindow (1 <<< 15) }
  windowBits : ℕ := 15

namespace Deflater

def setThreshold (d : Deflater) (bytes : ℕ) : Deflater := { d with threshold := bytes }

def applyWindowBits (d : Deflater) : Deflater :=
  { d with finder := { d.finder with maxDist := min defaultWindow (1 <<< d.windowBits) } }

def setWindowBits (d : Deflater) (bits : ℕ) : Deflater :=
  let bits := clampBits bits
  if bits ≠ d.windowBits then applyWindowBits { d with windowBits := bits } else d

/-- `deflate_message`: the compressed message, unless it is sent as it is. -/
def deflateMessage (d : Deflater) (data : List UInt8) : Option (List UInt8) × Deflater :=
  if data.length < d.threshold then (none, d)
  else
    let (w, finder) := deflateSyncInto data d.finder.prepare {} (1 <<< d.windowBits)
    let encoded := w.syncFlush.out
    let d := { d with finder }
    if data.length ≤ encoded.length then (none, d) else (some encoded, d)

end Deflater

/-! ### Matches -/

/-- The `len` octets at `i` repeat those `dist` before. -/
structure Repeats (data : List UInt8) (i len dist : ℕ) : Prop where
  pos : 0 < dist
  le : dist ≤ i
  short : len ≤ maxMatch
  fits : i + len ≤ data.length
  eq : ∀ k < len, data.getD (i - dist + k) 0 = data.getD (i + k) 0

theorem Repeats.repeatFrom_take {len dist : ℕ}
    (h : Repeats data i len dist) : repeatFrom dist len (data.take i) = data.take (i+len) := by
  have hlead : ∀ n ≤ len, repeatFrom dist n (data.take i) = data.take (i+n) := by
    intro n
    induction n with
    | zero =>
      intro _
      rfl
    | succ n ih =>
      intro hn
      have hfits := h.fits
      have hpos := h.pos
      have hle := h.le
      have hlt : i+n < data.length := by omega
      have hback : i+n-dist < i+n := by omega
      have hget : (data.take (i+n)).getD (i+n-dist) 0 = data.getD (i+n) 0 := by
        rw [getD_eq_getElem?_getD,getElem?_take_of_lt hback,← getD_eq_getElem?_getD,
          ← h.eq n (by omega)]
        congr 1
        omega
      have hlen : (data.take (i+n)).length = i+n := by
        rw [length_take]
        omega
      simp only [repeatFrom,ih (by omega)]
      rw [hlen,hget,getD_eq_getElem _ _ hlt,← Nat.add_assoc,
        take_succ_eq_append_getElem hlt]
  exact hlead len le_rfl

/-- The chains of a finder lead to earlier positions only, and only slots that were written
are in use. -/
structure Chained (mf : MatchFinder) (i : ℕ) : Prop where
  head : ∀ slot, mf.head slot = emptySlot ∨ mf.head slot < i
  prev : ∀ p, mf.prev p = emptySlot ∨ mf.prev p < p
  touched : ∀ slot, slot ∉ mf.touched → mf.head slot = emptySlot

theorem Chained.mono {j : ℕ} (h : Chained mf i) (hij : i ≤ j) :
    Chained mf j :=
  ⟨fun slot => (h.head slot).imp_right fun hlt => hlt.trans_le hij,h.prev,h.touched⟩

theorem chained_default (maxDist : ℕ) : Chained { maxDist } 0 :=
  ⟨fun _ => .inl rfl,fun _ => .inl rfl,fun _ _ => rfl⟩

theorem Chained.prepare (h : Chained mf i) : Chained mf.prepare 0 := by
  have hempty : ∀ slot, mf.prepare.head slot = emptySlot := by
    intro slot
    by_cases hmem : slot ∈ mf.touched
    · exact if_pos hmem
    · exact (if_neg hmem).trans (h.touched slot hmem)
  exact ⟨fun slot => .inl (hempty slot),h.prev,fun slot _ => hempty slot⟩

theorem Chained.insert (h : Chained mf i) (slot : ℕ) :
    Chained (mf.insert slot i) (i+1) := by
  refine ⟨fun s => ?_,fun p => ?_,fun s hs => ?_⟩
  · simp only [MatchFinder.insert,Function.update_apply]
    split_ifs with hs
    · exact .inr (Nat.lt_succ_of_le (Nat.mod_le _ _))
    · exact (h.head s).imp_right fun hlt => hlt.trans (Nat.lt_succ_self i)
  · simp only [MatchFinder.insert,Function.update_apply]
    split_ifs with hp
    · exact hp ▸ h.head slot
    · exact h.prev p
  · simp only [MatchFinder.insert,mem_append,mem_singleton,not_or] at hs ⊢
    rw [Function.update_of_ne hs.2]
    exact h.touched s hs.1

theorem matchLen_spec (data : List UInt8) (cand i n l : ℕ)
    (heq : ∀ k < l, data.getD (cand+k) 0 = data.getD (i+k) 0) :
    matchLen data cand i n l ≤ l+n ∧
      ∀ k < matchLen data cand i n l, data.getD (cand+k) 0 = data.getD (i+k) 0 := by
  induction n generalizing l with
  | zero => exact ⟨le_rfl,heq⟩
  | succ n ih =>
    rw [matchLen]
    split_ifs with h
    · obtain ⟨hle,hall⟩ := ih (l+1) fun k hk => by
        rcases Nat.lt_succ_iff_lt_or_eq.1 hk with hk | rfl
        · exact heq k hk
        · exact h
      exact ⟨by omega,hall⟩
    · exact ⟨by omega,heq⟩

def Found (data : List UInt8) (limit i : ℕ) (best : ℕ × ℕ) : Prop :=
  best = (0, 0) ∨ (Repeats data i best.1 best.2 ∧ limit ≤ i - best.2)

theorem search_spec {prev : ℕ → ℕ} {limit cand : ℕ} {best : ℕ × ℕ} (steps : ℕ)
    (hi : i ≤ data.length) (hprev : ∀ p, prev p = emptySlot ∨ prev p < p)
    (hcand : cand = emptySlot ∨ cand < i) (hbest : Found data limit i best) :
    Found data limit i (search data prev limit i steps cand best) := by
  induction steps generalizing cand best with
  | zero => exact hbest
  | succ steps ih =>
    rw [search]
    by_cases hopen : cand ≠ emptySlot ∧ limit ≤ cand
    · have hlt : cand < i := hcand.resolve_left hopen.1
      have hnext : prev cand = emptySlot ∨ prev cand < i :=
        (hprev cand).imp_right fun h => h.trans hlt
      rw [if_pos hopen]
      by_cases hfirst : data.getD cand 0 = data.getD i 0
      · obtain ⟨hle,heq⟩ := matchLen_spec data cand i (min (data.length-i) maxMatch) 0
          fun k hk => absurd hk (Nat.not_lt_zero k)
        have hfound : Found data limit i
            (matchLen data cand i (min (data.length-i) maxMatch) 0,i-cand) := by
          have hback : i-(i-cand) = cand := by omega
          refine .inr ⟨⟨by omega,by omega,by omega,by omega,?_⟩,?_⟩
          · rwa [hback]
          · exact hback.symm ▸ hopen.2
        dsimp only
        split_ifs
        · exact hfound
        · exact ih hnext hfound
        · exact ih hnext hbest
      · rw [if_neg hfirst]
        exact ih hnext hbest
    · rw [if_neg hopen]
      exact hbest

/-- The match at a position is a repetition, and below 2^32 it stays within the window. -/
theorem findMatch_spec (window : ℕ) (hi : i < data.length) (hmf : Chained mf i) :
    Chained (findMatch data mf window i).2 (i+1) ∧
      (findMatch data mf window i).2.maxDist = mf.maxDist ∧
      (Usable (findMatch data mf window i).1 →
        Repeats data i (findMatch data mf window i).1.1 (findMatch data mf window i).1.2 ∧
        (i < 2^32 → (findMatch data mf window i).1.2 ≤ min window mf.maxDist)) := by
  by_cases h : i+minMatch ≤ data.length
  · simp only [findMatch,if_pos h]
    refine ⟨hmf.insert _,rfl,fun husable => ?_⟩
    have hstart : Found data ((i-min window mf.maxDist)%2^32) i (0,0) := .inl rfl
    have hfound := search_spec maxChain hi.le hmf.prev (hmf.head (hashAt data i)) hstart
    generalize search data mf.prev ((i-min window mf.maxDist)%2^32) i maxChain
      (mf.head (hashAt data i)) (0,0) = best at husable hfound ⊢
    rcases hfound with rfl | ⟨hrepeats,hlimit⟩
    · exact absurd husable.1 (by decide)
    · refine ⟨hrepeats,fun hsmall => ?_⟩
      have hle := hrepeats.le
      omega
  · simp only [findMatch,if_neg h]
    exact ⟨hmf.mono (Nat.le_succ i),trivial,fun husable => absurd husable.1 (by decide)⟩

/-! ### Tokens -/

def Token.bits : Token → List Bool
  | .literal b => codeWord (fixedLiteralCode b).1 (fixedLiteralCode b).2
  | .endOfBlock => codeWord 0 7
  | .backReference len dist =>
    match lengthCode len, distanceCode dist with
    | some (code, extra, base), some (dcode, dextra, dbase) =>
      codeWord (fixedLengthCode code).1 (fixedLengthCode code).2 ++
        (LsbBits.bits extra (len - base) ++ (codeWord dcode 5 ++ LsbBits.bits dextra (dist - dbase)))
    | _, _ => []

/-- The tokens lead from one output to another, with no distance above `maxDist`. -/
inductive Encodes (maxDist : ℕ) : List UInt8 → List Token → List UInt8 → Prop
  | nil (out : List UInt8) : Encodes maxDist out [] out
  | literal {out out' : List UInt8} {tokens : List Token} (b : UInt8)
      (h : Encodes maxDist (out ++ [b]) tokens out') :
      Encodes maxDist out (.literal b :: tokens) out'
  | backReference {out out' : List UInt8} {tokens : List Token} {len dist : ℕ}
      (hlen : minMatch ≤ len ∧ len ≤ maxMatch) (hdist : dist ≤ out.length ∧ dist ≤ maxDist)
      (hcode : (distanceCode dist).isSome) (h : Encodes maxDist (repeatFrom dist len out) tokens out') :
      Encodes maxDist out (.backReference len dist :: tokens) out'

theorem Encodes.length_le {maxDist : ℕ} {out out' : List UInt8} {tokens : List Token}
    (h : Encodes maxDist out tokens out') : out.length ≤ out'.length := by
  induction h with
  | nil out => exact le_rfl
  | literal b h ih =>
    rw [length_append] at ih
    omega
  | backReference hlen hdist hcode h ih =>
    rw [length_repeatFrom] at ih
    omega

theorem findSpan_spec {table : List (ℕ × ℕ)} {index v code extra base : ℕ}
    (h : findSpan table index v = some (code,extra,base)) :
    ∃ k, code = index+k ∧ table[k]? = some (base,extra) ∧ base ≤ v ∧ v-base < 2^extra := by
  induction table generalizing index with
  | nil => cases h
  | cons entry rest ih =>
    obtain ⟨b,e⟩ := entry
    rw [findSpan] at h
    split_ifs at h with hspan
    · cases h
      exact ⟨0,rfl,rfl,hspan.1,by omega⟩
    · obtain ⟨k,hcode,hget,hle,hlt⟩ := ih h
      exact ⟨k+1,by omega,hget,hle,hlt⟩

theorem distanceCode_le {dist : ℕ} (h : (distanceCode dist).isSome) : dist ≤ maxDistance := by
  obtain ⟨⟨code,extra,base⟩,hcode⟩ := Option.isSome_iff_exists.1 h
  obtain ⟨k,_,hget,hle,hlt⟩ := findSpan_spec hcode
  have htable : ∀ p ∈ distBase, p.1+2^p.2 ≤ maxDistance+1 := by decide
  have hentry := htable _ (mem_of_getElem? hget)
  dsimp only at hentry
  omega

/-- The tokens of the data stand for it. Without a bound on the data its matches reach as far as
the format allows; up to 2^32 octets they stay within the window. -/
theorem encodes_lz77Tokens (window maxDist : ℕ) (hi : i ≤ data.length) (hmf : Chained mf i)
    (hmax : maxDistance ≤ maxDist ∨ (data.length ≤ 2^32 ∧ min window mf.maxDist ≤ maxDist)) :
    Encodes maxDist (data.take i) (lz77Tokens data window mf i) data := by
  fun_induction lz77Tokens data window mf i with
  | case1 mf i hlt found husable _ ih =>
    obtain ⟨hchained,hdist,hspec⟩ := findMatch_spec window hlt hmf
    obtain ⟨hrepeats,hnear⟩ := hspec husable
    have hlen : minMatch ≤ found.1.1 := husable.1
    have hfits := hrepeats.fits
    have hle : found.1.2 ≤ maxDist := by
      rcases hmax with hmax | ⟨hsmall,hmax⟩
      · exact (distanceCode_le husable.2).trans hmax
      · exact (hnear (by omega)).trans hmax
    refine .backReference ⟨hlen,hrepeats.short⟩ ⟨?_,hle⟩ husable.2 ?_
    · rw [length_take,min_eq_left hlt.le]
      exact hrepeats.le
    · rw [hrepeats.repeatFrom_take]
      refine ih hfits (hchained.mono ?_) (by rwa [hdist])
      simp only [minMatch] at hlen
      omega
  | case2 mf i hlt found husable ih =>
    obtain ⟨hchained,hdist,_⟩ := findMatch_spec window hlt hmf
    refine .literal _ ?_
    rw [getD_eq_getElem _ _ hlt,← take_succ_eq_append_getElem hlt]
    exact ih hlt hchained (by rwa [hdist])
  | case3 mf i hge =>
    rw [take_of_length_le (not_lt.1 hge)]
    exact .nil data

namespace BitWriter

theorem writeExtra_spec (hw : w.Valid) (v extra : ℕ) :
    (w.writeExtra v extra).Valid ∧ (w.writeExtra v extra).bits = w.bits ++ LsbBits.bits extra v := by
  rw [writeExtra]
  split_ifs with h
  · exact writeBits_spec hw v extra
  · have hzero : extra = 0 := by omega
    subst hzero
    exact ⟨hw,by simp [LsbBits.bits]⟩

theorem writeMatch_spec (hw : w.Valid) (len dist : ℕ) :
    (w.writeMatch len dist).Valid ∧
      (w.writeMatch len dist).bits = w.bits ++ (Token.backReference len dist).bits := by
  rw [writeMatch,Token.bits]
  cases hlen : lengthCode len with
  | none => exact ⟨hw,by simp⟩
  | some l =>
    cases hdist : distanceCode dist with
    | none => exact ⟨hw,by simp⟩
    | some d =>
      obtain ⟨code,extra,base⟩ := l
      obtain ⟨dcode,dextra,dbase⟩ := d
      obtain ⟨hv₁,hb₁⟩ := writeBitsMsb_spec hw (fixedLengthCode code).1 (fixedLengthCode code).2
      obtain ⟨hv₂,hb₂⟩ := writeExtra_spec hv₁ (len-base) extra
      obtain ⟨hv₃,hb₃⟩ := writeBitsMsb_spec hv₂ dcode 5
      obtain ⟨hv₄,hb₄⟩ := writeExtra_spec hv₃ (dist-dbase) dextra
      refine ⟨hv₄,hb₄.trans ?_⟩
      rw [hb₃,hb₂,hb₁]
      simp

end BitWriter

theorem bits_encodeLz77 (data : List UInt8) (window : ℕ) (hw : w.Valid) (mf : MatchFinder) (i : ℕ) :
    (encodeLz77 data window w mf i).1.Valid ∧ (encodeLz77 data window w mf i).1.bits =
      w.bits ++ (lz77Tokens data window mf i).flatMap Token.bits := by
  fun_induction encodeLz77 data window w mf i with
  | case1 w mf i hlt found husable _ ih =>
    obtain ⟨hv,hb⟩ := w.writeMatch_spec hw found.1.1 found.1.2
    obtain ⟨hvalid,hbits⟩ := ih hv
    refine ⟨hvalid,hbits.trans ?_⟩
    rw [lz77Tokens_match hlt husable,hb,flatMap_cons,append_assoc]
  | case2 w mf i hlt found husable ih =>
    obtain ⟨hv,hb⟩ := w.writeBitsMsb_spec hw _ _
    obtain ⟨hvalid,hbits⟩ := ih hv
    refine ⟨hvalid,hbits.trans ?_⟩
    rw [lz77Tokens_literal hlt husable,BitWriter.writeLiteral,hb,flatMap_cons,
      append_assoc]
    rfl
  | case3 w mf i hge =>
    refine ⟨hw,?_⟩
    rw [lz77Tokens_end hge]
    simp

theorem chained_encodeLz77 (data : List UInt8) (window : ℕ) (w : BitWriter) (hmf : Chained mf i) :
    (encodeLz77 data window w mf i).2.maxDist = mf.maxDist ∧
      ∃ j, Chained (encodeLz77 data window w mf i).2 j := by
  fun_induction encodeLz77 data window w mf i with
  | case1 w mf i hlt found husable _ ih =>
    obtain ⟨hchained,hdist,_⟩ := findMatch_spec window hlt hmf
    have hlen : 3 ≤ found.1.1 := husable.1
    obtain ⟨hmax,hj⟩ := ih (hchained.mono (by omega))
    exact ⟨hmax.trans hdist,hj⟩
  | case2 w mf i hlt found husable ih =>
    obtain ⟨hchained,hdist,_⟩ := findMatch_spec window hlt hmf
    obtain ⟨hmax,hj⟩ := ih hchained
    exact ⟨hmax.trans hdist,hj⟩
  | case3 w mf i hge => exact ⟨rfl,i,hmf⟩

end Courierust.Deflate
