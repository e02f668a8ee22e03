import Mathlib.Data.List.GetD
import Courierust.Deflate.Huffman

/-!
# Decompression

`inflate_blocks` and what it is made of: stored, fixed and dynamic blocks, back-references
into the current message or the retained window, and the `Inflater` that keeps the window
between messages. A block that fails leaves the output it had produced, because a message
that runs out of input is complete as it stands.
-/

namespace Courierust.Deflate

open List
open LsbBits BitM

/-- `LENGTH_BASE`: base and extra bits of the length codes 257 to 285. -/
def lengthBase : List (ℕ × ℕ) :=
  [(3, 0), (4, 0), (5, 0), (6, 0), (7, 0), (8, 0), (9, 0), (10, 0),
   (11, 1), (13, 1), (15, 1), (17, 1),
   (19, 2), (23, 2), (27, 2), (31, 2),
   (35, 3), (43, 3), (51, 3), (59, 3),
   (67, 4), (83, 4), (99, 4), (115, 4),
   (131, 5), (163, 5), (195, 5), (227, 5),
   (258, 0)]

/-- `DIST_BASE`: base and extra bits of the distance codes 0 to 29. -/
def distBase : List (ℕ × ℕ) :=
  [(1, 0), (2, 0), (3, 0), (4, 0),
   (5, 1), (7, 1), (9, 2), (13, 2),
   (17, 3), (25, 3), (33, 4), (49, 4),
   (65, 5), (97, 5), (129, 6), (193, 6),
   (257, 7), (385, 7), (513, 8), (769, 8),
   (1025, 9), (1537, 9), (2049, 10), (3073, 10),
   (4097, 11), (6145, 11), (8193, 12), (12289, 12),
   (16385, 13), (24577, 13)]

def fixedLitlenLens : List ℕ :=
  List.replicate 144 8 ++ List.replicate 112 9 ++ List.replicate 24 7 ++ List.replicate 8 8

def fixedDistLens : List ℕ := List.replicate 32 5

/-! ### Back-references -/

/-- The loop that pushes `out[start + i]` for `i` up to `n`. -/
def copyLoop (start : ℕ) : ℕ → List UInt8 → List UInt8
  | 0, out => out
  | n + 1, out =>
    let out := copyLoop start n out
    out ++ [out.getD (start + n) 0]

def copyWithin (out : List UInt8) (distance len : ℕ) : List UInt8 :=
  let start := out.length - distance
  if len ≤ distance then out ++ (out.drop start).take len else copyLoop start len out

def copyMatch (out window : List UInt8) (distance len maxOut maxDist : ℕ) :
    Except Error (List UInt8) :=
  if maxOut < out.length + len then .error (Error.overflow "deflate: output exceeds limit")
  else if maxDist < distance then
    .error (Error.protocol "deflate: back-reference beyond the negotiated window")
  else if distance ≤ out.length then .ok (copyWithin out distance len)
  else
    let fromWindow := distance - out.length
    if window.length < fromWindow then
      .error (Error.protocol "deflate: back-reference before the window")
    else
      let take := min fromWindow len
      let wstart := window.length - fromWindow
      let out := out ++ (window.drop wstart).take take
      if take < len then .ok (copyWithin out distance (len - take)) else .ok out

/-- The history extended by `n` octets, each repeating the one `distance` before it. -/
def repeatFrom (distance : ℕ) : ℕ → List UInt8 → List UInt8
  | 0, history => history
  | n + 1, history =>
    let history := repeatFrom distance n history
    history ++ [history.getD (history.length - distance) 0]

variable (distance n : ℕ)

@[simp] theorem length_repeatFrom (history : List UInt8) :
    (repeatFrom distance n history).length = history.length+n := by
  induction n with
  | zero => rfl
  | succ n ih =>
    simp only [repeatFrom,length_append,ih,length_singleton]
    omega

theorem repeatFrom_add (a b : ℕ) (history : List UInt8) :
    repeatFrom distance (a+b) history = repeatFrom distance b (repeatFrom distance a history) := by
  induction b with
  | zero => rfl
  | succ b ih =>
    rw [← Nat.add_assoc]
    simp only [repeatFrom,ih]

theorem repeatFrom_append (w out : List UInt8) (h : distance ≤ out.length) :
    repeatFrom distance n (w ++ out) = w ++ repeatFrom distance n out := by
  induction n with
  | zero => rfl
  | succ n ih =>
    simp only [repeatFrom,ih,length_append,length_repeatFrom]
    rw [getD_append_right _ _ _ _ (by omega),append_assoc]
    congr 4
    omega

/-- As long as the source does not reach the octets just written, they are copied as they are. -/
theorem repeatFrom_of_le (history : List UInt8) (h : distance ≤ history.length)
    (hn : n ≤ distance) : repeatFrom distance n history =
      history ++ (history.drop (history.length-distance)).take n := by
  induction n with
  | zero => simp [repeatFrom]
  | succ n ih =>
    have hlt : n < (history.drop (history.length-distance)).length := by
      rw [length_drop]
      omega
    have hidx : history.length+n-distance < history.length := by omega
    simp only [repeatFrom]
    rw [length_repeatFrom,ih (by omega),take_succ_eq_append_getElem hlt,append_assoc,
      getD_append _ _ _ _ hidx,getD_eq_getElem _ _ hidx,getElem_drop]
    congr 4
    omega

theorem copyLoop_eq (out : List UInt8) (h : distance ≤ out.length) :
    copyLoop (out.length-distance) n out = repeatFrom distance n out := by
  induction n with
  | zero => rfl
  | succ n ih =>
    simp only [copyLoop,repeatFrom,ih,length_repeatFrom]
    congr 3
    omega

theorem copyWithin_eq (out : List UInt8) (distance len : ℕ) (h : distance ≤ out.length) :
    copyWithin out distance len = repeatFrom distance len out := by
  simp only [copyWithin]
  split_ifs with hle
  · exact (repeatFrom_of_le distance len out h hle).symm
  · exact copyLoop_eq distance len out h

/-- A back-reference within the limits extends the history, be it the current message alone or
the retained window before it. -/
theorem copyMatch_spec {out : List UInt8} {distance len maxOut maxDist : ℕ} (window : List UInt8)
    (hout : out.length+len ≤ maxOut) (hdist : distance ≤ maxDist)
    (hwindow : distance ≤ window.length+out.length) :
    ∃ out', copyMatch out window distance len maxOut maxDist = .ok out' ∧
      window ++ out' = repeatFrom distance len (window ++ out) := by
  simp only [copyMatch]
  rw [if_neg (by omega),if_neg (by omega)]
  by_cases hin : distance ≤ out.length
  · rw [if_pos hin]
    refine ⟨_,rfl,?_⟩
    rw [copyWithin_eq _ _ _ hin,repeatFrom_append _ _ _ _ hin]
  rw [if_neg hin,if_neg (by omega)]
  -- the part of the match that lies in the window
  have hhead : ∀ n ≤ distance-out.length, repeatFrom distance n (window ++ out) =
      window ++ (out ++ (window.drop (window.length-(distance-out.length))).take n) := by
    intro n hn
    rw [repeatFrom_of_le _ _ _ (by rw [length_append]; omega) (by omega),append_assoc]
    congr 2
    rw [length_append,drop_append_of_le_length (by omega),
      take_append_of_le_length (by rw [length_drop]; omega)]
    congr 2
    omega
  split_ifs with hlen
  · refine ⟨_,rfl,?_⟩
    have hmin : min (distance-out.length) len = distance-out.length := by omega
    have hlength : (out ++ (window.drop (window.length-(distance-out.length))).take
        (distance-out.length)).length = distance := by
      simp only [length_append,length_take,length_drop]
      omega
    rw [hmin,copyWithin_eq _ _ _ hlength.ge,← repeatFrom_append _ _ _ _ hlength.ge,
      ← hhead _ le_rfl,← repeatFrom_add]
    congr 1
    omega
  · refine ⟨_,rfl,?_⟩
    rw [hhead len (by omega)]
    congr 4
    omega

/-! ### Blocks -/

def takeExtra (base extra : ℕ) : BitM ℕ :=
  if 0 < extra then do
    let more ← take extra
    pure (base + more)
  else pure base

inductive Token where
  | literal (octet : UInt8)
  | endOfBlock
  | backReference (len distance : ℕ)

def readMatch (dist : DecodeTable) (sym : ℕ) : BitM Token := do
  let entry := lengthBase.getD (sym - 257) (0, 0)
  let len ← takeExtra entry.1 entry.2
  let dsym ← decodeSymbol dist
  if 30 ≤ dsym then fail (Error.protocol "deflate: invalid distance code")
  else do
    let entry := distBase.getD dsym (0, 0)
    let distance ← takeExtra entry.1 entry.2
    if distance = 0 then fail (Error.protocol "deflate: zero distance")
    else pure (.backReference len distance)

/-- The part of the loop of `inflate_huffman` that reads. -/
def readToken (lit dist : DecodeTable) : BitM Token := do
  let sym ← decodeSymbol lit
  if sym < 256 then pure (.literal (UInt8.ofNat sym))
  else if sym = 256 then pure .endOfBlock
  else if sym ≤ 285 then readMatch dist sym
  else fail (Error.protocol "deflate: invalid length symbol")

/-! ### Readers -/

section
variable {P : (α : Type) → BitM α → Prop}

theorem Composes.takeExtra (h : Composes P) (base extra : ℕ) : P ℕ (takeExtra base extra) := by
  rw [Deflate.takeExtra]
  split_ifs
  · exact h.bind (h.take _) fun _ => h.pure _
  · exact h.pure _

variable {dist : DecodeTable}

theorem Composes.readMatch (h : Composes P) (hdist : P ℕ (decodeSymbol dist)) (sym : ℕ) :
    P Token (readMatch dist sym) := by
  refine h.bind (h.takeExtra _ _) fun len => ?_
  refine h.bind hdist fun dsym => ?_
  split_ifs
  · exact h.protocol _
  · refine h.bind (h.takeExtra _ _) fun distance => ?_
    split_ifs
    · exact h.protocol _
    · exact h.pure _

theorem Composes.tokenOf (h : Composes P) (hdist : P ℕ (decodeSymbol dist)) (sym : ℕ) :
    P Token (if sym < 256 then Pure.pure (.literal (UInt8.ofNat sym))
      else if sym = 256 then Pure.pure .endOfBlock
      else if sym ≤ 285 then Deflate.readMatch dist sym
      else fail (Error.protocol "deflate: invalid length symbol")) := by
  split_ifs
  · exact h.pure _
  · exact h.pure _
  · exact h.readMatch hdist sym
  · exact h.protocol _

theorem Composes.readToken (h : Composes P) {lit : DecodeTable} (hlit : P ℕ (decodeSymbol lit))
    (hdist : P ℕ (decodeSymbol dist)) : P Token (readToken lit dist) :=
  h.bind hlit (h.tokenOf hdist)

end

theorem size_readToken {lit dist : DecodeTable} {token : Token} {r r' : BitReader}
    (h : readToken lit dist r = (.ok token,r')) : r'.size < r.size :=
  size_bind size_decodeSymbol (composes_reads.tokenOf (reads_decodeSymbol dist)) h

abbrev BlockResult := Except Error Unit × BitReader × List UInt8

/-- `copy_match` with its window and its bounds. The decoder below takes it as `copy`. -/
abbrev copyFrom (window : List UInt8) (maxOut maxDist : ℕ) (out : List UInt8) (distance len : ℕ) :
    Except Error (List UInt8) :=
  copyMatch out window distance len maxOut maxDist

section
variable (copy : List UInt8 → ℕ → ℕ → Except Error (List UInt8)) (maxOut : ℕ)

/-- The loop of `inflate_huffman`. -/
def inflateTokens (lit dist : DecodeTable) (r : BitReader) (out : List UInt8) : BlockResult :=
  match htoken : readToken lit dist r with
  | (.error e, r') => (.error e, r', out)
  | (.ok token, r') =>
    have := size_readToken htoken
    match token with
    | .literal octet =>
      if maxOut ≤ out.length then (.error (Error.overflow "deflate: output exceeds limit"), r', out)
      else inflateTokens lit dist r' (out ++ [octet])
    | .endOfBlock => (.ok (), r', out)
    | .backReference len distance =>
      match copy out distance len with
      | .error e => (.error e, r', out)
      | .ok out => inflateTokens lit dist r' out
termination_by r.size

def inflateHuffman (litlen dist : List ℕ) (r : BitReader) (out : List UInt8) : BlockResult :=
  match DecodeTable.build litlen .singleCodeAllowed with
  | .error e => (.error e, r, out)
  | .ok lit =>
    match DecodeTable.build dist .singleCodeAllowed with
    | .error e => (.error e, r, out)
    | .ok dist => inflateTokens copy maxOut lit dist r out

def storedLength : BitM ℕ := do
  let len ← take 16
  let nlen ← take 16
  if len ^^^ 0xffff ≠ nlen then fail (Error.protocol "deflate: stored block length mismatch")
  else pure len

def inflateStored (r : BitReader) (out : List UInt8) : BlockResult :=
  match storedLength r.alignByte with
  | (.error e, r) => (.error e, r, out)
  | (.ok len, r) =>
    if maxOut < out.length + len then (.error (Error.overflow "deflate: output exceeds limit"), r, out)
    else readBytes len r out

def clenOrder : List ℕ := [16, 17, 18, 0, 8, 7, 9, 6, 10, 5, 11, 4, 12, 3, 13, 2, 14, 1, 15]

def readClens : List ℕ → List ℕ → BitM (List ℕ)
  | [], lens => pure lens
  | symbol :: order, lens => do
    let len ← take 3
    readClens order (lens.set symbol len)

def readLens (clen : DecodeTable) (total : ℕ) (lens : List ℕ) : BitM (List ℕ) :=
  if lens.length < total then do
    let sym ← decodeSymbol clen
    if sym ≤ 15 then readLens clen total (lens ++ [sym])
    else if sym = 16 then
      match lens.getLast? with
      | none => fail (Error.protocol "deflate: repeat with no previous")
      | some prev => do
        let more ← take 2
        if total < lens.length + (3 + more) then
          fail (Error.protocol "deflate: code-length repeat overflow")
        else readLens clen total (lens ++ List.replicate (3 + more) prev)
    else if sym = 17 then do
      let more ← take 3
      if total < lens.length + (3 + more) then
        fail (Error.protocol "deflate: code-length repeat overflow")
      else readLens clen total (lens ++ List.replicate (3 + more) 0)
    else if sym = 18 then do
      let more ← take 7
      if total < lens.length + (11 + more) then
        fail (Error.protocol "deflate: code-length repeat overflow")
      else readLens clen total (lens ++ List.replicate (11 + more) 0)
    else fail (Error.protocol "deflate: invalid code-length symbol")
  else pure lens
termination_by total - lens.length
decreasing_by all_goals
  simp only [List.length_append, List.length_replicate, List.length_singleton]
  omega

def dynamicLens : BitM (List ℕ × List ℕ) := do
  let hlit ← takeExtra 257 5
  let hdist ← takeExtra 1 5
  let hclen ← takeExtra 4 4
  if 286 < hlit ∨ 30 < hdist ∨ 19 < hclen then
    fail (Error.protocol "deflate: invalid dynamic header sizes")
  else do
    let clens ← readClens (clenOrder.take hclen) (List.replicate 19 0)
    match DecodeTable.build clens .complete with
    | .error e => fail e
    | .ok clen =>
      if clen.isEmpty then fail (Error.protocol "deflate: empty code-length table")
      else do
        let lens ← readLens clen (hlit + hdist) []
        pure (lens.take hlit ++ List.replicate (288 - hlit) 0,
          (lens.drop hlit).take hdist ++ List.replicate (32 - hdist) 0)

def inflateDynamic (r : BitReader) (out : List UInt8) : BlockResult :=
  match dynamicLens r with
  | (.error e, r) => (.error e, r, out)
  | (.ok (litlen, dist), r) => inflateHuffman copy maxOut litlen dist r out

def inflateBlock (btype : ℕ) (r : BitReader) (out : List UInt8) : BlockResult :=
  match btype with
  | 0 => inflateStored maxOut r out
  | 1 => inflateHuffman copy maxOut fixedLitlenLens fixedDistLens r out
  | 2 => inflateDynamic copy maxOut r out
  | _ => (.error (Error.protocol "deflate: reserved block type 3"), r, out)

theorem Composes.storedLength {P : (α : Type) → BitM α → Prop} (h : Composes P) :
    P ℕ storedLength := by
  refine h.bind (h.take _) fun len => h.bind (h.take _) fun nlen => ?_
  split_ifs
  · exact h.protocol _
  · exact h.pure _

theorem size_inflateStored (r : BitReader) (out : List UInt8) :
    (inflateStored maxOut r out).2.1.size ≤ r.size := by
  have hle := (composes_reads.storedLength r.alignByte).trans (r.size_consume_le _)
  rw [inflateStored]
  generalize storedLength r.alignByte = p at hle ⊢
  obtain ⟨result,u⟩ := p
  cases result with
  | error e => exact hle
  | ok len =>
    dsimp only
    split_ifs
    · exact hle
    · exact (size_readBytes len u out).trans hle

section
variable {P : (α : Type) → BitM α → Prop}

theorem Composes.readClens (h : Composes P) (order lens : List ℕ) : P _ (readClens order lens) := by
  induction order generalizing lens with
  | nil => exact h.pure _
  | cons symbol order ih => exact h.bind (h.take _) fun _ => ih _

theorem Composes.repeat (h : Composes P) {clen : DecodeTable} {total : ℕ} {lens : List ℕ} {base : ℕ}
    (hbase : 0 < base)
    (hrec : ∀ k l : ℕ, 0 < k → P _ (readLens clen total (lens ++ List.replicate k l)))
    (bits l : ℕ) :
    P _ (do
      let more ← Deflate.take bits
      if total < lens.length+(base+more) then
        BitM.fail (Error.protocol "deflate: code-length repeat overflow")
      else readLens clen total (lens ++ List.replicate (base+more) l)) := by
  refine h.bind (h.take _) fun more => ?_
  split_ifs
  · exact h.protocol _
  · exact hrec _ _ (by omega)

theorem Composes.readLens (h : Composes P) {clen : DecodeTable} (hclen : P ℕ (decodeSymbol clen))
    (total : ℕ) (lens : List ℕ) : P _ (readLens clen total lens) := by
  induction hn : total-lens.length using Nat.strong_induction_on generalizing lens with
  | _ n ih =>
    rw [Deflate.readLens]
    split_ifs with hlt
    · have hrec : ∀ k l : ℕ, 0 < k →
          P _ (Deflate.readLens clen total (lens ++ replicate k l)) := fun k l hk =>
        ih _ (by rw [length_append,length_replicate]; omega) _ rfl
      refine h.bind hclen fun sym => ?_
      split_ifs
      · exact hrec 1 sym Nat.one_pos
      · cases lens.getLast? with
        | none => exact h.protocol _
        | some prev => exact h.repeat (by decide) hrec 2 prev
      · exact h.repeat (by decide) hrec 3 0
      · exact h.repeat (by decide) hrec 7 0
      · exact h.protocol _
    · exact h.pure _

theorem Composes.dynamicLens (h : Composes P) (hsym : ∀ t, P ℕ (decodeSymbol t))
    (hbuild : ∀ lens e, DecodeTable.build lens .complete = .error e → P (List ℕ × List ℕ) (fail e)) :
    P _ dynamicLens := by
  refine h.bind (h.takeExtra _ _) fun hlit => ?_
  refine h.bind (h.takeExtra _ _) fun hdist => ?_
  refine h.bind (h.takeExtra _ _) fun hclen => ?_
  split_ifs
  · exact h.protocol _
  refine h.bind (h.readClens _ _) fun clens => ?_
  cases hresult : DecodeTable.build clens .complete with
  | error e => exact hbuild clens e hresult
  | ok clen =>
    dsimp only
    split_ifs
    · exact h.protocol _
    · exact h.bind (h.readLens (hsym clen) _ _) fun _ => h.pure _

end

theorem size_inflateTokens (lit dist : DecodeTable) (r : BitReader) (out : List UInt8) :
    (inflateTokens copy maxOut lit dist r out).2.1.size ≤ r.size := by
  fun_induction inflateTokens copy maxOut lit dist r out with
  | case1 r out e r' htoken =>
    have hle := composes_reads.readToken (reads_decodeSymbol lit) (reads_decodeSymbol dist) r
    rwa [htoken] at hle
  | case2 r out r' octet htoken _ _ | case4 r out r' htoken _ | case5 r out r' len distance htoken _ e hcopy =>
    exact (size_readToken htoken).le
  | case3 r out r' octet htoken _ _ _ ih | case6 r out r' len distance htoken _ out' hcopy _ ih =>
    exact ih.trans (size_readToken htoken).le

theorem size_inflateHuffman (litlen dist : List ℕ) (r : BitReader) (out : List UInt8) :
    (inflateHuffman copy maxOut litlen dist r out).2.1.size ≤ r.size := by
  rw [inflateHuffman]
  cases DecodeTable.build litlen .singleCodeAllowed with
  | error e => exact le_rfl
  | ok lit =>
    cases DecodeTable.build dist .singleCodeAllowed with
    | error e => exact le_rfl
    | ok dist => exact size_inflateTokens copy maxOut lit dist r out

theorem size_inflateBlock (btype : ℕ) (r : BitReader) (out : List UInt8) :
    (inflateBlock copy maxOut btype r out).2.1.size ≤ r.size := by
  rw [inflateBlock.eq_def]
  split
  · exact size_inflateStored maxOut r out
  · exact size_inflateHuffman copy maxOut _ _ r out
  · rw [inflateDynamic]
    have hle := composes_reads.dynamicLens reads_decodeSymbol (fun _ _ _ _ => le_rfl) r
    generalize dynamicLens r = p at hle ⊢
    obtain ⟨result,u⟩ := p
    cases result with
    | error e => exact hle
    | ok lens => exact (size_inflateHuffman copy maxOut _ _ u out).trans hle
  · exact le_rfl

/-- The header of a block: `bfinal` and `btype`. -/
def blockHead : BitM (ℕ × ℕ) := do
  let bfinal ← take 1
  let btype ← take 2
  pure (bfinal, btype)

theorem Composes.blockHead {P : (α : Type) → BitM α → Prop} (h : Composes P) : P _ blockHead :=
  h.bind (h.take 1) fun _ => h.bind (h.take 2) fun _ => h.pure _

theorem size_blockHead {p : ℕ × ℕ} {r r' : BitReader} (h : blockHead r = (.ok p,r')) :
    r'.size < r.size := by
  refine size_bind (fun hfinal => ?_)
    (fun _ => composes_reads.bind (reads_take 2) fun _ => composes_reads.pure _) h
  have hsize := size_take hfinal
  omega

/-- `inflate_blocks`: the verdict and the output. A header that fails is tolerated on the same
condition whichever of its two reads failed. -/
def inflateBlocks (truncatedOk : Bool) (r : BitReader) (out : List UInt8) :
    Except Error Unit × List UInt8 :=
  match hhead : blockHead r with
  | (.error e, r) => if truncatedOk && r.exhausted then (.ok (), out) else (.error e, out)
  | (.ok (bfinal, btype), r₁) =>
    have := size_blockHead hhead
    match hblock : inflateBlock copy maxOut btype r₁ out with
    | (.error e, r, out) => if truncatedOk && r.hitEof then (.ok (), out) else (.error e, out)
    | (.ok (), r₂, out') =>
      have := (congrArg (fun p => p.2.1.size) hblock).ge.trans (size_inflateBlock _ _ _ _ _)
      if bfinal ≠ 0 then (.ok (), out') else inflateBlocks truncatedOk r₂ out'
termination_by r.size
decreasing_by
  dsimp only at *
  omega

end

def maxDistance : ℕ := 32768

def inflate (data : List UInt8) (maxOut : ℕ) : Except Error (List UInt8) :=
  match inflateBlocks (copyFrom [] maxOut maxDistance) maxOut false ⟨data, 0, 0, false⟩ [] with
  | (.ok (), out) => .ok out
  | (.error e, _) => .error e

/-! ### Messages -/

/-- `clamp(MIN_WINDOW_BITS, MAX_WINDOW_BITS)`. -/
def clampBits (bits : ℕ) : ℕ := max 8 (min bits 15)

structure Inflater where
  window : List UInt8 := []
  windowBits : ℕ := 15

namespace Inflater

def new (windowBits : ℕ) : Inflater := { windowBits := clampBits windowBits }

def reset (inf : Inflater) : Inflater := { inf with window := [] }

/-- `absorb`: the tail of what was decoded is kept. -/
def absorb (inf : Inflater) (message : List UInt8) : Inflater :=
  let cap := 1 <<< inf.windowBits
  if cap ≤ message.length then { inf with window := message.drop (message.length - cap) }
  else
    let overflow := inf.window.length + message.length - cap
    { inf with window := inf.window.drop overflow ++ message }

theorem windowBits_absorb (inf : Inflater) (message : List UInt8) :
    (inf.absorb message).windowBits = inf.windowBits := by
  rw [absorb]
  split_ifs <;> rfl

/-- `inflate_message`: the message, with the stripped marker put back. -/
def inflateMessage (inf : Inflater) (input : List UInt8) (maxOut : ℕ) :
    Except Error (List UInt8) × Inflater :=
  let scratch := input ++ [0x00, 0x00, 0xff, 0xff]
  match inflateBlocks (copyFrom inf.window maxOut (1 <<< inf.windowBits)) maxOut true
      ⟨scratch, 0, 0, false⟩ [] with
  | (.error e, _) => (.error e, inf.reset)
  | (.ok (), out) => (.ok out, inf.absorb out)

end Inflater

end Courierust.Deflate
