import Courierust.Deflate.Gzip

/-!
# How the decoder fails

Whatever is wrong with a compressed stream, `inflate` and `gunzip` report a protocol error or an
overflow.
-/

def Courierust.Error.Malformed (e : Courierust.Error) : Prop :=
  e.kind = .protocol ∨ e.kind = .overflow

namespace Courierust.Deflate

def Rejects {α : Type} (x : Except Error α) : Prop := ∀ e, x = .error e → e.Malformed

section
variable {α β : Type}

@[simp] theorem Rejects.ok (a : α) : Rejects (.ok a : Except Error α) := fun e h => by cases h

@[simp] theorem Rejects.protocol (msg : String) :
    Rejects (.error (Error.protocol msg) : Except Error α) := by
  intro e h
  cases h
  exact .inl rfl

@[simp] theorem Rejects.overflow (msg : String) :
    Rejects (.error (Error.overflow msg) : Except Error α) := by
  intro e h
  cases h
  exact .inr rfl

theorem Rejects.error {e : Error} (h : Rejects (.error e : Except Error α)) :
    Rejects (.error e : Except Error β) := by
  intro e' he
  cases he
  exact h _ rfl

variable {x : Except Error α}

theorem Rejects.of_eq {e : Error} (h : Rejects x) (hx : x = .error e) :
    Rejects (.error e : Except Error β) := by
  rw [hx] at h
  exact h.error

theorem Rejects.bind {f : α → Except Error β} (hx : Rejects x) (hf : ∀ a, Rejects (f a)) :
    Rejects (x >>= f) := by
  cases x with
  | error e => exact hx.error
  | ok a => exact hf a

theorem Rejects.map (hx : Rejects x) (f : α → β) : Rejects (x.map f) := by
  cases x with
  | error e => exact hx.error
  | ok a => exact .ok _

theorem Rejects.ite_bind {p : Prop} [Decidable p] {y : Except Error α} {f : α → Except Error β}
    (hx : Rejects x) (hy : Rejects y) (hf : ∀ a, Rejects (f a)) :
    Rejects (if p then x >>= f else y >>= f) := by
  split_ifs
  · exact hx.bind hf
  · exact hy.bind hf

def BitM.Rejects (x : BitM α) : Prop := ∀ r, Deflate.Rejects (x r).1

theorem BitM.Rejects.bind {x : BitM α} {f : α → BitM β} (hx : BitM.Rejects x)
    (hf : ∀ a, BitM.Rejects (f a)) : BitM.Rejects (x >>= f) := by
  intro r
  have hr := hx r
  simp only [Bind.bind]
  generalize x r = p at hr ⊢
  obtain ⟨result,r'⟩ := p
  cases result with
  | error e => exact .error hr
  | ok a => exact hf a r'

end

/-! ### Symbols -/

theorem rejects_ensureFrom (n : ℕ) (hitEof : Bool) (rest : List UInt8) (acc nbits : ℕ) :
    Rejects (BitReader.ensureFrom n hitEof rest acc nbits).1 := by
  induction rest generalizing acc nbits with
  | nil =>
    rw [BitReader.ensureFrom]
    split_ifs
    · exact .ok _
    · exact .protocol _
  | cons b rest ih =>
    rw [BitReader.ensureFrom]
    split_ifs
    · exact .ok _
    · exact ih _ _

theorem rejects_take (n : ℕ) : BitM.Rejects (take n) := by
  intro r
  simp only [take]
  split_ifs
  · split
    · next e hensure => exact (rejects_ensureFrom _ _ _ _ _).of_eq hensure
    · exact .ok _
  · exact .ok _

theorem composes_rejects : Composes fun _ x => BitM.Rejects x :=
  ⟨fun a _ => .ok a,fun msg _ => .protocol msg,BitM.Rejects.bind,rejects_take⟩

theorem rejects_decodeSymbol (t : DecodeTable) : BitM.Rejects (decodeSymbol t) := by
  intro r
  rw [decodeSymbol]
  split_ifs
  · cases t.lookup (r.peek fastBits) with
    | none => exact composes_rejects.walkFrom t _ _ _ _ r
    | some e => exact .ok _
  · exact composes_rejects.walkFrom t _ _ _ _ r

/-! ### Code lengths -/

theorem rejects_kraft (count : ℕ → ℕ) (fuel len : ℕ) (left : ℤ) (maxLen : ℕ) :
    Rejects (kraft count fuel len left maxLen) := by
  induction fuel generalizing len left maxLen with
  | zero => exact .ok _
  | succ fuel ih =>
    simp only [kraft]
    split
    · exact .protocol _
    · exact ih _ _ _

theorem rejects_build (lens : List ℕ) (completeness : Completeness) :
    Rejects (DecodeTable.build lens completeness) := by
  rw [DecodeTable.build]
  split
  · exact .protocol _
  split
  · next e hkraft => exact (rejects_kraft _ _ _ _ _).of_eq hkraft
  · split_ifs <;> simp

/-! ### Blocks -/

section
variable (window : List UInt8) (maxOut maxDist : ℕ)

variable (out : List UInt8)

theorem rejects_inflateTokens (lit dist : DecodeTable) (r : BitReader) (out : List UInt8) :
    Rejects (inflateTokens (copyFrom window maxOut maxDist) maxOut lit dist r out).1 := by
  fun_induction inflateTokens (copyFrom window maxOut maxDist) maxOut lit dist r out with
  | case1 r out e r' htoken =>
    exact (composes_rejects.readToken (rejects_decodeSymbol lit) (rejects_decodeSymbol dist)
      r).of_eq (congrArg Prod.fst htoken)
  | case2 r out r' octet htoken _ _ => exact .overflow _
  | case3 r out r' octet htoken _ _ _ ih => exact ih
  | case4 r out r' htoken _ => exact .ok _
  | case5 r out r' len distance htoken e hcopy =>
    have hrejects : Rejects (copyMatch out window distance len maxOut maxDist) := by
      rw [copyMatch]
      dsimp only
      split_ifs <;> simp
    exact hrejects.of_eq hcopy
  | case6 r out r' len distance htoken _ out' hcopy _ ih => exact ih

theorem rejects_inflateHuffman (litlen dist : List ℕ) (r : BitReader) (out : List UInt8) :
    Rejects (inflateHuffman (copyFrom window maxOut maxDist) maxOut litlen dist r out).1 := by
  rw [inflateHuffman]
  split
  · next e hlit => exact (rejects_build _ _).of_eq hlit
  · split
    · next e hdist => exact (rejects_build _ _).of_eq hdist
    · exact rejects_inflateTokens window maxOut maxDist _ _ r out

theorem rejects_inflateStored (r : BitReader) (out : List UInt8) :
    Rejects (inflateStored maxOut r out).1 := by
  rw [inflateStored]
  split
  · next e u hlength => exact (composes_rejects.storedLength _).of_eq (congrArg Prod.fst hlength)
  · split_ifs
    · exact .overflow _
    · rw [readBytes]
      dsimp only
      split_ifs <;> simp

theorem rejects_inflateDynamic (r : BitReader) (out : List UInt8) :
    Rejects (inflateDynamic (copyFrom window maxOut maxDist) maxOut r out).1 := by
  have hbuild := composes_rejects.dynamicLens rejects_decodeSymbol fun lens _ hresult _ =>
    (rejects_build lens .complete).of_eq hresult
  rw [inflateDynamic]
  split
  · next e u hlens => exact (hbuild r).of_eq (congrArg Prod.fst hlens)
  · exact rejects_inflateHuffman window maxOut maxDist _ _ _ out

theorem rejects_inflateBlock (btype : ℕ) (r : BitReader) (out : List UInt8) :
    Rejects (inflateBlock (copyFrom window maxOut maxDist) maxOut btype r out).1 := by
  rw [inflateBlock.eq_def]
  split
  · exact rejects_inflateStored maxOut r out
  · exact rejects_inflateHuffman window maxOut maxDist _ _ r out
  · exact rejects_inflateDynamic window maxOut maxDist r out
  · exact .protocol _

theorem rejects_inflateBlocks (truncatedOk : Bool) (r : BitReader) (out : List UInt8) :
    Rejects (inflateBlocks (copyFrom window maxOut maxDist) maxOut truncatedOk r out).1 := by
  fun_induction inflateBlocks (copyFrom window maxOut maxDist) maxOut truncatedOk r out with
  | case1 | case3 | case5 => exact .ok _
  | case2 r out e r' hhead _ =>
    exact (composes_rejects.blockHead r).of_eq (congrArg Prod.fst hhead)
  | case4 r out bfinal btype r₁ hhead _ e r₂ out' hblock _ =>
    exact (rejects_inflateBlock window maxOut maxDist btype r₁ out).of_eq (congrArg Prod.fst hblock)
  | case6 r out bfinal btype r₁ hhead _ r₂ out' hblock _ _ ih => exact ih

end

variable (data : List UInt8) (pos : ℕ)

theorem rejects_inflate (maxOut : ℕ) : Rejects (inflate data maxOut) := by
  rw [inflate]
  split
  · exact .ok _
  · next e out hblocks =>
    exact (rejects_inflateBlocks _ _ _ _ _ _).of_eq (congrArg Prod.fst hblocks)

/-! ### Containers -/

theorem rejects_skipCstring (what : String) : Rejects (skipCstring data pos what) := by
  fun_induction skipCstring data pos what with
  | case1 pos _ _ => exact .ok _
  | case2 pos _ _ ih => exact ih
  | case3 pos _ => exact .protocol _

theorem rejects_streamStart (flg : UInt8) : Rejects (streamStart data flg) := by
  have hextra : Rejects (skipExtra data 10) := by
    rw [skipExtra]
    dsimp only
    split_ifs <;> simp
  refine .ite_bind hextra (.ok _) fun pos => ?_
  refine .ite_bind (rejects_skipCstring _ _ _) (.ok _) fun pos => ?_
  refine .ite_bind (rejects_skipCstring _ _ _) (.ok _) fun pos => ?_
  dsimp only
  split_ifs
  · exact .protocol _
  · exact .ok _
  · exact .ok _

theorem rejects_openStream (maxOut : ℕ) : Rejects (openStream data pos maxOut) := by
  rw [openStream]
  dsimp only
  split_ifs
  · exact .protocol _
  · exact .protocol _
  · refine (rejects_inflate _ _).bind fun out => ?_
    split_ifs <;> simp

theorem rejects_gunzip (maxOut : ℕ) : Rejects (gunzip data maxOut) := by
  rw [gunzip]
  split_ifs
  · exact .protocol _
  · exact .protocol _
  · exact .protocol _
  · exact (rejects_streamStart _ _).bind fun pos => rejects_openStream data pos maxOut

end Courierust.Deflate
