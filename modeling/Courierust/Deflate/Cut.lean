import Courierust.Deflate.Roundtrip

/-!
# Messages that end inside a block

`inflate_blocks` also forgives a block, or the header of one, whose reads ran out of input, so a
message that is cut there is accepted with what was decoded of it.
-/

namespace Courierust.Deflate

/-- How blocks end: with nothing left, inside the header of a further one, inside one of which a
read ran out of input, or with what is left after a final one. -/
inductive Ending where
  | stop
  | cutHead
  | cut
  | final (rest : BitReader)

/-- The last block is complete. -/
def Ending.Whole : Ending → Prop
  | .stop | .final _ => True
  | .cutHead | .cut => False

section
variable (window : List UInt8) (maxOut maxDist : ℕ)

/-- Complete blocks up to where they end, and what they decode to. -/
inductive Blocks : BitReader → List UInt8 → Ending → List UInt8 → Prop
  | stop {r} (out : List UInt8) (hempty : r.size = 0) : Blocks r out .stop out
  | cutHead {r r' e} (out : List UInt8) (hleft : r.size ≠ 0) (hhead : blockHead r = (.error e, r')) :
    Blocks r out .cutHead out
  | cut {r r₁ r₂ out out' bfinal btype e} (hhead : blockHead r = (.ok (bfinal, btype), r₁))
      (hblock : inflateBlock (copyFrom window maxOut maxDist) maxOut btype r₁ out = (.error e, r₂, out'))
      (heof : r₂.hitEof = true) : Blocks r out .cut out'
  | final {r r₁ r₂ out out' bfinal btype} (hhead : blockHead r = (.ok (bfinal, btype), r₁))
      (hblock : inflateBlock (copyFrom window maxOut maxDist) maxOut btype r₁ out = (.ok (), r₂, out'))
      (hfinal : bfinal ≠ 0) : Blocks r out (.final r₂) out'
  | next {r r₁ r₂ out out' last btype ending} (hhead : blockHead r = (.ok (0, btype), r₁))
      (hblock : inflateBlock (copyFrom window maxOut maxDist) maxOut btype r₁ out = (.ok (), r₂, out'))
      (hrest : Blocks r₂ out' ending last) : Blocks r out ending last

end

variable {window out last : List UInt8} {maxOut maxDist : ℕ} {truncatedOk : Bool}
  {r rest : BitReader} {ending : Ending}

theorem take_error {n : ℕ} {r' : BitReader} {e : Error} (h : take n r = (.error e,r')) :
    r'.rest = [] ∧ r'.nbits < n := by
  have hensure : ∀ rest acc nbits, (BitReader.ensureFrom n r.hitEof rest acc nbits).1 = .error e →
      (BitReader.ensureFrom n r.hitEof rest acc nbits).2.rest = [] ∧
        (BitReader.ensureFrom n r.hitEof rest acc nbits).2.nbits < n := by
    intro rest acc nbits herror
    fun_induction BitReader.ensureFrom n r.hitEof rest acc nbits with
    | case1 => cases herror
    | case2 acc nbits hn => exact ⟨rfl,not_le.1 hn⟩
    | case3 acc nbits hn b rest ih => exact ih herror
  have hread := hensure r.rest r.acc r.nbits
  rw [← BitReader.ensure] at hread
  by_cases hn : r.nbits < n
  · simp only [take,if_pos hn] at h
    generalize r.ensure n = p at h hread
    obtain ⟨e' | u,r''⟩ := p
    · cases h
      exact hread rfl
    · cases h
  · simp only [take,if_neg hn] at h
    cases h

/-- A header fails only where no octet is left. -/
theorem blockHead_error {r' : BitReader} {e : Error} (h : blockHead r = (.error e,r')) :
    r'.exhausted = true := by
  have hexhausted : ∀ n ≤ 2, ∀ u e, take n u = (.error e,r') → r'.exhausted = true := by
    intro n hn u e htake
    obtain ⟨hrest,hbits⟩ := take_error htake
    rw [BitReader.exhausted,hrest,decide_eq_true (show r'.nbits < 8 by omega)]
    rfl
  simp only [blockHead,bind] at h
  rcases hfirst : take 1 r with ⟨e₁ | bfinal,r₁⟩
  · rw [hfirst] at h
    cases h
    exact hexhausted 1 one_le_two _ _ hfirst
  rw [hfirst] at h
  rcases hsecond : take 2 r₁ with ⟨e₂ | btype,r₂⟩
  · simp only [hsecond] at h
    cases h
    exact hexhausted 2 le_rfl _ _ hsecond
  · simp only [hsecond] at h
    cases h

theorem blocks_of_inflateBlocks
    (h : inflateBlocks (copyFrom window maxOut maxDist) maxOut truncatedOk r out = (.ok (),last)) :
    ∃ ending, Blocks window maxOut maxDist r out ending last ∧
      (truncatedOk = false → ∃ rest, ending = .final rest) := by
  fun_induction inflateBlocks (copyFrom window maxOut maxDist) maxOut truncatedOk r out with
  | case1 r out e r' hhead hstop =>
    cases h
    have htruncated : truncatedOk = false → ∀ ending : Ending, ∃ rest, ending = .final rest :=
      fun hfalse => by simp [hfalse] at hstop
    by_cases hempty : r.size = 0
    · exact ⟨.stop,.stop _ hempty,fun hfalse => htruncated hfalse _⟩
    · exact ⟨.cutHead,.cutHead _ hempty hhead,fun hfalse => htruncated hfalse _⟩
  | case2 => cases h
  | case3 r out bfinal btype r₁ hhead _ e r₂ out' hblock heof =>
    cases h
    rw [Bool.and_eq_true] at heof
    exact ⟨.cut,.cut hhead hblock heof.2,fun hfalse => by simp [hfalse] at heof⟩
  | case4 => cases h
  | case5 r out bfinal btype r₁ hhead _ r₂ out' hblock _ hfinal =>
    cases h
    exact ⟨.final r₂,.final hhead hblock hfinal,fun _ => ⟨r₂,rfl⟩⟩
  | case6 r out bfinal btype r₁ hhead _ r₂ out' hblock _ hfinal ih =>
    obtain ⟨ending,hrest,hfalse⟩ := ih h
    rw [not_ne_iff.1 hfinal] at hhead
    exact ⟨ending,.next hhead hblock hrest,hfalse⟩

namespace Blocks

theorem inflateBlocks_eq (h : Blocks window maxOut maxDist r out ending last)
    (hending : truncatedOk = true ∨ ∃ rest, ending = .final rest) :
    inflateBlocks (copyFrom window maxOut maxDist) maxOut truncatedOk r out = (.ok (),last) := by
  induction h with
  | stop out hempty =>
    simp only [reduceCtorEq,exists_false,or_false] at hending
    rw [hending,inflateBlocks_end hempty]
  | cutHead out hleft hhead =>
    simp only [reduceCtorEq,exists_false,or_false] at hending
    rw [inflateBlocks_headError hhead,blockHead_error hhead,hending]
    rfl
  | cut hhead hblock heof =>
    simp only [reduceCtorEq,exists_false,or_false] at hending
    rw [inflateBlocks_error hhead hblock,heof,hending]
    rfl
  | final hhead hblock hfinal => rw [Deflate.inflateBlocks_eq hhead hblock,if_pos hfinal]
  | next hhead hblock _ ih =>
    rw [Deflate.inflateBlocks_eq hhead hblock]
    exact ih hending

theorem unique {ending' : Ending} {last' : List UInt8}
    (h : Blocks window maxOut maxDist r out ending last)
    (h' : Blocks window maxOut maxDist r out ending' last') : ending = ending' := by
  -- The head of a block and what it decodes to leave one way to go on.
  induction h with
  | stop out hempty =>
    have hnone := blockHead_end hempty
    cases h' <;> simp_all
  | cutHead out hleft hhead => cases h' <;> simp_all
  | cut hhead hblock | final hhead hblock =>
    cases h' with
    | stop _ hempty =>
      cases hhead.symm.trans (blockHead_end hempty)
    | _ => simp_all
  | next hhead hblock _ ih =>
    cases h' with
    | next hhead' hblock' hrest =>
      cases hhead.symm.trans hhead'
      cases hblock.symm.trans hblock'
      exact ih hrest
    | stop _ hempty =>
      cases hhead.symm.trans (blockHead_end hempty)
    | _ => simp_all

end Blocks

/-- The blocks of a message with its marker put back. -/
def Inflater.Message (inf : Inflater) (input : List UInt8) (maxOut : ℕ) :
    Ending → List UInt8 → Prop :=
  Blocks inf.window maxOut (1 <<< inf.windowBits) ⟨input ++ [0x00, 0x00, 0xff, 0xff], 0, 0, false⟩ []

/-- Only whole messages are accepted, exactly if the input is not cut: it has no part of a header
after the last block, and no block of which a read ran out of input. -/
theorem accepts_whole_iff (inf : Inflater) (input : List UInt8) (maxOut : ℕ) :
    (∀ out, (inf.inflateMessage input maxOut).1 = .ok out →
      ∃ ending, ending.Whole ∧ inf.Message input maxOut ending out) ↔
      ¬ ∃ ending out, ¬ ending.Whole ∧ inf.Message input maxOut ending out := by
  have hok : ∀ out, (inf.inflateMessage input maxOut).1 = .ok out ↔
      inflateBlocks (copyFrom inf.window maxOut (1 <<< inf.windowBits)) maxOut true
        ⟨input ++ [0x00,0x00,0xff,0xff],0,0,false⟩ [] = (.ok (),out) := by
    intro out
    rw [Inflater.inflateMessage]
    split
    · next heq => simp [heq]
    · next heq => simp [heq]
  constructor
  · rintro h ⟨ending,out,hcut,hmessage⟩
    obtain ⟨ending',hwhole,hmessage'⟩ :=
      h out ((hok out).2 (hmessage.inflateBlocks_eq (.inl rfl)))
    rw [hmessage.unique hmessage'] at hcut
    exact hcut hwhole
  · intro hcut out hout
    obtain ⟨ending,hblocks,-⟩ := blocks_of_inflateBlocks ((hok out).1 hout)
    exact ⟨ending,not_not.1 fun hnot => hcut ⟨ending,out,hnot,hblocks⟩,hblocks⟩

/-- With nothing before it, the marker is read as the head of a stored block, and ends inside it. -/
theorem accepts_cut_block : (({} : Inflater).inflateMessage [] 1).1 = .ok [] ∧
    ¬ ∃ ending, ending.Whole ∧ ({} : Inflater).Message [] 1 ending [] := by
  have hcut : Blocks [] 1 (1 <<< 15) ⟨[] ++ [0x00,0x00,0xff,0xff],0,0,false⟩ [] .cut [] :=
    .cut rfl rfl rfl
  refine ⟨?_,?_⟩
  · rw [Inflater.inflateMessage,hcut.inflateBlocks_eq (.inl rfl)]
  · rintro ⟨ending,hwhole,hmessage⟩
    rw [hmessage.unique hcut] at hwhole
    exact hwhole

end Courierust.Deflate
