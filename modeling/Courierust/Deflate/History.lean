import Courierust.Deflate.Inflate

/-!
# The retained window

An `Inflater` keeps at most `1 << window_bits` octets between messages. The reference decoder of
this module keeps everything: it reads the same blocks, and a back-reference is resolved in the
whole of what was decoded since the last error or reset. The two give the same results, because
the retained window is always the end of that history, as long as the window is wide.
-/

namespace Courierust.Deflate

open List

/-! ### The reference decoder -/

namespace Reference

def refer (history : List UInt8) (maxOut maxDist : ℕ) (out : List UInt8) (distance len : ℕ) :
    Except Error (List UInt8) :=
  if maxOut < out.length + len then .error (Error.overflow "deflate: output exceeds limit")
  else if maxDist < distance then
    .error (Error.protocol "deflate: back-reference beyond the negotiated window")
  else if history.length + out.length < distance then
    .error (Error.protocol "deflate: back-reference before the window")
  else .ok ((repeatFrom distance len (history ++ out)).drop history.length)

def inflateMessage (bits : ℕ) (history input : List UInt8) (maxOut : ℕ) :
    Except Error (List UInt8) × List UInt8 :=
  match inflateBlocks (refer history maxOut (2 ^ bits)) maxOut true
      ⟨input ++ [0x00, 0x00, 0xff, 0xff], 0, 0, false⟩ [] with
  | (.error e, _) => (.error e, [])
  | (.ok (), out) => (.ok out, history ++ out)

end Reference

/-! ### Runs -/

/-- The window of a decompressor with these bits is the end of the history. -/
structure Retains (bits : ℕ) (inf : Inflater) (history : List UInt8) : Prop where
  windowBits : inf.windowBits = bits
  window : inf.window = history.drop (history.length - 2 ^ bits)

variable {bits : ℕ} {inf : Inflater} {history : List UInt8}

section

variable (h : Retains bits inf history)
include h

theorem Retains.length_window :
    inf.window.length = min history.length (2^bits) := by
  rw [h.window,length_drop]
  generalize 2^bits = cap
  omega

theorem Retains.reset : Retains bits inf.reset [] :=
  ⟨h.windowBits,drop_nil.symm⟩

/-- A message shorter than the window pushes out what no longer fits; a longer one replaces the
window by its own end. -/
theorem Retains.absorb (message : List UInt8) :
    Retains bits (inf.absorb message) (history ++ message) := by
  refine ⟨(inf.windowBits_absorb message).trans h.windowBits,?_⟩
  have hlen := h.length_window
  have hwindow := h.window
  simp only [Inflater.absorb,h.windowBits,Nat.one_shiftLeft,length_append]
  generalize 2^bits = cap at hlen hwindow ⊢
  by_cases hlong : cap ≤ message.length
  · have hpast : history.drop (history.length+message.length-cap) = [] :=
      drop_of_length_le (by omega)
    rw [if_pos hlong,drop_append,hpast,nil_append]
    dsimp only
    congr 1
    omega
  · rw [if_neg hlong]
    dsimp only
    rw [hlen,hwindow,drop_drop,drop_append_of_le_length (by omega)]
    congr 2
    omega

theorem copyMatch_eq_refer (maxOut : ℕ) (out : List UInt8)
    (distance len : ℕ) :
    copyFrom inf.window maxOut (2^bits) out distance len =
      Reference.refer history maxOut (2^bits) out distance len := by
  have hlen := h.length_window
  rw [Reference.refer]
  split_ifs with hroom hdist hreach
  · rw [copyFrom,copyMatch,if_pos hroom]
  · rw [copyFrom,copyMatch,if_neg hroom,if_pos hdist]
  · simp only [copyFrom,copyMatch]
    rw [if_neg hroom,if_neg hdist,if_neg (by omega),if_pos (by omega)]
  · obtain ⟨out',hcopy,hout'⟩ := copyMatch_spec inf.window
      (by omega : out.length+len ≤ maxOut) (by omega : distance ≤ 2^bits) (by omega)
    have hsplit : history ++ out =
        history.take (history.length-2^bits) ++ (inf.window ++ out) := by
      rw [h.window,← append_assoc,take_append_drop]
    rw [copyFrom,hcopy,hsplit,repeatFrom_append _ _ _ _ (by rw [length_append]; omega),
      ← hout',h.window,← append_assoc,take_append_drop,drop_left]

/-- One message: the result is the one of the reference, and the window stays the end of the
history. -/
theorem Retains.inflateMessage (input : List UInt8) (maxOut : ℕ) :
    (inf.inflateMessage input maxOut).1 = (Reference.inflateMessage bits history input maxOut).1 ∧
      Retains bits (inf.inflateMessage input maxOut).2
        (Reference.inflateMessage bits history input maxOut).2 := by
  have hcopy : copyFrom inf.window maxOut (2^bits) = Reference.refer history maxOut (2^bits) := by
    funext out distance len
    exact copyMatch_eq_refer h maxOut out distance len
  simp only [Inflater.inflateMessage,Reference.inflateMessage]
  rw [h.windowBits,Nat.one_shiftLeft,hcopy]
  generalize inflateBlocks (Reference.refer history maxOut (2^bits)) maxOut true _ [] = p
  obtain ⟨result,out⟩ := p
  cases result with
  | error e => exact ⟨rfl,h.reset⟩
  | ok u => exact ⟨rfl,h.absorb out⟩

end

inductive Use where
  | message (input : List UInt8) (maxOut : ℕ)
  | reset

def Inflater.results : Inflater → List Use → List (Except Error (List UInt8)) × Inflater
  | inf, [] => ([], inf)
  | inf, .reset :: uses => inf.reset.results uses
  | inf, .message input maxOut :: uses =>
    let (result, inf) := inf.inflateMessage input maxOut
    let (results, inf) := inf.results uses
    (result :: results, inf)

def Reference.results (bits : ℕ) : List UInt8 → List Use → List (Except Error (List UInt8))
  | _, [] => []
  | _, .reset :: uses => results bits [] uses
  | history, .message input maxOut :: uses =>
    let (result, history) := inflateMessage bits history input maxOut
    result :: results bits history uses

theorem Retains.results (h : Retains bits inf history) (uses : List Use) :
    (inf.results uses).1 = Reference.results bits history uses ∧
      ∃ history', Retains bits (inf.results uses).2 history' := by
  induction uses generalizing inf history with
  | nil => exact ⟨rfl,history,h⟩
  | cons use uses ih =>
    cases use with
    | reset => exact ih h.reset
    | message input maxOut =>
      obtain ⟨hresult,hretains⟩ := h.inflateMessage input maxOut
      obtain ⟨hresults,hrest⟩ := ih hretains
      exact ⟨congrArg₂ List.cons hresult hresults,hrest⟩

/-- The bounded window is exact: whatever is given to a decompressor, each result is that of the
decoder with the complete history, and what is retained never exceeds the window. -/
theorem window_exact (bits : ℕ) (uses : List Use) :
    ((Inflater.new bits).results uses).1 = Reference.results (clampBits bits) [] uses ∧
      ((Inflater.new bits).results uses).2.window.length ≤ 2 ^ clampBits bits := by
  have hnew : Retains (clampBits bits) (Inflater.new bits) [] :=
    ⟨rfl,drop_nil.symm⟩
  obtain ⟨hresults,history,hretains⟩ := hnew.results uses
  refine ⟨hresults,?_⟩
  rw [hretains.length_window]
  exact min_le_right _ _

end Courierust.Deflate
