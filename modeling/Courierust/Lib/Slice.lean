import Mathlib.Data.List.Basic
import Mathlib.Tactic

/-!
# Pieces of a list

A list that stands at an offset of another one, and lists that are put together by copying
pieces into a buffer.
-/

namespace Slice

open List

variable {α : Type}

/-- `piece` is what stands at offset `s` of `b`. -/
def At (b : List α) (s : ℕ) (piece : List α) : Prop := ∀ i < piece.length, b[s + i]? = piece[i]?

instance [DecidableEq α] (b : List α) (s : ℕ) (piece : List α) : Decidable (At b s piece) :=
  inferInstanceAs (Decidable (∀ i < piece.length, _))

section
variable {b piece d : List α} {s : ℕ}

theorem at_nil : At b s [] := fun _ hi => absurd hi (Nat.not_lt_zero _)

theorem at_take_drop (b : List α) (s n : ℕ) : At b s ((b.drop s).take n) := by
  intro i hi
  have hn : i < n := lt_of_lt_of_le hi (length_take_le n _)
  rw [getElem?_take_of_lt hn,getElem?_drop]

theorem At.drop (h : At b s piece) (n : ℕ) : At b (s+n) (piece.drop n) := by
  intro i hi
  rw [length_drop] at hi
  rw [getElem?_drop,Nat.add_assoc]
  exact h (n+i) (by omega)

theorem At.take (h : At b s piece) (n : ℕ) : At b s (piece.take n) := by
  intro i hi
  rw [length_take] at hi
  rw [getElem?_take_of_lt (by omega)]
  exact h i (by omega)

theorem At.append (h : At b s piece) (hd : At b (s+piece.length) d) : At b s (piece ++ d) := by
  intro i hi
  by_cases hc : i < piece.length
  · rw [getElem?_append_left hc]
    exact h i hc
  · rw [getElem?_append_right (not_lt.1 hc)]
    rw [length_append] at hi
    have := hd (i-piece.length) (by omega)
    rwa [show s+piece.length+(i-piece.length) = s+i by omega] at this

theorem At.grow (h : At b s piece) (d : List α) : At (b ++ d) s piece := by
  intro i hi
  have hpiece := h i hi
  rw [List.getElem?_eq_getElem hi] at hpiece
  obtain ⟨hlt,-⟩ := List.getElem?_eq_some_iff.1 hpiece
  rw [List.getElem?_append_left hlt,hpiece,List.getElem?_eq_getElem hi]

theorem at_append (b piece : List α) : At (b ++ piece) b.length piece := by
  intro i _
  rw [getElem?_append_right (Nat.le_add_right _ _),Nat.add_sub_cancel_left]

theorem At.eq (h : At b s piece) (hd : At b s d) (hlen : piece.length = d.length) : piece = d := by
  apply ext_getElem?
  intro i
  by_cases hi : i < piece.length
  · rw [← h i hi,hd i (hlen ▸ hi)]
  · rw [getElem?_eq_none (not_lt.1 hi),getElem?_eq_none (hlen ▸ not_lt.1 hi)]

theorem At.eq_take (h : At b 0 piece) (hlen : piece.length ≤ b.length) : piece = b.take piece.length := by
  refine h.eq (at_take_drop b 0 piece.length) ?_
  rw [length_take]
  exact (Nat.min_eq_left hlen).symm

end

/-- `copy_from_slice` into the part of a buffer that begins at `idx`. -/
def write (l : List α) (idx : ℕ) (piece : List α) : List α :=
  l.take idx ++ piece ++ l.drop (idx + piece.length)

section
variable {l piece : List α} {idx : ℕ}

theorem length_write (h : idx+piece.length ≤ l.length) : (write l idx piece).length = l.length := by
  simp only [write,length_append,length_take,length_drop]
  omega

theorem getElem?_write_inside (h : idx+piece.length ≤ l.length) {i : ℕ} (hi : idx ≤ i)
    (hlt : i < idx+piece.length) : (write l idx piece)[i]? = piece[i-idx]? := by
  have htake : (l.take idx).length = idx := length_take_of_le (by omega)
  rw [write,append_assoc,getElem?_append_right (by omega),htake,
    getElem?_append_left (by omega)]

theorem getElem?_write_outside (h : idx+piece.length ≤ l.length) {i : ℕ}
    (hi : i < idx ∨ idx+piece.length ≤ i) : (write l idx piece)[i]? = l[i]? := by
  have htake : (l.take idx).length = idx := length_take_of_le (by omega)
  rw [write,append_assoc]
  rcases hi with hi | hi
  · rw [getElem?_append_left (by omega),getElem?_take_of_lt hi]
  · rw [getElem?_append_right (by omega),htake,getElem?_append_right (by omega),
      getElem?_drop,show idx+piece.length+(i-idx-piece.length) = i by omega]

end

/-- The pieces, each with its offset, are copied one after another into a buffer that stands
    for the octets from `base` on. -/
def overlay (base : ℕ) (pieces : List (ℕ × List α)) (l : List α) : List α :=
  pieces.foldl (fun l p => write l (p.1 - base) p.2) l

section
variable {base n : ℕ} {pieces : List (ℕ × List α)} {l b : List α}

/-- The pieces lie in a buffer of length `n`. -/
def Fits (base n : ℕ) (pieces : List (ℕ × List α)) : Prop :=
  ∀ p ∈ pieces, base ≤ p.1 ∧ p.1 + p.2.length ≤ base + n

theorem length_overlay (h : Fits base l.length pieces) :
    (overlay base pieces l).length = l.length := by
  induction pieces generalizing l with
  | nil => rfl
  | cons p pieces ih =>
    obtain ⟨hbase,hend⟩ := h p mem_cons_self
    have hwrite : (write l (p.1-base) p.2).length = l.length := length_write (by omega)
    have hrest : Fits base (write l (p.1-base) p.2).length pieces := fun q hq =>
      hwrite ▸ h q (mem_cons_of_mem p hq)
    exact (ih hrest).trans hwrite

theorem getElem?_overlay (h : Fits base l.length pieces) (hat : ∀ p ∈ pieces, At b p.1 p.2)
    {i : ℕ} (hi : l[i]? = b[base+i]? ∨
      ∃ p ∈ pieces, p.1 ≤ base+i ∧ base+i < p.1+p.2.length) :
    (overlay base pieces l)[i]? = b[base+i]? := by
  induction pieces generalizing l with
  | nil => exact hi.resolve_right fun ⟨p,hp,_⟩ => absurd hp not_mem_nil
  | cons p pieces ih =>
    obtain ⟨hbase,hend⟩ := h p mem_cons_self
    have hfit : p.1-base+p.2.length ≤ l.length := by omega
    have hwrite := length_write hfit
    have hrest : Fits base (write l (p.1-base) p.2).length pieces := fun q hq =>
      hwrite ▸ h q (mem_cons_of_mem p hq)
    refine ih hrest (fun q hq => hat q (mem_cons_of_mem p hq)) ?_
    by_cases hin : p.1 ≤ base+i ∧ base+i < p.1+p.2.length
    · left
      rw [getElem?_write_inside hfit (by omega) (by omega),
        ← hat p mem_cons_self _ (by omega)]
      congr 1
      omega
    · rw [getElem?_write_outside hfit (by omega)]
      refine hi.imp_right fun ⟨q,hq,hcover⟩ => ?_
      rcases mem_cons.1 hq with rfl | hq
      · exact absurd hcover hin
      · exact ⟨q,hq,hcover⟩

theorem At.overlay (h : Fits base l.length pieces) (hat : ∀ p ∈ pieces, At b p.1 p.2)
    (hcover : ∀ i < l.length, ∃ p ∈ pieces, p.1 ≤ base+i ∧ base+i < p.1+p.2.length) :
    At b base (overlay base pieces l) := by
  intro i hi
  rw [length_overlay h] at hi
  exact (getElem?_overlay h hat (Or.inr (hcover i hi))).symm

end

end Slice
