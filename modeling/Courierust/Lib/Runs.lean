import Mathlib.Data.List.Basic
import Mathlib.Data.List.Chain
import Mathlib.Tactic

/-!
# Maximal runs of a descending list of numbers

A strictly descending list of natural numbers splits into maximal runs of
consecutive numbers. A run is kept as the pair `(high, low)` of its ends, and the
runs come highest first.
-/

namespace DescRuns

open List

/-- The runs of `rest`, continuing the open run `low … high` just above it. -/
def runsFrom : List ℕ → ℕ → ℕ → List (ℕ × ℕ)
  | [], high, low => [(high, low)]
  | n :: rest, high, low =>
    if n + 1 = low then runsFrom rest high n else (high, low) :: runsFrom rest n n

/-- `n` lies in one of the runs. -/
def Covers (rs : List (ℕ × ℕ)) (n : ℕ) : Prop := ∃ r ∈ rs, r.2 ≤ n ∧ n ≤ r.1

/-- The runs descend from below `bound`, and leave out a number before each. -/
def Separated : ℕ → List (ℕ × ℕ) → Prop
  | _, [] => True
  | bound, (high, low) :: rs => high + 2 ≤ bound ∧ low ≤ high ∧ Separated low rs

@[simp] theorem not_covers_nil (n : ℕ) : ¬ Covers [] n := by simp [Covers]

@[simp] theorem covers_cons (r : ℕ × ℕ) (rs : List (ℕ × ℕ)) (n : ℕ) :
    Covers (r :: rs) n ↔ (r.2 ≤ n ∧ n ≤ r.1) ∨ Covers rs n := by simp [Covers]

instance (rs : List (ℕ × ℕ)) (n : ℕ) : Decidable (Covers rs n) :=
  inferInstanceAs (Decidable (∃ r ∈ rs, r.2 ≤ n ∧ n ≤ r.1))

variable {bound n low high : ℕ} {rs : List (ℕ × ℕ)} {rest : List ℕ}

theorem Separated.of_mem (hs : Separated bound rs) {r : ℕ × ℕ} (hr : r ∈ rs) :
    r.2 ≤ r.1 ∧ r.1+2 ≤ bound := by
  induction rs generalizing bound with
  | nil => simp at hr
  | cons q rs ih =>
    obtain ⟨hb,hle,hrest⟩ := hs
    rcases mem_cons.1 hr with rfl | hr
    · exact ⟨hle,hb⟩
    · have := ih hrest hr
      omega

theorem Separated.lt_of_covers (hs : Separated bound rs) (hc : Covers rs n) : n+2 ≤ bound := by
  obtain ⟨r,hr,hlow,hhigh⟩ := hc
  have := (hs.of_mem hr).2
  omega

theorem Separated.not_covers_succ (hs : Separated bound rs) {r : ℕ × ℕ} (hr : r ∈ rs) :
    ¬ Covers rs (r.1+1) := by
  induction rs generalizing bound with
  | nil => simp at hr
  | cons q rs ih =>
    obtain ⟨-,hle,hrest⟩ := hs
    rw [covers_cons,not_or]
    rcases mem_cons.1 hr with rfl | hr
    · exact ⟨by omega,fun h => by have := hrest.lt_of_covers h; omega⟩
    · have := hrest.of_mem hr
      exact ⟨by omega,ih hrest hr⟩

theorem Separated.take (hs : Separated bound rs) (k : ℕ) : Separated bound (rs.take k) := by
  induction rs generalizing bound k with
  | nil => simp [Separated]
  | cons r rs ih =>
    cases k with
    | zero => simp [Separated]
    | succ k => exact ⟨hs.1,hs.2.1,ih hs.2.2 k⟩

/-! ### What the runs of a list are -/

theorem separated_runsFrom (hle : low ≤ high) (hb : high+2 ≤ bound)
    (hdesc : (low :: rest).Pairwise (· > ·)) : Separated bound (runsFrom rest high low) := by
  induction rest generalizing high low bound with
  | nil => exact ⟨hb,hle,trivial⟩
  | cons n rest ih =>
    rw [pairwise_cons] at hdesc
    have hn : n < low := hdesc.1 n (by simp)
    unfold runsFrom
    split_ifs with hnext
    · exact ih (by omega) hb hdesc.2
    · exact ⟨hb,hle,ih le_rfl (by omega) hdesc.2⟩

theorem covers_runsFrom (hle : low ≤ high) (n : ℕ) :
    Covers (runsFrom rest high low) n ↔ (low ≤ n ∧ n ≤ high) ∨ n ∈ rest := by
  induction rest generalizing high low with
  | nil => simp [runsFrom]
  | cons m rest ih =>
    unfold runsFrom
    split_ifs with hnext
    · rw [ih (by omega),mem_cons]
      have : (m ≤ n ∧ n ≤ high) ↔ (low ≤ n ∧ n ≤ high) ∨ n = m := by omega
      rw [this,or_assoc]
    · rw [covers_cons,ih le_rfl,mem_cons]
      have : (m ≤ n ∧ n ≤ m) ↔ n = m := by omega
      rw [this]

theorem exists_runsFrom_eq_cons (rest : List ℕ) (high low : ℕ) :
    ∃ low' tail, runsFrom rest high low = (high,low') :: tail := by
  induction rest generalizing low with
  | nil => exact ⟨low,[],rfl⟩
  | cons n rest ih =>
    unfold runsFrom
    split_ifs
    · exact ih n
    · exact ⟨low,_,rfl⟩

private theorem succ_mem_iff (hdesc : (low :: n :: rest).Pairwise (· > ·)) :
    n+1 ∈ low :: n :: rest ↔ n+1 = low := by
  simp only [pairwise_cons,mem_cons,forall_eq_or_imp] at hdesc
  obtain ⟨⟨hn,-⟩,hrest,-⟩ := hdesc
  constructor
  · intro h
    rcases mem_cons.1 h with h | h
    · exact h
    · rcases mem_cons.1 h with h | h
      · omega
      · have := hrest _ h
        omega
  · rintro rfl
    simp

/-- The upper ends of the runs below the open one are the numbers whose successor is
    not in the list. -/
theorem map_fst_runsFrom (hdesc : (low :: rest).Pairwise (· > ·)) :
    (runsFrom rest high low).map Prod.fst =
      high :: rest.filter (fun y => decide (y+1 ∉ low :: rest)) := by
  induction rest generalizing high low with
  | nil => rfl
  | cons n rest ih =>
    have hdesc' := (pairwise_cons.1 hdesc).2
    have hlow := (pairwise_cons.1 hdesc).1
    -- Below `n`, dropping `low` from the list changes no answer: `low` is above `n`.
    have hcongr : rest.filter (fun y => decide (y+1 ∉ n :: rest)) =
        rest.filter (fun y => decide (y+1 ∉ low :: n :: rest)) := by
      refine filter_congr fun y hy => ?_
      have hny : y < n := (pairwise_cons.1 hdesc').1 y hy
      have hnlow : n < low := hlow n (by simp)
      have : y+1 ≠ low := by omega
      simp [this]
    have hn := succ_mem_iff hdesc
    unfold runsFrom
    split_ifs with hnext
    · rw [ih hdesc',hcongr,filter_cons_of_neg (by simp [hn.2 hnext])]
    · rw [map_cons,ih hdesc',hcongr,filter_cons_of_pos]
      exact decide_eq_true fun h => hnext (hn.1 h)

/-! ### Counting runs from the top -/

theorem Separated.filter_fst_eq_nil (hs : Separated bound rs) (hn : bound ≤ n) :
    (rs.map Prod.fst).filter (fun y => decide (n ≤ y)) = [] := by
  induction rs generalizing bound with
  | nil => rfl
  | cons r rs ih =>
    obtain ⟨hb,hle,hrest⟩ := hs
    rw [map_cons,filter_cons_of_neg (by simp; omega)]
    exact ih hrest (by omega)

theorem covers_take_iff (hs : Separated bound rs) (hc : Covers rs n) (k : ℕ) :
    Covers (rs.take k) n ↔ ((rs.map Prod.fst).filter (fun y => decide (n ≤ y))).length ≤ k := by
  induction rs generalizing bound k with
  | nil => exact absurd hc (not_covers_nil n)
  | cons r rs ih =>
    obtain ⟨hb,hle,hrest⟩ := hs
    have hreach : n ≤ r.1 := by
      rcases (covers_cons r rs n).1 hc with h | h
      · exact h.2
      · have := hrest.lt_of_covers h
        omega
    rw [map_cons,filter_cons_of_pos (by simpa using hreach),length_cons]
    cases k with
    | zero => simp
    | succ k =>
      rw [take_succ_cons,covers_cons]
      by_cases hlow : r.2 ≤ n
      · rw [hrest.filter_fst_eq_nil hlow]
        simp [hlow,hreach]
      · have hcr : Covers rs n := by simpa [hlow] using hc
        rw [ih hrest hcr k]
        omega

/-- Runs that are one missing number apart: seen from a number at the top of its run,
    the number two above it is in the set. -/
theorem isChain_take_iff (hs : Separated bound rs) (k : ℕ) :
    (rs.take k).IsChain (fun r s => r.2 = s.1+2) ↔
      ∀ s ∈ (rs.take k).tail, Covers rs (s.1+2) := by
  induction rs generalizing bound k with
  | nil => simp
  | cons r rs ih =>
    cases k with
    | zero => simp
    | succ k =>
      obtain ⟨hb,hle,hrest⟩ := hs
      cases rs with
      | nil => simp
      | cons s rs =>
        cases k with
        | zero => simp
        | succ k =>
          have ih := ih hrest (k+1)
          obtain ⟨hsr,hsle,hrest'⟩ := hrest
          simp only [take_succ_cons,tail_cons] at ih ⊢
          rw [isChain_cons_cons,ih,forall_mem_cons]
          have hnot : ¬ Covers (s :: rs) (s.1+2) := by
            intro h
            rcases (covers_cons s rs _).1 h with h | h
            · omega
            · have := hrest'.lt_of_covers h
              omega
          have hhead : r.2 = s.1+2 ↔ Covers (r :: s :: rs) (s.1+2) := by
            rw [covers_cons]
            constructor
            · intro h
              left
              omega
            · rintro (h | h)
              · omega
              · exact absurd h hnot
          have htail : (∀ t ∈ rs.take k, Covers (s :: rs) (t.1+2)) ↔
              ∀ t ∈ rs.take k, Covers (r :: s :: rs) (t.1+2) := by
            refine forall₂_congr fun t ht => ?_
            have := (hrest'.of_mem (mem_of_mem_take ht)).2
            rw [covers_cons r]
            exact ⟨Or.inr,fun h => h.resolve_left (by omega)⟩
          rw [hhead,htail]

end DescRuns
