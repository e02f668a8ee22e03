import Mathlib.Data.List.Basic
import Mathlib.Tactic

/-!
# Readers over a growing input

A reader takes the front of an input and returns what it read with the rest. When
the input is a stream that arrives in pieces, a reader must also notice that a piece
is not complete yet. `Reads` says both: a word is read whatever follows it, and every
shorter piece of it asks for more.

A loop that reads as many complete words as its buffer holds, and keeps the rest for
the next piece, then reaches the same states however the stream was cut.
-/

namespace Reader

open List

variable {ε τ α β σ : Type} {eof : ε}

/-- `p` reads the word `w` as `a`, and answers `eof` on every shorter piece of it. -/
structure Reads (eof : ε) (p : List τ → Except ε (α × List τ)) (w : List τ) (a : α) : Prop where
  whole : ∀ rest, p (w ++ rest) = .ok (a, rest)
  short : ∀ v, v <+: w → v ≠ w → p v = .error eof

variable {w : List τ} {a : α} {p : List τ → Except ε (α × List τ)} {ws : List (List τ)} {s : σ}
  {step : σ → List τ → Except ε (σ × List τ)}

/-- A piece of two words is a piece of the first, or the first and a piece of the second. -/
theorem piece_cases {v u : List τ} (h : v <+: w ++ u) :
    (v <+: w ∧ v ≠ w) ∨ ∃ v', v = w ++ v' ∧ v' <+: u := by
  rcases prefix_or_prefix_of_prefix h (prefix_append w u) with hv | hw
  · by_cases heq : v = w
    · exact .inr ⟨[],by simpa using heq, nil_prefix⟩
    · exact .inl ⟨hv,heq⟩
  · obtain ⟨v',rfl⟩ := hw
    exact .inr ⟨v',rfl,(prefix_append_right_inj w).1 h⟩

theorem Reads.ne_nil {e : ε} (h : Reads eof p w a) (hnil : p [] = .error e) : w ≠ [] := by
  rintro rfl
  have hread := h.whole []
  rw [nil_append,hnil] at hread
  cases hread

theorem Reads.bind {f : α → List τ → Except ε (β × List τ)} {u : List τ} {b : β}
    (hp : Reads eof p w a) (hf : Reads eof (f a) u b) :
    Reads eof (fun x => p x >>= fun r => f r.1 r.2) (w ++ u) b where
  whole rest := by
    simp only [append_assoc,hp.whole]
    exact hf.whole rest
  short v hv hne := by
    rcases piece_cases hv with ⟨hv,hvw⟩ | ⟨v',rfl,hv'⟩
    · simp only [hp.short v hv hvw]
      rfl
    · simp only [hp.whole]
      exact hf.short v' hv' fun h => hne (by rw [h])

theorem Reads.map {f : α → Except ε β} {b : β} (hp : Reads eof p w a) (hf : f a = .ok b) :
    Reads eof (fun x => p x >>= fun r => f r.1 >>= fun y => pure (y,r.2)) w b where
  whole rest := by
    simp only [hp.whole]
    change (f a >>= fun y => pure (y,rest)) = _
    rw [hf]
    rfl
  short v hv hne := by
    simp only [hp.short v hv hne]
    rfl

theorem Reads.congr {q : List τ → Except ε (α × List τ)} (hp : Reads eof p w a) (hne : w ≠ [])
    (hnil : q [] = .error eof) (h : ∀ x, x.head? = w.head? → q x = p x) : Reads eof q w a where
  whole rest := by
    rw [h _ (by cases w <;> simp_all),hp.whole]
  short v hv hvw := by
    cases v with
    | nil => exact hnil
    | cons x v =>
      obtain ⟨t,rfl⟩ := hv
      rw [h _ (by simp),hp.short _ (prefix_append _ _) hvw]

/-! ### Scripts -/

/-- The words `ws` take a step from `s` to `s'`, one after the other. -/
inductive Script (eof : ε) (step : σ → List τ → Except ε (σ × List τ)) :
    σ → List (List τ) → σ → Prop where
  | nil (s : σ) : Script eof step s [] s
  | cons {s s₁ s₂ : σ} {w : List τ} {ws : List (List τ)} (hne : w ≠ [])
      (hread : Reads eof (step s) w s₁) (hrest : Script eof step s₁ ws s₂) :
      Script eof step s (w :: ws) s₂

theorem Script.functional {s₁ s₂ : σ} (h₁ : Script eof step s ws s₁)
    (h₂ : Script eof step s ws s₂) : s₁ = s₂ := by
  induction h₁ with
  | nil s => cases h₂; rfl
  | @cons s a b w ws hne hread hrest ih =>
    obtain _ | @⟨_,a',_,_,_,hne',hread',hrest'⟩ := h₂
    have hsame : a = a' := by
      have h := (hread.whole []).symm.trans (hread'.whole [])
      simpa using h
    subst hsame
    exact ih hrest'

theorem Script.eq_nil {s' : σ} (h : Script eof step s ws s') (hnil : ws.flatten = []) :
    ws = [] := by
  cases h with
  | nil => rfl
  | cons hne _ _ => exact absurd (append_eq_nil_iff.1 hnil).1 hne

/-- The loop over a buffer: it stops when the buffer is used up or a word is incomplete,
    and leaves what it could not read. Every word takes at least one item. -/
def consume [DecidableEq ε] (eof : ε) (step : σ → List τ → Except ε (σ × List τ)) :
    ℕ → σ → List τ → Except ε (σ × List τ)
  | 0, s, buf => .ok (s, buf)
  | fuel + 1, s, buf =>
    if buf = [] then .ok (s, buf)
    else
      match step s buf with
      | .ok (s, rest) => consume eof step fuel s rest
      | .error e => if e = eof then .ok (s, buf) else .error e

/-- On a piece of a script the loop reads the words that are complete in it, and stops
    short of the next one. On the whole script it leaves nothing. -/
theorem consume_piece [DecidableEq ε] {s' : σ} (h : Script eof step s ws s') {buf : List τ}
    (hbuf : buf <+: ws.flatten) (fuel : ℕ) (hfuel : buf.length ≤ fuel) :
    ∃ done todo s₁ left, ws = done ++ todo ∧ buf = done.flatten ++ left ∧
      Script eof step s done s₁ ∧ Script eof step s₁ todo s' ∧ left <+: todo.flatten ∧
      consume eof step fuel s buf = .ok (s₁,left) ∧
      (buf = ws.flatten → todo = [] ∧ left = []) := by
  induction h generalizing buf fuel with
  | nil s =>
    obtain rfl : buf = [] := by simpa using hbuf
    refine ⟨[],[],s,[],rfl,rfl,.nil s,.nil s, nil_prefix,?_,fun _ => ⟨rfl,rfl⟩⟩
    cases fuel <;> simp [consume]
  | @cons s s₁ s₂ w ws hne hread hrest ih =>
    rcases piece_cases hbuf with ⟨hv,hvw⟩ | ⟨v,rfl,hv⟩
    · -- The first word is not complete.
      refine ⟨[],w :: ws,s,buf,rfl,rfl,.nil s,.cons hne hread hrest,?_,?_,?_⟩
      · exact hv.trans (by rw [flatten_cons]; exact prefix_append _ _)
      · cases fuel with
        | zero => simp [consume]
        | succ fuel =>
          unfold consume
          split_ifs with hnil
          · rfl
          · simp [hread.short buf hv hvw]
      · intro heq
        refine absurd (hv.eq_of_length_le ?_) hvw
        rw [heq,flatten_cons,length_append]
        omega
    · obtain ⟨fuel,rfl⟩ : ∃ k, fuel = k+1 := by
        refine ⟨fuel-1,?_⟩
        have : 0 < w.length := length_pos_iff.2 hne
        simp only [length_append] at hfuel
        omega
      have hlen : v.length ≤ fuel := by
        have : 0 < w.length := length_pos_iff.2 hne
        simp only [length_append] at hfuel
        omega
      obtain ⟨done,todo,s₃,left,rfl,rfl,hdone,htodo,hleft,hrun,hall⟩ := ih hv fuel hlen
      refine ⟨w :: done,todo,s₃,left,rfl,by simp,.cons hne hread hdone,htodo,hleft,?_,?_⟩
      · simp only [consume,hread.whole,hrun]
        simp [hne]
      · intro heq
        exact hall (by simpa using heq)

end Reader
