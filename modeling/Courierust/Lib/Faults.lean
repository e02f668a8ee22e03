import Mathlib.Tactic

/-!
# Computations that can fault

A computation that stops the program where an addition overflows or a slice is out of range,
and on top of it one that can also fail in an orderly way. `Returns` and `Safe` say that there is
no fault, with what is known of the result; their rules follow the program.
-/

namespace Faults

inductive Fault where
  | overflow
  | bounds
  deriving DecidableEq

def add (a b : ℕ) : Except Fault ℕ := if a + b < 2 ^ 64 then .ok (a + b) else .error .overflow

def sub (a b : ℕ) : Except Fault ℕ := if b ≤ a then .ok (a - b) else .error .overflow

/-- A shift to the left that loses no bit of a `u64`. -/
def shl (a n : ℕ) : Except Fault ℕ := if a * 2 ^ n < 2 ^ 64 then .ok (a <<< n) else .error .overflow

def index {α : Type} (l : List α) (i : ℕ) : Except Fault α :=
  match l[i]? with
  | some a => .ok a
  | none => .error .bounds

/-- The elements from `a` up to `b`. -/
def slice {α : Type} (l : List α) (a b : ℕ) : Except Fault (List α) :=
  if a ≤ b ∧ b ≤ l.length then .ok ((l.drop a).take (b - a)) else .error .bounds

variable {ε α β : Type}

/-- There is no fault, and the result meets `Q`. -/
def Returns (x : Except Fault α) (Q : α → Prop) : Prop := ∃ a, x = .ok a ∧ Q a

variable {Q : α → Prop} {x : Except Fault α} {a : α}

theorem Returns.pure (h : Q a) : Returns (.ok a) Q := ⟨a,rfl,h⟩

theorem Returns.bind {f : α → Except Fault β} {R : β → Prop} (h : Returns x Q)
    (hf : ∀ a, Q a → Returns (f a) R) : Returns (x >>= f) R := by
  obtain ⟨a,rfl,ha⟩ := h
  exact hf a ha

theorem Returns.mono {R : α → Prop} (h : Returns x Q) (hQR : ∀ a, Q a → R a) : Returns x R := by
  obtain ⟨a,rfl,ha⟩ := h
  exact ⟨a,rfl,hQR a ha⟩

theorem returns_slice {l : List α} {a b : ℕ} (hab : a ≤ b) (hb : b ≤ l.length) :
    Returns (slice l a b) (· = (l.drop a).take (b-a)) := ⟨_,if_pos ⟨hab,hb⟩,rfl⟩

abbrev Fallible (ε α : Type) := ExceptT ε (Except Fault) α

def check (x : Except Fault α) : Fallible ε α := ExceptT.lift x

def need (e : ε) (x : Except Fault (Option α × β)) : Fallible ε (α × β) :=
  ExceptT.mk (x >>= fun r => match r with
    | (some a, b) => .ok (.ok (a, b))
    | (none, _) => .ok (.error e))

/-- `ok_or_else`: another error in place of the one there is. -/
def orElse {ε' : Type} (e : ε') (x : Fallible ε α) : Fallible ε' α :=
  ExceptT.mk (x.run >>= fun r => match r with
    | .ok a => .ok (.ok a)
    | .error _ => .ok (.error e))

theorem Fallible.bind_eq_pure {x : Fallible ε α} {f : α → Fallible ε β} {b : β} :
    x >>= f = pure b ↔ ∃ a, x = pure a ∧ f a = pure b := by
  constructor
  · intro h
    rcases x with fault | e | a
    · cases h
    · cases h
    · exact ⟨a,rfl,h⟩
  · rintro ⟨a,rfl,h⟩
    exact h

theorem check_eq_pure : (check x : Fallible ε α) = pure a ↔ x = .ok a := by
  cases x with
  | error fault => exact iff_of_false (fun h => by cases h) (fun h => by cases h)
  | ok b =>
    constructor
    · intro h
      cases h
      rfl
    · rintro ⟨⟩
      rfl

/-- There is no fault, and a value meets `Q`. -/
def Safe (x : Fallible ε α) (Q : α → Prop) : Prop := Returns x.run fun r => ∀ a, r = .ok a → Q a

theorem Safe.pure (h : Q a) : Safe (Pure.pure a : Fallible ε α) Q := by
  refine ⟨.ok a,rfl,?_⟩
  rintro b ⟨⟩
  exact h

theorem Safe.throw (e : ε) : Safe (throw e : Fallible ε α) Q :=
  ⟨.error e,rfl,fun _ h => by cases h⟩

/-- `if p { return Err(e); }` before the rest of a function. -/
theorem Safe.refuse {p : Prop} [Decidable p] {e : ε} {x : Fallible ε α} (h : ¬ p → Safe x Q) :
    Safe (if p then MonadExcept.throw e else x) Q := by
  split_ifs with hp
  · exact Safe.throw e
  · exact h hp

theorem Safe.bind {x : Fallible ε α} {f : α → Fallible ε β} {R : β → Prop} (h : Safe x Q)
    (hf : ∀ a, Q a → Safe (f a) R) : Safe (x >>= f) R := by
  obtain ⟨r,hr,hQ⟩ := h
  rw [Safe,ExceptT.run_bind,hr]
  cases r with
  | error e => exact ⟨.error e,rfl,fun _ h => by cases h⟩
  | ok a => exact hf a (hQ a rfl)

theorem Safe.mono {x : Fallible ε α} {R : α → Prop} (h : Safe x Q) (hQR : ∀ a, Q a → R a) :
    Safe x R := Returns.mono h fun _ hr a ha => hQR a (hr a ha)

theorem Safe.check (h : Returns x Q) : Safe (check x : Fallible ε α) Q := by
  obtain ⟨a,rfl,ha⟩ := h
  exact Safe.pure ha

theorem Safe.need {x : Except Fault (Option α × β)} {Q : α × β → Prop} (e : ε)
    (h : Returns x fun r => ∀ a, r.1 = some a → Q (a,r.2)) : Safe (need e x) Q := by
  obtain ⟨⟨o,b⟩,rfl,hQ⟩ := h
  cases o with
  | none => exact ⟨.error e,rfl,fun _ h => by cases h⟩
  | some a =>
    refine ⟨.ok (a,b),rfl,?_⟩
    rintro _ ⟨⟩
    exact hQ a rfl

theorem Safe.orElse {ε' : Type} {x : Fallible ε α} (e : ε') (h : Safe x Q) :
    Safe (orElse e x) Q := by
  obtain ⟨r,hr,hQ⟩ := h
  rw [Safe,Faults.orElse]
  rw [hr]
  cases r with
  | error e' => exact ⟨.error e,rfl,fun _ h => by cases h⟩
  | ok a =>
    refine ⟨.ok a,rfl,?_⟩
    rintro _ ⟨⟩
    exact hQ a rfl

end Faults
