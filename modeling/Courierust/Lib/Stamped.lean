import Mathlib.Tactic

/-!
# Stamped entries

A list of entries, each with a key and a stamp. A new key is put at the end with the next stamp;
an entry that is replaced leaves its stamp to the new one. The stamps then tell which key has
been in the list for longer, whatever was replaced or dropped.
-/

namespace Stamped

open List

variable {α κ : Type} {key : α → κ} {stamp : α → ℕ}

/-- The births after operation number `now`, from the list before it: a key that is in the list
keeps its birth. -/
def births [DecidableEq κ] (key : α → κ) (before : List α) (old : κ → ℕ) (now : ℕ) (k : κ) : ℕ :=
  if k ∈ before.map key then old k else now

/-- The entries stand in the order of their stamps and of the births of their keys. -/
structure Aged (key : α → κ) (stamp : α → ℕ) (born : κ → ℕ) (next now : ℕ) (l : List α) : Prop where
  ordered : l.Pairwise fun a b => stamp a < stamp b ∧ born (key a) < born (key b)
  stamp_le : ∀ a ∈ l, stamp a ≤ next
  born_lt : ∀ a ∈ l, born (key a) < now

namespace Aged

variable {born : κ → ℕ} {next now : ℕ} {l l' : List α}

theorem nil : Aged key stamp born next now [] :=
  ⟨List.Pairwise.nil,fun _ h => absurd h not_mem_nil,fun _ h => absurd h not_mem_nil⟩

section

variable (h : Aged key stamp born next now l)
include h

theorem sublist (hsub : l'.Sublist l) :
    Aged key stamp born next now l' :=
  ⟨h.ordered.sublist hsub,fun a ha => h.stamp_le a (hsub.subset ha),
    fun a ha => h.born_lt a (hsub.subset ha)⟩

theorem of_map_eq
    (heq : l'.map (fun a => (key a,stamp a)) = l.map fun a => (key a,stamp a)) :
    Aged key stamp born next now l' := by
  have hmem : ∀ a ∈ l', ∃ b ∈ l, key b = key a ∧ stamp b = stamp a := by
    intro a ha
    have hpair : (key a,stamp a) ∈ l.map fun a => (key a,stamp a) :=
      heq ▸ mem_map_of_mem ha
    obtain ⟨b,hb,hab⟩ := mem_map.1 hpair
    exact ⟨b,hb,congrArg Prod.fst hab,congrArg Prod.snd hab⟩
  refine ⟨?_,?_,?_⟩
  · have hpairs := pairwise_map (f := fun a => (key a,stamp a))
      (R := fun a b => a.2 < b.2 ∧ born a.1 < born b.1) (l := l')
    rw [heq] at hpairs
    exact hpairs.1 (pairwise_map.2 h.ordered)
  · intro a ha
    obtain ⟨b,hb,-,hstamp⟩ := hmem a ha
    exact hstamp ▸ h.stamp_le b hb
  · intro a ha
    obtain ⟨b,hb,hkey,-⟩ := hmem a ha
    exact hkey ▸ h.born_lt b hb

theorem tick [DecidableEq κ] :
    Aged key stamp (births key l born now) next (now+1) l := by
  have hborn : ∀ a ∈ l, births key l born now (key a) = born (key a) := fun a ha =>
    if_pos (mem_map_of_mem ha)
  refine ⟨?_,h.stamp_le,fun a ha => ?_⟩
  · refine h.ordered.imp_of_mem fun {a b} ha hb hab => ?_
    rwa [hborn a ha,hborn b hb]
  · rw [hborn a ha]
    exact Nat.lt_succ_of_lt (h.born_lt a ha)

theorem replace {i : ℕ} {old a : α} (hold : l[i]? = some old)
    (hkey : key a = key old) (hstamp : stamp a = stamp old) :
    Aged key stamp born next now (l.set i a) := by
  refine h.of_map_eq (ext_getElem? fun j => ?_)
  obtain ⟨hi,-⟩ := List.getElem?_eq_some_iff.1 hold
  rw [List.getElem?_map,List.getElem?_map,List.getElem?_set]
  by_cases hij : i = j
  · rw [if_pos hij,if_pos (hij ▸ hi),← hij,hold,Option.map_some,Option.map_some,hkey,hstamp]
  · rw [if_neg hij]

theorem push [DecidableEq κ] {a : α} (hkey : key a ∉ l.map key)
    (hstamp : stamp a = next+1) :
    Aged key stamp (births key l born now) (next+1) (now+1) (l ++ [a]) := by
  have hborn : births key l born now (key a) = now := if_neg hkey
  have htick := h.tick
  refine ⟨?_,?_,?_⟩
  · refine pairwise_append.2 ⟨htick.ordered,pairwise_singleton _ _,?_⟩
    intro b hb a' ha'
    rw [mem_singleton.1 ha',hstamp,hborn]
    have hold : births key l born now (key b) = born (key b) := if_pos (mem_map_of_mem hb)
    rw [hold]
    exact ⟨Nat.lt_succ_of_le (h.stamp_le b hb),h.born_lt b hb⟩
  · intro b hb
    rcases mem_append.1 hb with hb | hb
    · exact Nat.le_succ_of_le (h.stamp_le b hb)
    · rw [mem_singleton.1 hb,hstamp]
  · intro b hb
    rcases mem_append.1 hb with hb | hb
    · exact htick.born_lt b hb
    · rw [mem_singleton.1 hb,hborn]
      exact Nat.lt_succ_self now

theorem births_lt {a b : α} (ha : a ∈ l) (hb : b ∈ l)
    (hne : a ≠ b) (hle : stamp a ≤ stamp b) : born (key a) < born (key b) := by
  obtain ⟨i,hi,rfl⟩ := getElem_of_mem ha
  obtain ⟨j,hj,rfl⟩ := getElem_of_mem hb
  have hpairs := pairwise_iff_getElem.1 h.ordered
  rcases lt_trichotomy i j with hij | rfl | hji
  · exact (hpairs i j hi hj hij).2
  · exact absurd rfl hne
  · exact absurd hle (not_le.2 (hpairs j i hj hi hji).1)

theorem nodup : l.Nodup :=
  h.ordered.imp fun hab heq => by rw [heq] at hab; exact absurd hab.1 (lt_irrefl _)

end

end Aged

end Stamped
