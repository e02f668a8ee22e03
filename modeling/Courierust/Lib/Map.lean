import Mathlib.Data.List.Basic
import Mathlib.Tactic

/-!
# Lookups in ordered maps

The lookup lemmas of `Std.ExtTreeMap` with the key comparison written as an
equation, for orders that agree with equality, and the sum of a map's values.
-/

namespace OrderedMap

open List
open Std

variable {α β : Type} {cmp : α → α → Ordering} [TransCmp cmp] [LawfulEqCmp cmp] [DecidableEq α]

variable (m : ExtTreeMap α β cmp) (k : α)

theorem get_erase (x : α) : (m.erase k)[x]? = if x = k then none else m[x]? := by
  rw [ExtTreeMap.getElem?_erase]
  by_cases h : x = k
  · simp [h]
  · simp [h,Ne.symm h]

theorem get_insert (x : α) (v : β) : (m.insert k v)[x]? = if x = k then some v else m[x]? := by
  rw [ExtTreeMap.getElem?_insert]
  by_cases h : x = k
  · simp [h]
  · simp [h,Ne.symm h]

theorem get_foldl_erase {γ : Type} (f : γ → α) (l : List γ) (m : ExtTreeMap α β cmp) (x : α) :
    (l.foldl (fun m p => m.erase (f p)) m)[x]? = if x ∈ l.map f then none else m[x]? := by
  induction l generalizing m with
  | nil => rfl
  | cons p l ih =>
    rw [foldl_cons,ih,get_erase,map_cons]
    by_cases hx : x ∈ l.map f
    · rw [if_pos hx,if_pos (mem_cons_of_mem _ hx)]
    · rw [if_neg hx]
      by_cases hp : x = f p
      · rw [if_pos hp,if_pos (hp ▸ mem_cons_self)]
      · rw [if_neg hp,if_neg (by simp [hp,hx])]

def total (m : ExtTreeMap α ℕ cmp) : ℕ := (m.toList.map Prod.snd).sum

omit [DecidableEq α] in
theorem nodup_toList : m.toList.Nodup := by
  refine (ExtTreeMap.distinct_keys_toList).imp fun {a b} hne heq => hne ?_
  rw [heq]
  exact ReflCmp.compare_self

theorem toList_perm : m.toList.Perm (((m[k]?).map (k,·)).toList ++ (m.erase k).toList) := by
  have hmem : ∀ p : α × β, p ∈ ((m[k]?).map (k,·)).toList ↔ p.1 = k ∧ m[k]? = some p.2 := by
    intro p
    cases h : m[k]? with
    | none => simp
    | some v =>
      simp [Prod.ext_iff,eq_comm]
  refine (perm_ext_iff_of_nodup (nodup_toList m) ?_).2 fun p => ?_
  · refine nodup_append.2 ⟨?_,nodup_toList _,fun p hp q hq hpq => ?_⟩
    · cases m[k]? <;> simp
    · have hp := (hmem p).1 hp
      have hq := ExtTreeMap.mem_toList_iff_getElem?_eq_some.1 hq
      rw [← hpq,get_erase,if_pos hp.1] at hq
      cases hq
  · rw [mem_append,hmem,ExtTreeMap.mem_toList_iff_getElem?_eq_some,
      ExtTreeMap.mem_toList_iff_getElem?_eq_some,get_erase]
    by_cases hp : p.1 = k
    · simp [hp]
    · simp [hp]

theorem total_eq (m : ExtTreeMap α ℕ cmp) (k : α) :
    total m = (m[k]?).getD 0+total (m.erase k) := by
  rw [total,((toList_perm m k).map Prod.snd).sum_eq,map_append,sum_append,total]
  cases m[k]? <;> simp

theorem total_insert (m : ExtTreeMap α ℕ cmp) (k : α) (v : ℕ) :
    total (m.insert k v)+(m[k]?).getD 0 = total m+v := by
  have herase : (m.insert k v).erase k = m.erase k := by
    refine ExtTreeMap.ext_getElem? fun x => ?_
    rw [get_erase,get_erase,get_insert]
    split_ifs <;> rfl
  rw [total_eq (m.insert k v) k,total_eq m k,herase,get_insert,if_pos rfl,Option.getD_some]
  omega

theorem le_total (m : ExtTreeMap α ℕ cmp) (k : α) : (m[k]?).getD 0 ≤ total m := by
  rw [total_eq m k]
  exact Nat.le_add_right _ _

end OrderedMap
