import Courierust.Http.Text

/-!
# Name constraints

`dns_name_matches_constraint`: whether a DNS name lies in a constrained subtree. A wildcard in an
excluded subtree stands for all the names it expands to.
-/

namespace Courierust.Tls

open List
open Http (eqIgnoreAsciiCase toAsciiLowercase)

def subdomain (name constraint : List UInt8) : Bool :=
  if name.length ≤ constraint.length then false
  else
    let off := name.length - constraint.length
    if constraint.head? = some 0x2e then eqIgnoreAsciiCase (name.drop off) constraint
    else name.getD (off - 1) 0 = 0x2e && eqIgnoreAsciiCase (name.drop off) constraint

def dnsNameMatchesConstraint (p c : List UInt8) (isExcluded : Bool) : Bool :=
  if c.isEmpty then true
  else if isExcluded && [0x2a, 0x2e].isPrefixOf p then
    let x := p.drop 2
    let pre := c.length - x.length
    if c.head? ≠ some 0x2e && eqIgnoreAsciiCase x c then true
    else if subdomain x c then true
    else if 1 < pre && x.isSuffixOf c && c.getD (pre - 1) 0 = 0x2e &&
        !(c.take (pre - 1)).contains 0x2e then true
    else c.head? = some 0x2e && eqIgnoreAsciiCase x (c.drop 1)
  else if c.head? = some 0x2e then subdomain p c
  else if eqIgnoreAsciiCase p c then true
  else subdomain p c

/-- The constraint without a leading dot. -/
def base (c : List UInt8) : List UInt8 := if c.head? = some 0x2e then c.drop 1 else c

/-- Labels before the base; a leading dot of the constraint leaves the boundary to it. -/
def Below (name c : List UInt8) : Prop :=
  ∃ l, name = l ++ 0x2e :: base c ∧ (c.head? = some 0x2e → l ≠ [])

def InSubtree (name c : List UInt8) : Prop :=
  c = [] ∨ c.head? ≠ some 0x2e ∧ name = c ∨ Below name c

/-- A name that `p` stands for lies in the subtree. -/
def Reaches (p c : List UInt8) : Prop :=
  if [0x2a, 0x2e] <+: p then ∃ l ≠ [], 0x2e ∉ l ∧ InSubtree (l ++ 0x2e :: p.drop 2) c
  else InSubtree p c

section Matching

variable {name c x : List UInt8}

theorem cons_base (h : c.head? = some 0x2e) : 0x2e :: base c = c := by
  rw [base,if_pos h,drop_one,cons_head?_tail h]

theorem eqIgnoreAsciiCase_iff (hx : x.map toAsciiLowercase = x) (hc : c.map toAsciiLowercase = c) :
    eqIgnoreAsciiCase x c = true ↔ x = c := by
  rw [Http.eqIgnoreAsciiCase_eq,hx,hc,beq_iff_eq]

theorem add_succ_sub (n m : ℕ) : n+(m+1)-m = n+1 := by omega

/-- The test for a base one label longer than the wildcard's parent. -/
theorem longer_iff :
    (1 < c.length-x.length && x.isSuffixOf c && c.getD (c.length-x.length-1) 0 = 0x2e &&
      !(c.take (c.length-x.length-1)).contains 0x2e) = true ↔
      ∃ l ≠ [], 0x2e ∉ l ∧ c = l ++ 0x2e :: x := by
  constructor
  · intro h
    simp only [Bool.and_eq_true,isSuffixOf_iff_suffix,decide_eq_true_eq] at h
    obtain ⟨⟨⟨hpre,t,rfl⟩,hdot⟩,hfree⟩ := h
    rcases eq_nil_or_concat' t with rfl | ⟨t,b,rfl⟩
    · simp at hpre
    · simp [add_succ_sub] at hpre hdot hfree
      exact ⟨t,length_pos_iff.1 hpre,hfree,by simp [hdot]⟩
  · rintro ⟨l,hne,hfree,rfl⟩
    simp [add_succ_sub,hfree,length_pos_iff.2 hne,suffix_iff_eq_drop]

/-- A dot-free label ends at the first dot, so a second reading of the name goes on after it. -/
theorem append_dot {l m y : List UInt8} (hfree : 0x2e ∉ l) (h : l ++ 0x2e :: x = m ++ 0x2e :: y) :
    x = y ∨ ∃ a, x = a ++ 0x2e :: y := by
  rcases append_eq_append_iff.1 h with ⟨a,rfl,ha⟩ | ⟨a,rfl,ha⟩ <;> cases a <;> simp_all

theorem expands_iff (hne : c ≠ []) :
    (∃ l ≠ [], 0x2e ∉ l ∧ InSubtree (l ++ 0x2e :: x) c) ↔
      x = base c ∨ (∃ l, x = l ++ 0x2e :: base c) ∨ ∃ l ≠ [], 0x2e ∉ l ∧ c = l ++ 0x2e :: x := by
  constructor
  · rintro ⟨l,hl,hfree,h | ⟨-,h⟩ | ⟨m,h,-⟩⟩
    · exact absurd h hne
    · exact .inr (.inr ⟨l,hl,hfree,h.symm⟩)
    · exact (append_dot hfree h).imp_right .inl
  · rintro (rfl | ⟨l,rfl⟩ | ⟨l,hl,hfree,h⟩)
    · exact ⟨[0x61],by simp,by simp,.inr (.inr ⟨[0x61],rfl,by simp⟩)⟩
    · exact ⟨[0x61],by simp,by simp,.inr (.inr ⟨0x61 :: 0x2e :: l,rfl,by simp⟩)⟩
    · refine ⟨l,hl,hfree,.inr (.inl ⟨fun hdot => hfree ?_,h.symm⟩)⟩
      rw [h,head?_append_of_ne_nil _ hl] at hdot
      exact mem_of_mem_head? hdot

variable (hc : c.map toAsciiLowercase = c)

include hc in
theorem subdomain_iff (hname : name.map toAsciiLowercase = name) :
    subdomain name c = true ↔ Below name c := by
  have heq : eqIgnoreAsciiCase (name.drop (name.length-c.length)) c = true ↔ c <:+ name := by
    rw [eqIgnoreAsciiCase_iff (by rw [map_drop,hname]) hc,suffix_iff_eq_drop,eq_comm]
  simp only [subdomain,Below,Bool.if_false_left,Bool.and_eq_true]
  split_ifs with hdot
  · rw [heq,cons_base hdot]
    constructor
    · rintro ⟨hlong,l,rfl⟩
      exact ⟨l,rfl,by rintro-rfl; simp at hlong⟩
    · rintro ⟨l,rfl,hl⟩
      exact ⟨by simp [hl hdot],suffix_append l c⟩
  · rw [Bool.and_eq_true,heq,decide_eq_true_eq,base,if_neg hdot]
    constructor
    · rintro ⟨hlong,hb,t,rfl⟩
      rcases eq_nil_or_concat' t with rfl | ⟨t,b,rfl⟩
      · simp at hlong
      · simp [add_succ_sub] at hb
        exact ⟨t,by simp [hb],by simp [hdot]⟩
    · rintro ⟨l,rfl,-⟩
      exact ⟨by simp; omega,by simp [add_succ_sub],l ++ [0x2e],by simp⟩

include hc in
theorem matches_iff_inSubtree (hname : name.map toAsciiLowercase = name)
    (hwild : ¬ [0x2a,0x2e] <+: name) :
    dnsNameMatchesConstraint name c true = true ↔ InSubtree name c := by
  rw [dnsNameMatchesConstraint,InSubtree,← subdomain_iff hc hname]
  by_cases hdot : c.head? = some 0x2e <;> simp [hwild,hdot,eqIgnoreAsciiCase_iff hname hc]

include hc in
theorem matches_wildcard (hne : c ≠ []) (hx : x.map toAsciiLowercase = x) :
    dnsNameMatchesConstraint (0x2a :: 0x2e :: x) c true = true ↔
      x = base c ∨ Below x c ∨ ∃ l ≠ [], 0x2e ∉ l ∧ c = l ++ 0x2e :: x := by
  have hdrop := eqIgnoreAsciiCase_iff hx (by rw [map_tail,hc])
  rw [dnsNameMatchesConstraint,← subdomain_iff hc hx,← longer_iff,base]
  by_cases hdot : c.head? = some 0x2e
  · simp [hdot,hne,hdrop,or_comm,or_left_comm]
  · simp [hdot,hne,eqIgnoreAsciiCase_iff hx hc]

end Matching

/-- A wildcard whose parent is a base with its leading dot is let through: its expansions have an
    empty label before the base, which no test looks for. -/
theorem excluded_matches_iff (p c : List UInt8) (hp : p.map toAsciiLowercase = p)
    (hc : c.map toAsciiLowercase = c) :
    (dnsNameMatchesConstraint p c true = true ↔ Reaches p c) ↔
      ¬ (c.head? = some 0x2e ∧ p = 0x2a :: 0x2e :: c) := by
  rw [Reaches]
  split_ifs with hwild
  · obtain ⟨x,rfl⟩ := hwild
    have hx : x.map toAsciiLowercase = x := (cons.inj (cons.inj hp).2).2
    rcases eq_or_ne c [] with rfl | hne
    · simpa [InSubtree,dnsNameMatchesConstraint] using ⟨[0x61],by simp,by simp⟩
    have hmatches := matches_wildcard hc hne hx
    have hexpands := expands_iff (x := x) hne
    simp only [cons_append,nil_append,drop_succ_cons,drop_zero,cons.injEq,true_and] at *
    rw [hmatches,hexpands]
    constructor
    · rintro h ⟨hdot,rfl⟩
      have hcons := cons_base hdot
      rcases h.2 (.inr (.inl ⟨[],hcons.symm⟩)) with hbase | ⟨l,hl,hne⟩ | ⟨l,-,-,hl⟩
      · exact cons_ne_self _ _ ((congrArg _ hbase).trans hcons)
      · exact hne hdot (self_eq_append_left.1 (hcons ▸ hl))
      · simpa using self_eq_append_left.1 (hl.trans (append_cons l _ _))
    · refine fun h => or_congr_right (or_congr_left (exists_congr fun l => and_iff_left_of_imp ?_))
      rintro rfl hdot rfl
      exact h ⟨hdot,cons_base hdot⟩
  · rw [matches_iff_inSubtree hc hp hwild]
    simp only [iff_self,true_iff]
    rintro ⟨-,rfl⟩
    exact hwild (prefix_append [0x2a,0x2e] c)

theorem excluded_matches_iff_parent :
    dnsNameMatchesConstraint [0x2a, 0x2e, 0x79] [0x2e, 0x79] true = true ↔
      Reaches [0x2a, 0x2e, 0x79] [0x2e, 0x79] :=
  (excluded_matches_iff _ _ (by decide) (by decide)).2 (by decide)

/-- `*..y` expands to `a..y`, which is below `.y`. -/
theorem wildcard_escapes :
    dnsNameMatchesConstraint [0x2a, 0x2e, 0x2e, 0x79] [0x2e, 0x79] true = false ∧
      Reaches [0x2a, 0x2e, 0x2e, 0x79] [0x2e, 0x79] := by
  refine ⟨by decide,?_⟩
  rw [Reaches,if_pos (by decide),expands_iff (by simp)]
  exact .inr (.inl ⟨[],rfl⟩)

end Courierust.Tls
