import Courierust.Quic.Reassembly

/-!
# The final size of a stream

`insert` compares a FIN with the final size it knows, and data with the final size, but a FIN with
nothing that arrived before it.
-/

namespace Courierust.Quic

open List

def StreamFrame.stop (f : StreamFrame) : ℕ := f.offset + f.data.length

namespace StreamReassembly

variable {r r' : StreamReassembly} {f : StreamFrame} {out : List UInt8} {limit : ℕ}

/-- The calls of `insert` with their limits, as long as they succeed. -/
def insertAll (r : StreamReassembly) : List (StreamFrame × ℕ) → Option StreamReassembly
  | [] => some r
  | (f, limit) :: calls =>
    match r.insert f.offset f.data f.fin limit with
    | (.ok _, r) => insertAll r calls
    | (.error _, _) => none

/-! ### One call -/

theorem finalSize_takeReadyLoop (texts : ReassemblyTexts) (fuel : ℕ) (r : StreamReassembly) (out : List UInt8) :
    (takeReadyLoop texts fuel r out).2.finalSize = r.finalSize := by
  induction fuel generalizing r out with
  | zero => rfl
  | succ fuel ih =>
    unfold takeReadyLoop
    split
    · rfl
    · split
      · rfl
      · rw [ih]

theorem finalSize_store (texts : ReassemblyTexts) (r : StreamReassembly) (offset stop : ℕ)
    (data : List UInt8) (limit : ℕ) : (r.store texts offset stop data limit).2.finalSize = r.finalSize := by
  have hbuffer : ∀ r', r.buffer texts offset stop data limit = .ok r' → r'.finalSize = r.finalSize := by
    intro r' h
    unfold buffer merge at h
    split at h
    · split_ifs at h
      cases h
      rfl
    · dsimp only at h
      split_ifs at h
      cases h
      rfl
  unfold store
  split
  · rfl
  · next r' h => rw [takeReady,finalSize_takeReadyLoop,hbuffer r' h]

def Sized (r : StreamReassembly) (stop : ℕ) (fin : Bool) (final : Option ℕ) : Prop :=
  if fin then r.finalSize.all (· = stop) = true ∧ final = some stop
  else r.finalSize.all (stop ≤ ·) = true ∧ final = r.finalSize

theorem check_ok {offset length stop : ℕ} {fin : Bool}
    (h : r.check offset length fin limit = .ok (stop,r')) :
    stop = offset+length ∧ r'.next = r.next ∧ r.Sized stop fin r'.finalSize := by
  by_cases hadd : offset+length ≤ u64Max
  · rw [check,checkedAdd_eq hadd] at h
    dsimp only at h
    split_ifs at h with hlimit hfin hknown hknown
    · cases h
      refine ⟨rfl,rfl,?_⟩
      rw [Sized,if_pos hfin]
      cases hsize : r.finalSize <;> simp_all
    · cases h
      refine ⟨rfl,rfl,?_⟩
      rw [Sized,if_neg hfin]
      cases hsize : r.finalSize <;> simp_all
  · rw [check,checkedAdd,if_neg hadd] at h
    cases h

theorem Sized.again {stop : ℕ} {fin : Bool} {final : Option ℕ} (h : r.Sized stop fin r'.finalSize)
    (h' : r'.Sized stop fin final) : r.Sized stop fin final := by
  unfold Sized at *
  split_ifs at *
  · exact ⟨h.1,h'.2⟩
  · exact ⟨h.1,h'.2.trans h.2⟩

theorem insert_sized (h : r.insert f.offset f.data f.fin limit = (.ok out,r')) :
    r.Sized f.stop f.fin r'.finalSize := by
  unfold insert at h
  split at h
  · cases h
  · next stop r₁ hcheck =>
    obtain ⟨rfl,hnext,hsized⟩ := check_ok hcheck
    split_ifs at h with hold
    · unfold repeated at h
      dsimp only at h
      split_ifs at h with hdiffers hdone
      · cases h
      · unfold takeReady at h
        have hfinal := finalSize_takeReadyLoop .stream r₁.chunks.size r₁ []
        rw [h] at hfinal
        rwa [hfinal]
      split at h
      · cases h
      · next stop r₂ hagain =>
        obtain ⟨hstop,-,hsized'⟩ := check_ok hagain
        have hsame : stop = f.offset+f.data.length := by
          rw [hstop,length_drop]
          omega
        have hfinal := finalSize_store .stream r₂ r₂.next stop
          (f.data.drop (min (r₁.next-f.offset) f.data.length)) limit
        rw [h] at hfinal
        rw [hsame] at hsized'
        rw [hfinal]
        exact hsized.again hsized'
    · have hfinal := finalSize_store .stream r₁ f.offset (f.offset+f.data.length) f.data limit
      rw [h] at hfinal
      rwa [hfinal]

/-! ### Sequences of calls -/

def Below (calls : List (StreamFrame × ℕ)) (size : ℕ) : Prop :=
  ∀ c ∈ calls, c.1.data ≠ [] → c.1.stop ≤ size

def FinsLast (calls : List (StreamFrame × ℕ)) : Prop :=
  calls.Pairwise fun c d => d.1.fin = true → c.1.data ≠ [] → c.1.stop ≤ d.1.stop

theorem insertAll_append {calls : List (StreamFrame × ℕ)} {c : StreamFrame × ℕ} {r₂} :
    insertAll r (calls ++ [c]) = some r₂ ↔ ∃ r₁ out, insertAll r calls = some r₁ ∧
      r₁.insert c.1.offset c.1.data c.1.fin c.2 = (.ok out,r₂) := by
  induction calls generalizing r with
  | nil =>
    simp only [nil_append,insertAll]
    split <;> simp_all
  | cons d calls ih =>
    simp only [cons_append,insertAll]
    split
    · exact ih
    · simp

end StreamReassembly

open StreamReassembly

/-- The final size is above every accepted octet if and only if no FIN ends below an octet that came
    before it. -/
theorem final_size_consistent_iff (calls : List (StreamFrame × ℕ)) (r : StreamReassembly)
    (h : insertAll {} calls = some r) :
    (∀ size, r.finalSize = some size → Below calls size) ↔ FinsLast calls := by
  induction calls using List.reverseRecOn generalizing r with
  | nil =>
    cases h
    exact iff_of_true (fun size hsize => by cases hsize) .nil
  | append_singleton calls c ih =>
    obtain ⟨r₁,out,hbefore,hinsert⟩ := insertAll_append.1 h
    have hsized := insert_sized hinsert
    have hlast : FinsLast (calls ++ [c]) ↔ FinsLast calls ∧ (c.1.fin = true → Below calls c.1.stop) := by
      simp only [FinsLast,Below,pairwise_append,pairwise_singleton,true_and,
        mem_singleton,forall_eq]
      exact and_congr_right fun _ => ⟨fun h hfin d hd => h d hd hfin,fun h d hd hfin => h hfin d hd⟩
    have hsnoc : ∀ size, Below (calls ++ [c]) size ↔
        Below calls size ∧ (c.1.data ≠ [] → c.1.stop ≤ size) := by
      intro size
      simp only [Below,mem_append,mem_singleton,or_imp,forall_and,forall_eq]
    rw [hlast,← ih r₁ hbefore]
    simp only [hsnoc]
    unfold Sized at hsized
    split_ifs at hsized with hfin
    · obtain ⟨hknown,hfinal⟩ := hsized
      simp only [hfinal,Option.some.injEq,forall_eq',hfin,forall_const]
      refine ⟨fun hall => ⟨fun size hsize => ?_,hall.1⟩,fun hall => ⟨hall.2,fun _ => le_rfl⟩⟩
      rw [hsize] at hknown
      rw [of_decide_eq_true hknown]
      exact hall.1
    · obtain ⟨hbelow,hfinal⟩ := hsized
      simp only [hfinal,hfin,Bool.false_eq_true,false_implies,and_true]
      refine ⟨fun hall size hsize => (hall size hsize).1,fun hall size hsize => ⟨hall size hsize,?_⟩⟩
      rw [hsize] at hbelow
      exact fun _ => of_decide_eq_true hbelow

/-- Data, and then the FIN at its end. -/
theorem final_size_consistent_in_order :
    ∃ r, insertAll {} [(⟨0, [1, 2], false⟩, 16), (⟨2, [3], true⟩, 16)] = some r ∧
      ((∀ size, r.finalSize = some size →
        Below [(⟨0, [1, 2], false⟩, 16), (⟨2, [3], true⟩, 16)] size) ↔
        FinsLast [(⟨0, [1, 2], false⟩, 16), (⟨2, [3], true⟩, 16)]) :=
  ⟨_,rfl,final_size_consistent_iff _ _ rfl⟩

/-- A FIN at the second of four octets that were delivered before it is accepted. -/
theorem final_size_below_delivered :
    ∃ r, insertAll {} [(⟨0, [1, 2, 3, 4], false⟩, 16), (⟨0, [1, 2], true⟩, 16)] = some r ∧
      r.finalSize = some 2 ∧ r.next = 4 ∧
      ¬ Below [(⟨0, [1, 2, 3, 4], false⟩, 16), (⟨0, [1, 2], true⟩, 16)] 2 :=
  ⟨_,rfl,rfl,rfl,fun h => absurd (h _ mem_cons_self (by decide)) (by decide)⟩

end Courierust.Quic
