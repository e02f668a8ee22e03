import Courierust.Qpack.Codec

/-!
# The dynamic table as a window on a log

Absolute indices never change their meaning: they are positions in the log of all
inserts. The table is the window of that log that has not been evicted yet. An insert
moves the lower end of the window up only as far as the capacity asks for.
-/

namespace Courierust.Qpack

open List

def DynEntry.size (e : DynEntry) : ℕ := DynamicTable.entrySize e.name e.value

def logSize (log : List DynEntry) : ℕ := (log.map DynEntry.size).sum

@[simp] theorem logSize_nil : logSize [] = 0 := rfl

@[simp] theorem logSize_cons (e : DynEntry) (log : List DynEntry) :
    logSize (e :: log) = e.size+logSize log := rfl

@[simp] theorem logSize_append (a b : List DynEntry) :
    logSize (a ++ b) = logSize a+logSize b := by simp [logSize]

theorem DynEntry.le_size (e : DynEntry) : 32 ≤ e.size := by
  simp only [DynEntry.size,DynamicTable.entrySize,satAdd,u64Max]
  omega

theorem length_le_logSize (log : List DynEntry) : 32*log.length ≤ logSize log := by
  induction log with
  | nil => simp
  | cons e log ih =>
    have := e.le_size
    simp only [length_cons,logSize_cons]
    omega

/-- `t` holds the end of `log`: its entries are the last of the log, and its size is
    theirs and within the capacity. -/
structure Tracks (t : DynamicTable) (log : List DynEntry) : Prop where
  count : t.insertCount = log.length
  window : t.entries <:+ log
  size_eq : t.size = logSize t.entries
  size_le : t.size ≤ t.capacity
  capacity : t.capacity < u64Max

namespace Tracks

variable {t : DynamicTable} {log : List DynEntry}

theorem new (c : ℕ) (hc : c < u64Max) : Tracks (DynamicTable.new c) [] :=
  ⟨rfl,suffix_rfl,rfl,Nat.zero_le _,hc⟩

section

variable (h : Tracks t log)
include h

theorem first_add : t.first+t.entries.length = log.length := by
  have := h.window.length_le
  have := h.count
  unfold DynamicTable.first
  omega

theorem entries_eq : t.entries = log.drop t.first := by
  obtain ⟨older,rfl⟩ := h.window
  have hfirst : t.first = older.length := by
    have := h.first_add
    simp only [length_append] at this
    omega
  rw [hfirst,drop_left]

theorem first_le : t.first ≤ log.length := by
  have := h.first_add
  omega

theorem length_le : 32*(log.length-t.first) ≤ t.capacity := by
  have := h.first_add
  have := length_le_logSize t.entries
  have := h.size_le
  have := h.size_eq
  omega

theorem get {i : ℕ} (hi : t.first ≤ i) (hlt : i < log.length) :
    t.get i = log[i]? := by
  have hcount := h.count
  unfold DynamicTable.get
  rw [if_neg (by omega),h.entries_eq,getElem?_drop]
  congr 1
  omega

theorem evictOne (hne : t.entries ≠ []) :
    Tracks t.evictOne log ∧ t.evictOne.first = t.first+1 ∧ t.evictOne.capacity = t.capacity ∧
      t.evictOne.entries.length+1 = t.entries.length := by
  obtain ⟨entries,size,capacity,count⟩ := t
  cases entries with
  | nil => exact absurd rfl hne
  | cons e entries =>
    have hsize := h.size_eq
    have hadd := h.first_add
    simp only [DynamicTable.evictOne]
    refine ⟨⟨h.count,(suffix_cons e entries).trans h.window,?_,?_,h.capacity⟩,?_,?_⟩
    · simp only [logSize_cons,DynEntry.size] at hsize ⊢
      omega
    · have := h.size_le
      simp only at this ⊢
      omega
    · have hcount := h.count
      simp only [DynamicTable.first,length_cons] at hadd hcount ⊢
      omega
    · simp only [length_cons,and_self]

end

/-- The eviction loop makes room, and stops below an index from which the window fits. -/
theorem evictFrom (extra fuel : ℕ) (h : Tracks t log) (hfuel : t.entries.length ≤ fuel)
    (hextra : extra ≤ t.capacity) :
    let t' := DynamicTable.evictFrom extra fuel t
    Tracks t' log ∧ t'.capacity = t.capacity ∧ t'.size+extra ≤ t.capacity ∧ t.first ≤ t'.first ∧
      ∀ k, t.first ≤ k → logSize (log.drop k)+extra ≤ t.capacity → t'.first ≤ k := by
  have hcap := h.capacity
  induction fuel generalizing t with
  | zero =>
    have hnil : t.entries = [] := length_eq_zero_iff.1 (by omega)
    have hzero : t.size = 0 := by rw [h.size_eq,hnil,logSize_nil]
    exact ⟨h,rfl,by simpa [DynamicTable.evictFrom,hzero] using hextra,le_rfl,fun k hk _ => hk⟩
  | succ fuel ih =>
    unfold DynamicTable.evictFrom
    by_cases hbig : t.capacity < satAdd t.size extra
    · have hover : t.capacity < t.size+extra := by
        unfold satAdd at hbig
        omega
      have hne : t.entries ≠ [] := by
        intro hnil
        have := h.size_eq
        rw [hnil,logSize_nil] at this
        omega
      obtain ⟨h₁,hfirst,hcap₁,hlen⟩ := h.evictOne hne
      rw [if_pos hbig]
      obtain ⟨h₂,hcap₂,hroom,hle,hkeep⟩ := ih h₁ (by omega) (by omega) (by omega)
      refine ⟨h₂,hcap₂.trans hcap₁,by omega,by omega,fun k hk hfits => ?_⟩
      refine hkeep k ?_ (by omega)
      -- The whole window does not fit, so `k` is above its oldest entry.
      have : k ≠ t.first := by
        rintro rfl
        have := h.size_eq
        rw [h.entries_eq] at this
        omega
      omega
    · rw [if_neg hbig]
      refine ⟨h,rfl,?_,le_rfl,fun k hk _ => hk⟩
      unfold satAdd at hbig
      omega

theorem insert (h : Tracks t log) {name value : List UInt8}
    (hsize : DynamicTable.entrySize name value ≤ t.capacity) (hcount : log.length+1 < 2^64) :
    ∃ t', t.insert name value = some t' ∧ Tracks t' (log ++ [⟨name,value⟩]) ∧
      t'.capacity = t.capacity ∧ t.first ≤ t'.first ∧
      ∀ k, t.first ≤ k →
        logSize (log.drop k)+DynamicTable.entrySize name value ≤ t.capacity → t'.first ≤ k := by
  have hcap := h.capacity
  obtain ⟨h₁,hcap₁,hroom,hle,hkeep⟩ :=
    h.evictFrom (DynamicTable.entrySize name value) _ le_rfl hsize
  generalize hevict : DynamicTable.evictFrom (DynamicTable.entrySize name value) t.entries.length t =
    t₁ at h₁ hcap₁ hroom hle hkeep
  have hsat : satAdd t₁.size (DynamicTable.entrySize name value) =
      t₁.size+DynamicTable.entrySize name value := by
    unfold satAdd
    omega
  have hnew : (t₁.insertCount+1)%2^64 = log.length+1 := by
    rw [h₁.count]
    exact Nat.mod_eq_of_lt hcount
  let t₂ : DynamicTable := ⟨t₁.entries ++ [⟨name,value⟩],
    t₁.size+DynamicTable.entrySize name value,t₁.capacity,log.length+1⟩
  have hinsert : t.insert name value = some t₂ := by
    simp only [DynamicTable.insert,if_neg (not_lt.2 hsize),hevict,hsat,hnew,t₂]
  have hfirst : t₂.first = t₁.first := by
    have := h₁.count
    simp only [DynamicTable.first,length_append,length_singleton,t₂]
    omega
  refine ⟨t₂,hinsert,⟨by simp [t₂],?_,?_,hroom.trans hcap₁.ge,hcap₁.le.trans_lt hcap⟩,hcap₁,
    hfirst ▸ hle,fun k hk hfits => hfirst ▸ hkeep k hk hfits⟩
  · obtain ⟨older,hlog⟩ := h₁.window
    exact ⟨older,by rw [← append_assoc,hlog]⟩
  · simp [t₂,h₁.size_eq,DynEntry.size]

end Tracks

/-! ### Searches -/

theorem rposition_spec (p : DynEntry → Bool) (entries : List DynEntry) :
    (∀ i, DynamicTable.rposition p entries = some i → ∃ e, entries[i]? = some e ∧ p e = true) ∧
      ∀ i e, entries[i]? = some e → p e = true →
        ∃ j, DynamicTable.rposition p entries = some j ∧ i ≤ j := by
  unfold DynamicTable.rposition
  constructor
  · intro i hi
    obtain ⟨j,hj,rfl⟩ := Option.map_eq_some_iff.1 hi
    obtain ⟨hlt,hp,-⟩ := findIdx?_eq_some_iff_getElem.1 hj
    rw [length_reverse] at hlt
    rw [getElem_reverse] at hp
    exact ⟨_,getElem?_eq_getElem (by omega),hp⟩
  · intro i e hi hp
    obtain ⟨hlt,rfl⟩ := List.getElem?_eq_some_iff.1 hi
    cases hj : entries.reverse.findIdx? p with
    | none =>
      rw [findIdx?_eq_none_iff] at hj
      exact absurd hp (by rw [hj _ (by simp)]; exact Bool.false_ne_true)
    | some j =>
      obtain ⟨hjlt,-,hmin⟩ := findIdx?_eq_some_iff_getElem.1 hj
      refine ⟨_,rfl,?_⟩
      by_contra hgt
      have hbefore : entries.length-1-i < j := by
        simp only [not_le] at hgt
        omega
      have hno := hmin _ hbefore
      rw [getElem_reverse] at hno
      have hidx : entries.length-1-(entries.length-1-i) = i := by omega
      simp only [hidx] at hno
      exact hno hp

namespace Tracks

variable {t : DynamicTable} {log : List DynEntry}

theorem search (h : Tracks t log) (p : DynEntry → Bool) :
    (∀ a, (DynamicTable.rposition p t.entries).map (t.first + ·) = some a →
      t.first ≤ a ∧ ∃ e, log[a]? = some e ∧ p e = true) ∧
      ∀ i e, t.first ≤ i → log[i]? = some e → p e = true →
        ∃ a, (DynamicTable.rposition p t.entries).map (t.first + ·) = some a ∧ i ≤ a := by
  obtain ⟨hfound,hnewest⟩ := rposition_spec p t.entries
  constructor
  · intro a ha
    obtain ⟨j,hj,rfl⟩ := Option.map_eq_some_iff.1 ha
    obtain ⟨e,he,hp⟩ := hfound j hj
    rw [h.entries_eq,getElem?_drop] at he
    exact ⟨Nat.le_add_right _ _,e,he,hp⟩
  · intro i e hi he hp
    have hentry : t.entries[i-t.first]? = some e := by
      rw [h.entries_eq,getElem?_drop,Nat.add_sub_cancel' hi]
      exact he
    obtain ⟨j,hj,hle⟩ := hnewest _ e hentry hp
    exact ⟨t.first+j,by rw [hj]; rfl,by omega⟩

end Tracks

end Courierust.Qpack
