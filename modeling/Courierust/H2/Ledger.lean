import Mathlib.Algebra.BigOperators.Finprod
import Courierust.H2.Connection

/-!
# The receive ledger

What a connection does with received octets, without frames and streams: octets are charged
to the connection window, a stream holds them until they are released or the stream is
closed, and credit that is due collects in `pending` until it is worth a grant.

With automatic release every charge is credited at once, so what a stream holds is a second
record of octets already credited. Without it, what the streams hold is exactly what is owed.
-/

namespace Courierust.H2

open Function

/-! ### Totals of finitely supported functions -/

variable {f : ℕ → ℤ}

theorem finsum_update (hf : f.support.Finite) (id : ℕ) (v : ℤ) :
    ∑ᶠ x, Function.update f id v x = (∑ᶠ x, f x)-f id+v := by
  classical
  let S : Finset ℕ := insert id hf.toFinset
  have hid : id ∈ S := Finset.mem_insert_self _ _
  have hsub : f.support ⊆ (S : Set ℕ) := fun x hx => by simp [S,mem_support.1 hx]
  have hsub' : (Function.update f id v).support ⊆ (S : Set ℕ) := by
    intro x hx
    by_cases hx' : x = id
    · exact hx' ▸ hid
    · refine hsub ?_
      rwa [mem_support,update_of_ne hx'] at hx
  rw [finsum_eq_sum_of_support_subset _ hsub,finsum_eq_sum_of_support_subset _ hsub',
    Finset.sum_update_of_mem hid,← Finset.sum_sdiff (Finset.singleton_subset_iff.2 hid),
    Finset.sum_singleton]
  ring

theorem finite_support_update (hf : f.support.Finite) (id : ℕ) (v : ℤ) :
    (Function.update f id v).support.Finite := by
  refine (hf.insert id).subset fun x hx => ?_
  by_cases hx' : x = id
  · exact Set.mem_insert_iff.2 (.inl hx')
  · rw [mem_support,update_of_ne hx'] at hx
    exact Set.mem_insert_iff.2 (.inr hx)

theorem le_finsum (hf : f.support.Finite) (hnonneg : ∀ x, 0 ≤ f x) (id : ℕ) : f id ≤ ∑ᶠ x, f x := by
  have hrest := finsum_update hf id 0
  have hpos : 0 ≤ ∑ᶠ x, Function.update f id 0 x := by
    refine finsum_nonneg fun x => ?_
    by_cases hx : x = id
    · rw [hx,update_self]
    · rw [update_of_ne hx]
      exact hnonneg x
  omega

/-! ### The ledger -/

/-- The columns: the window, credit due and credit granted, octets received and octets
    charged, and what each stream holds. -/
structure Ledger where
  window : FlowWindow
  pending : ℤ
  granted : ℤ
  received : ℤ
  charged : ℤ
  held : ℕ → ℤ

namespace Ledger

def arrive (l : Ledger) (n : ℕ) : Ledger := { l with received := l.received + n }

def charge (l : Ledger) (id n : ℕ) : Ledger :=
  { l with
    window := l.window.consume n
    charged := l.charged + n
    held := Function.update l.held id (l.held id + n) }

def credit (l : Ledger) (n : ℕ) : Ledger :=
  let due := l.pending + n
  if CONN_THRESHOLD ≤ due then
    { l with
      window := l.window.release (toIncrement due)
      pending := 0
      granted := l.granted + toIncrement due }
  else { l with pending := due }

def letGo (l : Ledger) (threshold : ℤ) (id : ℕ) : Ledger :=
  if threshold ≤ l.held id then { l with held := Function.update l.held id 0 } else l

/-- Release of `n` octets of a stream. -/
def release (l : Ledger) (threshold : ℤ) (id n : ℕ) : Ledger := (l.letGo threshold id).credit n

def giveBack (l : Ledger) (id : ℕ) : Ledger :=
  if 0 < l.held id then
    { l with window := l.window.release (l.held id), pending := l.pending + l.held id }
  else l

def grant (l : Ledger) : Ledger :=
  if CONN_THRESHOLD ≤ l.pending then
    { l with pending := 0, granted := l.granted + toIncrement l.pending }
  else l

def close (l : Ledger) (id : ℕ) : Ledger :=
  { (l.giveBack id).grant with held := Function.update l.held id 0 }

/-- Every octet charged is granted, pending, or held by a stream that still owes it. -/
structure Balanced (auto : Bool) (l : Ledger) : Prop where
  limit : l.window.limit = MAX_FLOW_WINDOW
  size : l.window.size = 65535 - l.charged + l.granted + if auto then 0 else l.pending
  open_ : 0 ≤ l.window.size
  due : 0 ≤ l.pending
  small : l.pending < CONN_THRESHOLD
  nonneg : ∀ id, 0 ≤ l.held id
  finite : l.held.support.Finite
  owed : l.charged = l.granted + l.pending + if auto then 0 else ∑ᶠ id, l.held id

theorem toIncrement_eq {n : ℤ} (hlow : 0 ≤ n) (hhigh : n < 2^32) : (toIncrement n : ℤ) = n := by
  unfold toIncrement
  omega

theorem threshold_pos : 0 < CONN_THRESHOLD := by decide

variable {l : Ledger} {auto : Bool}

theorem charged_close (l : Ledger) (id : ℕ) :
    (l.close id).charged = l.charged ∧ (l.close id).received = l.received := by
  unfold close giveBack grant
  split_ifs <;> exact ⟨rfl,rfl⟩

theorem charged_release (l : Ledger) (threshold : ℤ) (id n : ℕ) :
    (l.release threshold id n).charged = l.charged ∧
      (l.release threshold id n).received = l.received := by
  unfold release letGo credit
  simp only
  split_ifs <;> exact ⟨rfl,rfl⟩

theorem Balanced.received (h : Balanced auto l) (n : ℤ) :
    Balanced auto { l with received := n } :=
  ⟨h.limit,h.size,h.open_,h.due,h.small,h.nonneg,h.finite,h.owed⟩

variable {S : ℕ → Prop}

theorem update_nonneg (hnonneg : ∀ x, 0 ≤ f x) {v : ℤ} (hv : 0 ≤ v) (id x : ℕ) :
    0 ≤ Function.update f id v x := by
  rw [update_apply]
  split_ifs
  · exact hv
  · exact hnonneg x

theorem Balanced.hold (h : Balanced true l) (id : ℕ) {v : ℤ} (hv : 0 ≤ v) :
    Balanced true { l with held := Function.update l.held id v } :=
  ⟨h.limit,h.size,h.open_,h.due,h.small,update_nonneg h.nonneg hv id,
    finite_support_update h.finite id v,h.owed⟩

theorem Balanced.close_idle (h : Balanced auto l) {id : ℕ} (hid : l.held id = 0) :
    l.close id = l := by
  have hgive : l.giveBack id = l := if_neg (by omega)
  have hgrant : l.grant = l := if_neg (by have := h.small; omega)
  have hheld : Function.update l.held id 0 = l.held := by rw [← hid,update_eq_self]
  rw [close,hgive,hgrant,hheld]

theorem Balanced.charge_zero (h : Balanced auto l) (id : ℕ) : l.charge id 0 = l := by
  have hsize := h.size
  have hopen := h.open_
  have hdue := h.due
  have howed := h.owed
  have hconsume : l.window.consume 0 = l.window := by
    have hlimit : l.window.size ≤ 2^63-1 := by
      cases auto
      · have := finsum_nonneg h.nonneg
        omega
      · simp only [if_true] at hsize howed
        omega
    unfold FlowWindow.consume
    rw [sub_zero,satI64_eq (by omega) hlimit]
  simp [charge,hconsume]

theorem Balanced.charge (h : Balanced false l) {id n : ℕ} (hn : (n : ℤ) ≤ l.window.size) :
    Balanced false (l.charge id n) := by
  have hsize := h.size
  have howed := h.owed
  have htotal := finsum_nonneg h.nonneg
  simp only [Bool.false_eq_true,if_false] at hsize howed
  have hwindow : (l.window.consume n).size = l.window.size-n :=
    satI64_eq (by omega) (by have := h.due; omega)
  refine ⟨h.limit,?_,?_,h.due,h.small,fun x => ?_,finite_support_update h.finite id _,?_⟩
  · change (l.window.consume n).size = 65535-(l.charged+n)+l.granted+l.pending
    omega
  · change 0 ≤ (l.window.consume n).size
    omega
  · exact update_nonneg h.nonneg (by have := h.nonneg id; omega) id x
  · change l.charged+n = l.granted+l.pending + ∑ᶠ x, Function.update l.held id (l.held id+n) x
    rw [finsum_update h.finite]
    omega

theorem Balanced.close (h : Balanced false l) (id : ℕ) : Balanced false (l.close id) := by
  by_cases hid : 0 < l.held id
  swap
  · rwa [h.close_idle (by have := h.nonneg id; omega)]
  have hsize := h.size
  have howed := h.owed
  have hle := le_finsum h.finite h.nonneg id
  have hopen := h.open_
  have hdue := h.due
  have hsmall := h.small
  have htotal := finsum_update h.finite id 0
  have hlimit := h.limit
  simp only [Bool.false_eq_true,if_false] at hsize howed
  have hthreshold : CONN_THRESHOLD = 32768 := rfl
  have hwindow : (l.window.release (l.held id)).size = l.window.size+l.held id := by
    simp only [FlowWindow.release]
    rw [satI64_eq (by omega) (by omega),hlimit,MAX_FLOW_WINDOW]
    omega
  have hgive : l.giveBack id =
      { l with window := l.window.release (l.held id), pending := l.pending+l.held id } :=
    if_pos hid
  have hnonneg := update_nonneg h.nonneg le_rfl id
  have hfinite := finite_support_update h.finite id 0
  unfold Ledger.close grant
  rw [hgive]
  split_ifs with hmany
  · have hinc := toIncrement_eq (n := l.pending+l.held id) (by omega) (by omega)
    refine ⟨hlimit,?_,?_,le_rfl,threshold_pos,hnonneg,hfinite,?_⟩
    · change (l.window.release (l.held id)).size =
        65535-l.charged+(l.granted+toIncrement (l.pending+l.held id))+0
      omega
    · change 0 ≤ (l.window.release (l.held id)).size
      omega
    · change l.charged = l.granted+toIncrement (l.pending+l.held id)+0 +
        ∑ᶠ x, Function.update l.held id 0 x
      omega
  · change ¬ CONN_THRESHOLD ≤ l.pending+l.held id at hmany
    refine ⟨hlimit,?_,?_,?_,?_,hnonneg,hfinite,?_⟩
    · change (l.window.release (l.held id)).size =
        65535-l.charged+l.granted+(l.pending+l.held id)
      omega
    · change 0 ≤ (l.window.release (l.held id)).size
      omega
    · change 0 ≤ l.pending+l.held id
      omega
    · change l.pending+l.held id < CONN_THRESHOLD
      omega
    · change l.charged = l.granted+(l.pending+l.held id) +
        ∑ᶠ x, Function.update l.held id 0 x
      omega

theorem Balanced.charge_release (h : Balanced true l) {id n : ℕ} (hn : (n : ℤ) ≤ l.window.size)
    (threshold : ℤ) : Balanced true ((l.charge id n).release threshold id n) := by
  have hsize := h.size
  have howed := h.owed
  have hdue := h.due
  simp only [if_true] at hsize howed
  have hconsume : (l.window.consume n).size = l.window.size-n :=
    satI64_eq (by omega) (by omega)
  -- Whether the stream lets go does not touch the connection's columns.
  obtain ⟨held,hheld,hnonneg,hfinite⟩ : ∃ held,
      (l.charge id n).letGo threshold id = { l.charge id n with held := held } ∧
        (∀ x, 0 ≤ held x) ∧ held.support.Finite := by
    have hpos : ∀ x, 0 ≤ (l.charge id n).held x :=
      update_nonneg h.nonneg (by have := h.nonneg id; omega) id
    have hfin : (l.charge id n).held.support.Finite := finite_support_update h.finite id _
    unfold letGo
    split_ifs
    · exact ⟨_,rfl,update_nonneg hpos le_rfl id,finite_support_update hfin id 0⟩
    · exact ⟨_,rfl,hpos,hfin⟩
  rw [release,hheld]
  simp only [credit]
  split_ifs with hmany
  · have hinc := toIncrement_eq (n := l.pending+n) (by omega) (by omega)
    have hwindow : ((l.window.consume n).release (toIncrement (l.pending+n))).size = 65535 := by
      simp only [FlowWindow.release]
      rw [satI64_eq (by omega) (by omega)]
      change min ((l.window.consume n).size+_) l.window.limit = _
      rw [h.limit,MAX_FLOW_WINDOW]
      omega
    refine ⟨h.limit,?_,?_,le_rfl,threshold_pos,hnonneg,hfinite,?_⟩
    · change ((l.window.consume n).release (toIncrement (l.pending+n))).size =
        65535-(l.charged+n)+(l.granted+toIncrement (l.pending+n))+0
      omega
    · change 0 ≤ ((l.window.consume n).release (toIncrement (l.pending+n))).size
      omega
    · change l.charged+n = l.granted+toIncrement (l.pending+n)+0+0
      omega
  · change ¬ CONN_THRESHOLD ≤ l.pending+n at hmany
    refine ⟨h.limit,?_,?_,?_,?_,hnonneg,hfinite,?_⟩
    · change (l.window.consume n).size = 65535-(l.charged+n)+l.granted+0
      omega
    · change 0 ≤ (l.window.consume n).size
      omega
    · change 0 ≤ l.pending+n
      omega
    · change l.pending+n < CONN_THRESHOLD
      omega
    · change l.charged+n = l.granted+(l.pending+n)+0
      omega

/-! ### Closing several streams -/

/-- The ledger after closing some of the streams of `S`, in any order. -/
def ClosedIn (S : ℕ → Prop) (l l' : Ledger) : Prop :=
  ∃ ids : List ℕ, (∀ id ∈ ids, S id) ∧ l' = ids.foldl close l

theorem ClosedIn.trans {l₁ l₂ l₃ : Ledger} (h : ClosedIn S l₁ l₂) (h' : ClosedIn S l₂ l₃) :
    ClosedIn S l₁ l₃ := by
  obtain ⟨ids,hids,rfl⟩ := h
  obtain ⟨ids',hids',rfl⟩ := h'
  refine ⟨ids ++ ids',fun id hid => ?_,by rw [List.foldl_append]⟩
  rcases List.mem_append.1 hid with hid | hid
  · exact hids id hid
  · exact hids' id hid

/-- Streams that hold nothing, or any streams without automatic release, can be closed. -/
theorem Balanced.closedIn {l' : Ledger} (h : Balanced auto l)
    (hidle : auto = true → ∀ id, S id → l.held id = 0) (hclosed : ClosedIn S l l') :
    Balanced auto l' := by
  obtain ⟨ids,hids,rfl⟩ := hclosed
  cases auto with
  | true =>
    have heq : ids.foldl Ledger.close l = l := by
      induction ids with
      | nil => rfl
      | cons id ids ih =>
        rw [List.foldl_cons,h.close_idle (hidle rfl id (hids id (by simp)))]
        exact ih fun x hx => hids x (by simp [hx])
    rwa [heq]
  | false =>
    clear hids hidle
    induction ids generalizing l with
    | nil => exact h
    | cons id ids ih => exact ih (h.close id)

end Ledger

end Courierust.H2
