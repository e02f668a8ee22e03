import Courierust.Lib.Map
import Courierust.Lib.Runs
import Courierust.Num
import Courierust.Quic.Frame

/-!
# Acknowledgements

`ack_ranges` and `acknowledge` of the HTTP/3 runtime: the receiver turns the set of
packet numbers it has seen into the ranges of an ACK frame, and the sender walks the
ranges of the frame it decoded and takes the packets out of its map.
-/

namespace Courierust.Quic

open List
open DescRuns

/-- What is kept about a packet until it is acknowledged. Times are ticks of the clock. -/
structure SentPacket where
  frames : List Frame
  padInitial : Bool
  sentAt : ℕ
  retransmits : ℕ
  ackEliciting : Bool
  size : ℕ
  pendingResend : Bool
  deriving DecidableEq

abbrev SentMap := Std.ExtTreeMap ℕ SentPacket

/-! ### The receiver: from packet numbers to ranges -/

/-- The loop of `ack_ranges` over the numbers below the open range `low … high`. -/
def ackRangesFrom : List ℕ → ℕ → ℕ → Option ℕ → List (ℕ × ℕ)
  | [], high, low, pendingGap => [(pendingGap.getD 0, high - low)]
  | packetNumber :: rest, high, low, pendingGap =>
    if packetNumber + 1 = low then
      ackRangesFrom rest high packetNumber pendingGap
    else
      (pendingGap.getD 0, high - low) ::
        ackRangesFrom rest packetNumber packetNumber (some (low - packetNumber - 2))

def MAX_ACK_RANGES : ℕ := 60

/-- `ack_ranges`: `(gap, length)` of each run of received numbers, highest first. -/
def ackRanges (received : Std.ExtTreeSet ℕ) (largest : ℕ) : List (ℕ × ℕ) :=
  match (received.toList.filter (· ≤ largest)).reverse with
  | [] => [(0, 0)]
  | high :: rest => (ackRangesFrom rest high high none).take MAX_ACK_RANGES

/-! ### The sender: from ranges to packets -/

/-- The map and the two accumulators of `acknowledge`. -/
structure Acked where
  sent : SentMap
  acknowledgedBytes : ℕ
  rttSample : Option ℕ

/-- One packet number of a range: the packet leaves the map, and the highest number
    of the first range gives the round-trip sample. -/
def Acked.remove (now : ℕ) (sample : Option ℕ) (a : Acked) (pn : ℕ) : Acked :=
  match a.sent[pn]? with
  | none => a
  | some packet =>
    { sent := a.sent.erase pn
      acknowledgedBytes := satAdd a.acknowledgedBytes packet.size
      rttSample :=
        if sample = some pn ∧ a.rttSample = none then checkedSub now packet.sentAt
        else a.rttSample }

/-- The packets of the range `low … high`. -/
def Acked.removeRange (now low high : ℕ) (sample : Option ℕ) (a : Acked) : Acked :=
  (a.sent.keys.filter fun pn => low ≤ pn ∧ pn ≤ high).foldl (Acked.remove now sample) a

/-- The loop of `acknowledge`; `first` holds for index 0. The gap stepped over after a
    range is the gap stored with that same range. -/
def acknowledgeFrom (now : ℕ) : List (ℕ × ℕ) → Bool → ℕ → Acked → Acked
  | [], _, _, a => a
  | (gap, length) :: rest, first, high, a =>
    match checkedSub high length with
    | none => a
    | some low =>
      let a := a.removeRange now low high (if first then some high else none)
      if rest = [] then a
      else
        match checkedAdd gap 2 with
        | none => a
        | some gapPlusTwo =>
          match checkedSub low gapPlusTwo with
          | none => a
          | some high => acknowledgeFrom now rest false high a

/-- `acknowledge`: the octets and the round-trip sample, with the map it leaves. -/
def acknowledge (sent : SentMap) (largestSentEver : Option ℕ) (largest : ℕ)
    (ranges : List (ℕ × ℕ)) (now : ℕ) : Except Error (ℕ × Option ℕ) × SentMap :=
  if largestSentEver.all (· < largest) then
    (.error (Error.protocol "ACK acknowledges an unsent packet number"), sent)
  else
    let a := acknowledgeFrom now ranges true largest ⟨sent, 0, none⟩
    (.ok (a.acknowledgedBytes, a.rttSample), a.sent)

/-! ### What the walk removes -/

/-- The intervals `(high, low)` that the walk visits. -/
def visited : ℕ → List (ℕ × ℕ) → List (ℕ × ℕ)
  | _, [] => []
  | high, (gap, length) :: rest =>
    match checkedSub high length with
    | none => []
    | some low =>
      (high, low) ::
        match (checkedAdd gap 2).bind (checkedSub low) with
        | none => []
        | some high => visited high rest

variable {high low : ℕ} {rs : List (ℕ × ℕ)} (above now : ℕ)

theorem Acked.remove_getElem (sample : Option ℕ) (a : Acked) (pn x : ℕ) :
    (a.remove now sample pn).sent[x]? = if x = pn then none else a.sent[x]? := by
  unfold Acked.remove
  split
  · next h =>
    split_ifs with hx
    · rw [hx,h]
    · rfl
  · exact OrderedMap.get_erase ..

theorem Acked.foldl_remove_getElem (sample : Option ℕ) (pns : List ℕ) (a : Acked) (x : ℕ) :
    (pns.foldl (Acked.remove now sample) a).sent[x]? =
      if x ∈ pns then none else a.sent[x]? := by
  induction pns generalizing a with
  | nil => simp
  | cons pn pns ih =>
    rw [foldl_cons,ih,Acked.remove_getElem]
    by_cases hx : x = pn
    · simp [hx]
    · simp [hx]

theorem Acked.removeRange_getElem (low high : ℕ) (sample : Option ℕ) (a : Acked) (x : ℕ) :
    (a.removeRange now low high sample).sent[x]? =
      if low ≤ x ∧ x ≤ high then none else a.sent[x]? := by
  unfold Acked.removeRange
  rw [Acked.foldl_remove_getElem]
  by_cases hmem : x ∈ a.sent
  · simp [hmem]
  · have hnone : a.sent[x]? = none := by simpa using hmem
    simp [hnone]

theorem acknowledgeFrom_getElem (ranges : List (ℕ × ℕ)) (first : Bool) (high : ℕ) (a : Acked)
    (x : ℕ) : (acknowledgeFrom now ranges first high a).sent[x]? =
      if Covers (visited high ranges) x then none else a.sent[x]? := by
  induction ranges generalizing first high a with
  | nil => simp [acknowledgeFrom,visited]
  | cons r rest ih =>
    obtain ⟨gap,length⟩ := r
    cases hlow : checkedSub high length with
    | none => simp [acknowledgeFrom,visited,hlow]
    | some low =>
      cases hnext : (checkedAdd gap 2).bind (checkedSub low) with
      | none =>
        have hstop : acknowledgeFrom now ((gap,length) :: rest) first high a =
            a.removeRange now low high (if first then some high else none) := by
          simp only [acknowledgeFrom,hlow,ite_eq_left_iff]
          intro _
          cases hgap : checkedAdd gap 2 with
          | none => rfl
          | some gapPlusTwo =>
            have hsub : checkedSub low gapPlusTwo = none := by simpa [hgap] using hnext
            simp only [hsub]
        simp [hstop,visited,hlow,hnext,Acked.removeRange_getElem]
      | some high' =>
        obtain ⟨gapPlusTwo,hgap,hsub⟩ := Option.bind_eq_some_iff.1 hnext
        have hgo : (acknowledgeFrom now ((gap,length) :: rest) first high a).sent[x]? =
            (acknowledgeFrom now rest false high'
              (a.removeRange now low high (if first then some high else none))).sent[x]? := by
          simp only [acknowledgeFrom,hlow,hgap,hsub]
          by_cases hrest : rest = []
          · rw [if_pos hrest,hrest,acknowledgeFrom]
          · rw [if_neg hrest]
        simp only [hgo,ih,Acked.removeRange_getElem,visited,hlow,hnext,covers_cons]
        by_cases hc : Covers (visited high' rest) x
        · simp [hc]
        · simp [hc]

/-! ### The ranges of a set, seen as runs -/

/-- The `(gap, length)` pairs of runs that descend from below `above`. -/
def rangesOf : ℕ → List (ℕ × ℕ) → List (ℕ × ℕ)
  | _, [] => []
  | above, (high, low) :: rs => (above - high - 2, high - low) :: rangesOf low rs

theorem ackRangesFrom_eq {rest : List ℕ} {pendingGap : Option ℕ}
    (h : pendingGap.getD 0 = above-high-2) :
    ackRangesFrom rest high low pendingGap = rangesOf above (runsFrom rest high low) := by
  induction rest generalizing high low above pendingGap with
  | nil => simp [ackRangesFrom,runsFrom,rangesOf,h]
  | cons n rest ih =>
    simp only [ackRangesFrom,runsFrom]
    split_ifs with hnext
    · exact ih above h
    · rw [rangesOf,h,ih low rfl]

theorem take_rangesOf (rs : List (ℕ × ℕ)) (k : ℕ) :
    (rangesOf above rs).take k = rangesOf above (rs.take k) := by
  induction rs generalizing above k with
  | nil => simp [rangesOf]
  | cons r rs ih =>
    cases k with
    | zero => simp [rangesOf]
    | succ k => simp [rangesOf,ih]

@[simp] theorem length_rangesOf (rs : List (ℕ × ℕ)) : (rangesOf above rs).length = rs.length := by
  induction rs generalizing above with
  | nil => rfl
  | cons r rs ih => simp [rangesOf,ih]

theorem rangesFit_rangesOf {above : ℕ} (hs : Separated above rs) :
    Frame.RangesFit above (rangesOf above rs) := by
  induction rs generalizing above with
  | nil => trivial
  | cons r rs ih =>
    obtain ⟨high,low⟩ := r
    obtain ⟨hb,hle,hrest⟩ := hs
    refine ⟨by omega,?_⟩
    rw [show above-(above-high-2+2)-(high-low) = low by omega]
    exact ih hrest

theorem Covers.le_of_visited {x : ℕ} {ranges : List (ℕ × ℕ)} (h : Covers (visited high ranges) x) :
    x ≤ high := by
  induction ranges generalizing high with
  | nil => exact absurd h (not_covers_nil x)
  | cons r rest ih =>
    unfold visited at h
    split at h
    · exact absurd h (not_covers_nil x)
    · next low hlow =>
      have hle : low ≤ high := by
        unfold checkedSub at hlow
        split_ifs at hlow
        simp only [Option.some.injEq] at hlow
        omega
      rcases (covers_cons _ _ _).1 h with h | h
      · exact h.2
      split at h
      · exact absurd h (not_covers_nil x)
      · next high' hnext =>
        obtain ⟨g,-,hsub⟩ := Option.bind_eq_some_iff.1 hnext
        unfold checkedSub at hsub
        split_ifs at hsub
        simp only [Option.some.injEq] at hsub
        have := ih h
        omega

/-- The walk from the top of the first run: the run itself, then on from two below it,
    since the gap stored with the first range is zero. -/
theorem visited_rangesOf_cons (hle : low ≤ high) (htwo : 2 ≤ low ∨ rs = []) :
    visited high (rangesOf (high+2) ((high,low) :: rs)) =
      (high,low) :: visited (low-2) (rangesOf low rs) := by
  have hlow : checkedSub high (high-low) = some low := by
    unfold checkedSub
    rw [if_pos (by omega)]
    congr 1
    omega
  have hgap : checkedAdd (high+2-high-2) 2 = some 2 := by
    simp [checkedAdd,u64Max]
  simp only [rangesOf,visited,hlow,hgap,Option.bind_some]
  rcases htwo with htwo | rfl
  · simp [checkedSub,htwo]
  · by_cases htwo : 2 ≤ low
    · simp [checkedSub,htwo]
    · simp [checkedSub,htwo,rangesOf,visited]

theorem visited_of_isChain (hs : Separated (high+2) ((high,low) :: rs))
    (hchain : ((high,low) :: rs).IsChain (fun r s => r.2 = s.1+2)) :
    visited high (rangesOf (high+2) ((high,low) :: rs)) = (high,low) :: rs := by
  induction rs generalizing high low with
  | nil =>
    rw [visited_rangesOf_cons hs.2.1 (.inr rfl)]
    rfl
  | cons s rs ih =>
    obtain ⟨-,hle,hrest⟩ := hs
    rw [isChain_cons_cons] at hchain
    obtain ⟨hone,hchain⟩ := hchain
    subst hone
    rw [visited_rangesOf_cons hle (.inl (by omega)),Nat.add_sub_cancel,ih hrest hchain]

theorem exists_visited_of_not_isChain {k : ℕ} (hs : Separated (high+2) ((high,low) :: rs))
    (hchain : ¬ ((high,low) :: rs.take k).IsChain (fun r s => r.2 = s.1+2)) :
    ∃ x, Covers (visited high (rangesOf (high+2) ((high,low) :: rs.take k))) x ∧
      ¬ Covers ((high,low) :: rs) x := by
  induction rs generalizing high low k with
  | nil => simp at hchain
  | cons s rs ih =>
    obtain ⟨high',low'⟩ := s
    obtain ⟨-,hle,hrest⟩ := hs
    have hnext := hrest.1
    cases k with
    | zero => simp at hchain
    | succ k =>
      rw [take_succ_cons,isChain_cons_cons,not_and_or] at hchain
      rw [take_succ_cons,visited_rangesOf_cons hle (.inl (by omega))]
      by_cases hone : low = high'+2
      · subst hone
        obtain ⟨x,hx,hnot⟩ := ih hrest (hchain.resolve_left (by simp))
        have hxle := Covers.le_of_visited hx
        refine ⟨x,?_,?_⟩
        · rw [covers_cons,Nat.add_sub_cancel]
          exact .inr hx
        · rw [covers_cons,not_or]
          exact ⟨by simp only; omega,hnot⟩
      · refine ⟨low-2,?_,?_⟩
        · have hlen : checkedSub (low-2) (high'-low') = some (low-2-(high'-low')) := by
            unfold checkedSub
            rw [if_pos (by omega)]
          rw [covers_cons]
          right
          simp only [rangesOf,visited,hlen,covers_cons]
          left
          omega
        · have := hrest.2.2
          simp only [covers_cons,not_or]
          refine ⟨by omega,by omega,fun h => ?_⟩
          have := this.lt_of_covers h
          have := hrest.2.1
          omega

/-! ### Agreement of the two ends -/

/-- The numbers an ACK of `received` reports: those of its sixty highest runs. A run is
    known by its top, a number whose successor was not received. -/
def Reported (received : Std.ExtTreeSet ℕ) (pn : ℕ) : Prop :=
  pn ∈ received ∧
    (received.toList.filter fun top => pn ≤ top ∧ top + 1 ∉ received).length ≤ MAX_ACK_RANGES

instance (received : Std.ExtTreeSet ℕ) (pn : ℕ) : Decidable (Reported received pn) :=
  inferInstanceAs (Decidable (_ ∧ _))

/-- The ACK frame `flush_ack` builds. -/
def ackFrame (received : Std.ExtTreeSet ℕ) (largest : ℕ) : Frame :=
  .ack largest 0 (ackRanges received largest) none

def applyAck (wire : List UInt8) (sent : SentMap) (largestSent now : ℕ) :
    Except Error (SentMap × ℕ) :=
  match Frame.decode wire with
  | .ok (.ack largest _ ranges _, used) =>
    match acknowledge sent (some largestSent) largest ranges now with
    | (.ok _, sent') => .ok (sent', used)
    | (.error e, _) => .error e
  | .ok _ => .error (Error.protocol "not an ACK frame")
  | .error e => .error e

/-- The ACK for `received` reaches the peer as it was built, and takes out of any map of
    sent packets exactly those it reports. -/
def AckAgrees (received : Std.ExtTreeSet ℕ) (largest : ℕ) : Prop :=
  ∀ (sent : SentMap) (largestSent now : ℕ), largest ≤ largestSent →
    Frame.decode (ackFrame received largest).encode =
        .ok (ackFrame received largest, (ackFrame received largest).encode.length) ∧
      ∃ sent', applyAck (ackFrame received largest).encode sent largestSent now =
          .ok (sent', (ackFrame received largest).encode.length) ∧
        ∀ pn, sent'[pn]? = if Reported received pn then none else sent[pn]?

section Agreement

variable {received : Std.ExtTreeSet ℕ} {largest : ℕ}

private theorem exists_descending (hmem : largest ∈ received) (hle : ∀ n ∈ received, n ≤ largest) :
    ∃ rest, received.toList.reverse = largest :: rest ∧ (largest :: rest).Pairwise (· > ·) := by
  have hle : ∀ n ∈ received.toList.reverse, n ≤ largest := fun n hn => hle n (by simpa using hn)
  have hmem : largest ∈ received.toList.reverse := by simpa using hmem
  have hdesc : received.toList.reverse.Pairwise (· > ·) := by
    rw [pairwise_reverse]
    exact received.ordered_toList.imp Nat.compare_eq_lt.1
  cases hlist : received.toList.reverse with
  | nil => simp [hlist] at hmem
  | cons high rest =>
    rw [hlist] at hle hmem hdesc
    obtain rfl : high = largest := by
      refine le_antisymm (hle high (by simp)) ?_
      rcases mem_cons.1 hmem with h | h
      · exact h.le
      · exact ((pairwise_cons.1 hdesc).1 largest h).le
    exact ⟨rest,rfl,hdesc⟩

section

variable {rest : List ℕ} (hlist : received.toList.reverse = largest :: rest)
include hlist

private theorem mem_descending (n : ℕ) : n ∈ received ↔ n ∈ largest :: rest := by
  rw [← hlist,mem_reverse,Std.ExtTreeSet.mem_toList]

private theorem covers_runs (n : ℕ) :
    Covers (runsFrom rest largest largest) n ↔ n ∈ received := by
  rw [covers_runsFrom le_rfl,mem_descending hlist,mem_cons]
  have : (largest ≤ n ∧ n ≤ largest) ↔ n = largest := by omega
  rw [this]

variable (hdesc : (largest :: rest).Pairwise (· > ·))
include hdesc

private theorem ackRanges_eq : ackRanges received largest =
      rangesOf (largest+2) ((runsFrom rest largest largest).take MAX_ACK_RANGES) := by
  have hfilter : (received.toList.filter (· ≤ largest)).reverse = largest :: rest := by
    rw [← filter_reverse,hlist,filter_eq_self]
    intro n hn
    rcases mem_cons.1 hn with rfl | hn
    · simp
    · simpa using ((pairwise_cons.1 hdesc).1 n hn).le
  simp only [ackRanges,hfilter]
  rw [ackRangesFrom_eq (largest+2) (by simp),take_rangesOf]

private theorem covers_take_runs (n : ℕ) :
    Covers ((runsFrom rest largest largest).take MAX_ACK_RANGES) n ↔ Reported received n := by
  have hsep := separated_runsFrom (le_refl largest) (le_refl (largest+2)) hdesc
  have hall := covers_runs hlist n
  have htops : (runsFrom rest largest largest).map Prod.fst =
      received.toList.reverse.filter (fun top => decide (top+1 ∉ received)) := by
    have hlast : largest+1 ∉ received := fun h => by
      rcases mem_cons.1 ((mem_descending hlist _).1 h) with h | h
      · omega
      · have := (pairwise_cons.1 hdesc).1 _ h
        omega
    rw [map_fst_runsFrom hdesc,hlist,filter_cons_of_pos (by simpa using hlast)]
    simp only [mem_descending hlist]
  have hcount : (((runsFrom rest largest largest).map Prod.fst).filter
      (fun top => decide (n ≤ top))).length =
      (received.toList.filter fun top => n ≤ top ∧ top+1 ∉ received).length := by
    rw [htops,filter_filter,filter_reverse,length_reverse]
    simp
  by_cases hn : n ∈ received
  · rw [covers_take_iff hsep (hall.2 hn),hcount]
    simp [Reported,hn]
  · have : ¬ Covers ((runsFrom rest largest largest).take MAX_ACK_RANGES) n :=
      fun ⟨r,hr,h⟩ => hn (hall.1 ⟨r,mem_of_mem_take hr,h⟩)
    simp [this,Reported,hn]

def OneApart (received : Std.ExtTreeSet ℕ) (largest : ℕ) : Prop :=
  ∀ top, Reported received top → top + 1 ∉ received → top ≠ largest → top + 2 ∈ received

private theorem isChain_runs_iff : ((runsFrom rest largest largest).take MAX_ACK_RANGES).IsChain (fun r s => r.2 = s.1+2) ↔
      OneApart received largest := by
  have hsep := separated_runsFrom (le_refl largest) (le_refl (largest+2)) hdesc
  have hcov := covers_runs hlist
  have hrep := covers_take_runs hlist hdesc
  rw [isChain_take_iff hsep]
  obtain ⟨low,tail,hruns⟩ := exists_runsFrom_eq_cons rest largest largest
  rw [hruns] at hsep hcov hrep ⊢
  constructor
  · intro h top htop hsucc hne
    -- A number at the top of its run is the upper end of one of the runs.
    obtain ⟨r,hr,hlow,hhigh⟩ := (hrep top).2 htop
    have hmem : r ∈ (largest,low) :: tail := by
      rcases mem_cons.1 hr with rfl | hr
      · simp
      · exact mem_cons_of_mem _ (mem_of_mem_take hr)
    have heq : r.1 = top := by
      by_contra hlt
      exact hsucc ((hcov _).1 ⟨r,hmem,by omega,by omega⟩)
    rcases mem_cons.1 hr with rfl | hr
    · exact absurd heq.symm hne
    · rw [← heq,← hcov]
      exact h r hr
  · intro h r hr
    have hrun := hsep.2.2.of_mem (mem_of_mem_take hr)
    rw [hcov]
    refine h r.1 ((hrep _).1 ⟨r,mem_cons_of_mem _ hr,hrun.1,le_rfl⟩) ?_ ?_
    · rw [← hcov]
      exact hsep.not_covers_succ (mem_cons_of_mem _ (mem_of_mem_take hr))
    · have := hsep.2.1
      omega

end

private theorem decode_ackFrame (hmem : largest ∈ received) (hle : ∀ n ∈ received, n ≤ largest)
    (hlargest : largest ≤ Varint.MAX) :
    Frame.decode (ackFrame received largest).encode =
      .ok (ackFrame received largest,(ackFrame received largest).encode.length) := by
  obtain ⟨rest,hlist,hdesc⟩ := exists_descending hmem hle
  have hsep := separated_runsFrom (le_refl largest) (le_refl (largest+2)) hdesc
  obtain ⟨low,tail,hruns⟩ := exists_runsFrom_eq_cons rest largest largest
  rw [hruns] at hsep
  have hranges : ackRanges received largest =
      (0,largest-low) :: rangesOf low (tail.take 59) := by
    rw [ackRanges_eq hlist hdesc,hruns,MAX_ACK_RANGES,take_succ_cons,rangesOf]
    simp
  have hlow : low ≤ largest := hsep.2.1
  have hback : largest-(largest-low) = low := by omega
  rw [ackFrame,hranges]
  refine Frame.decode_encode_ack hlargest (Nat.zero_le _) (by omega) ?_ ?_
  · rw [hback]
    exact rangesFit_rangesOf (hsep.2.2.take 59)
  · simp only [length_rangesOf,length_take,Frame.MAX_ACK_RANGES]
    omega

private theorem applyAck_ackFrame (sent : SentMap) {largestSent : ℕ} (now : ℕ)
    (hdec : Frame.decode (ackFrame received largest).encode =
      .ok (ackFrame received largest,(ackFrame received largest).encode.length))
    (hle : largest ≤ largestSent) :
    ∃ sent', applyAck (ackFrame received largest).encode sent largestSent now =
        .ok (sent',(ackFrame received largest).encode.length) ∧
      ∀ x, sent'[x]? =
        if Covers (visited largest (ackRanges received largest)) x then none else sent[x]? := by
  simp only [applyAck,hdec]
  simp only [ackFrame,acknowledge,Option.all_some,decide_eq_true_eq,if_neg (Nat.not_lt.2 hle)]
  refine ⟨_,rfl,fun x => ?_⟩
  exact acknowledgeFrom_getElem ..

/-- The two ends agree on an ACK exactly when its largest number fits a varint and its
    runs are one missing number apart: the sender steps from a range over the gap that
    belongs to the range above it. -/
theorem ack_agreement_iff (hmem : largest ∈ received) (hle : ∀ n ∈ received, n ≤ largest) :
    AckAgrees received largest ↔ largest ≤ Varint.MAX ∧ OneApart received largest := by
  obtain ⟨rest,hlist,hdesc⟩ := exists_descending hmem hle
  have hsep := separated_runsFrom (le_refl largest) (le_refl (largest+2)) hdesc
  have hrep := covers_take_runs hlist hdesc
  have hcov := covers_runs hlist
  have hranges := ackRanges_eq hlist hdesc
  rw [← isChain_runs_iff hlist hdesc]
  obtain ⟨low,tail,hruns⟩ := exists_runsFrom_eq_cons rest largest largest
  rw [hruns] at hsep hrep hcov hranges ⊢
  simp only [MAX_ACK_RANGES,take_succ_cons] at hrep hranges ⊢
  constructor
  · intro h
    have hlargest : largest ≤ Varint.MAX :=
      Frame.largest_le_of_decode rfl (h ∅ largest 0 le_rfl).1
    refine ⟨hlargest,?_⟩
    by_contra hchain
    -- The number visited between two runs, as the only packet in flight.
    obtain ⟨x,hx,hnot⟩ := exists_visited_of_not_isChain hsep hchain
    let p : SentPacket := ⟨[],false,0,0,true,0,false⟩
    obtain ⟨hdec,sent',happ,hsent⟩ := h ((∅ : SentMap).insert x p) largest 0 le_rfl
    obtain ⟨sent'',happ',hvis⟩ := applyAck_ackFrame ((∅ : SentMap).insert x p) 0 hdec le_rfl
    obtain rfl : sent'' = sent' := by
      rw [happ] at happ'
      simpa using happ'.symm
    have hgone : sent''[x]? = none := by
      rw [hvis,hranges,if_pos hx]
    rw [hsent,if_neg fun hr => hnot ((hcov x).2 hr.1)] at hgone
    simp at hgone
  · rintro ⟨hlargest,hchain⟩ sent largestSent now hsent
    have hdec := decode_ackFrame hmem hle hlargest
    obtain ⟨sent',happ,hvis⟩ := applyAck_ackFrame sent now hdec hsent
    refine ⟨hdec,sent',happ,fun pn => ?_⟩
    rw [hvis,hranges,visited_of_isChain (hsep.take 60) hchain]
    simp only [hrep]

/-- Packets 0, 2 and 3 were received: the ACK takes out exactly those. -/
theorem ack_agreement_one_missing : AckAgrees (.ofList [0, 2, 3]) 3 := by
  refine (ack_agreement_iff (by decide) (by simp)).2 ⟨by decide,fun top htop => ?_⟩
  have hmem : top ∈ [0,2,3] := by simpa using htop.1
  fin_cases hmem <;> decide

/-- Packets 0 and 3 were received, packet 1 never was; the peer takes packet 1 for
    acknowledged and keeps packet 0. -/
theorem ack_disagreement_two_missing :
    1 ∉ Std.ExtTreeSet.ofList [0, 3] ∧
      (applyAck (ackFrame (.ofList [0, 3]) 3).encode
          (.ofList [(0, SentPacket.mk [.ping] false 0 0 true 1200 false),
            (1, SentPacket.mk [.ping] false 0 0 true 1200 false)]) 3 0).map
        (fun r => r.1.keys) = .ok [0] ∧
      ¬ AckAgrees (.ofList [0, 3]) 3 := by
  refine ⟨by decide,by decide,fun h => ?_⟩
  let p := SentPacket.mk [.ping] false 0 0 true 1200 false
  obtain ⟨-,sent',happ,hsent⟩ := h (.ofList [(1,p)]) 3 0 le_rfl
  have hkept : sent'[1]? = some p := by
    rw [hsent,if_neg (by decide)]
    decide
  have hgone : (applyAck (ackFrame (.ofList [0,3]) 3).encode (.ofList [(1,p)]) 3 0).map
      (fun r => r.1[1]?) = .ok none := by decide
  rw [happ] at hgone
  simp [Except.map,hkept] at hgone

end Agreement

end Courierust.Quic
