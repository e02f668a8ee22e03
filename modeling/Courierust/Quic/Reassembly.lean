import Courierust.Num
import Courierust.Lib.Map
import Courierust.Lib.Run
import Courierust.Lib.Slice

/-!
# Reassembly of a QUIC stream

Model of `StreamReassembly` in `courierust_h3::runtime`: STREAM frames arrive in any order,
what is ahead of the delivered octets waits in chunks keyed by their offset, and chunks that
overlap a new frame are merged with it.
-/

namespace Courierust.Quic

open List
open Std (ExtTreeMap)
open Slice (At write overlay Fits)

def MAX_STREAM_CHUNKS : ℕ := 4096

/-- The texts of the errors in the part that `StreamReassembly` and `CryptoReassembly` share. -/
structure ReassemblyTexts where
  conflict : String
  limit : String
  tooMany : String
  overflow : String

def ReassemblyTexts.stream : ReassemblyTexts where
  conflict := "conflicting QUIC stream retransmission"
  limit := "QUIC stream flow-control limit exceeded"
  tooMany := "too many out-of-order QUIC stream chunks"
  overflow := "QUIC stream offset overflow"

/-- The octets before `next` were delivered; those that came early wait in `chunks`. -/
structure StreamReassembly where
  next : ℕ := 0
  chunks : ExtTreeMap ℕ (List UInt8) := ∅
  finalSize : Option ℕ := none
  delivered : List UInt8 := []

variable {offset stop : ℕ} {data : List UInt8}

namespace StreamReassembly

/-- The first checks of `insert`: where the frame ends, and the final size it fixes. -/
def check (r : StreamReassembly) (offset length : ℕ) (fin : Bool) (max : ℕ) :
    Except Error (ℕ × StreamReassembly) :=
  match checkedAdd offset length with
  | none => .error (Error.protocol "QUIC stream offset overflow")
  | some stop =>
    if max < stop ∨ max < offset then
      .error (Error.protocol "QUIC stream flow-control limit exceeded")
    else if fin then
      if r.finalSize.any (· ≠ stop) then
        .error (Error.protocol "inconsistent QUIC final stream size")
      else .ok (stop, { r with finalSize := some stop })
    else if r.finalSize.any (· < stop) then
      .error (Error.protocol "QUIC data exceeds final stream size")
    else .ok (stop, r)

def affected (r : StreamReassembly) (offset stop : ℕ) : List (ℕ × List UInt8) :=
  r.chunks.toList.filter fun p => p.1 < stop ∧ offset < satAdd p.1 p.2.length

def conflicts (offset stop : ℕ) (data : List UInt8) (p : ℕ × List UInt8) : Bool :=
  let aStart := max p.1 offset
  let aEnd := min (satAdd p.1 p.2.length) stop
  let len := aEnd - aStart
  aStart < aEnd && (p.2.drop (aStart - p.1)).take len ≠ (data.drop (aStart - offset)).take len

section Shared

variable (texts : ReassemblyTexts)

def merge (r : StreamReassembly) (first : ℕ × List UInt8) (rest : List (ℕ × List UInt8))
    (offset stop : ℕ) (data : List UInt8) (limit : ℕ) : Except Error StreamReassembly :=
  let affected := first :: rest
  let last := affected.getLast (List.cons_ne_nil first rest)
  let mergedStart := min offset first.1
  let mergedEnd := max stop (satAdd last.1 last.2.length)
  let total := mergedEnd - mergedStart
  if affected.any (conflicts offset stop data) then
    .error (Error.protocol texts.conflict)
  else if limit < total then .error (Error.protocol texts.limit)
  else
    let combined := overlay mergedStart (affected ++ [(offset, data)]) (List.replicate total 0)
    .ok { r with
      chunks := (affected.foldl (fun m p => m.erase p.1) r.chunks).insert mergedStart combined }

/-- A frame that begins at or behind `next` joins the chunks. -/
def buffer (r : StreamReassembly) (offset stop : ℕ) (data : List UInt8) (max : ℕ) :
    Except Error StreamReassembly :=
  match r.affected offset stop with
  | [] =>
    if MAX_STREAM_CHUNKS ≤ r.chunks.size then
      .error (Error.protocol texts.tooMany)
    else .ok { r with chunks := r.chunks.insert offset data }
  | first :: rest => r.merge texts first rest offset stop data max

/-- The loop of `take_ready`; a round takes a chunk, so as many rounds as chunks are enough. -/
def takeReadyLoop : ℕ → StreamReassembly → List UInt8 → Except Error (List UInt8) × StreamReassembly
  | 0, r, out => (.ok out, r)
  | fuel + 1, r, out =>
    match r.chunks[r.next]? with
    | none => (.ok out, r)
    | some chunk =>
      let chunks := r.chunks.erase r.next
      match checkedAdd r.next chunk.length with
      | none => (.error (Error.protocol texts.overflow), { r with chunks := chunks })
      | some next =>
        takeReadyLoop fuel
          { r with next := next, chunks := chunks, delivered := r.delivered ++ chunk }
          (out ++ chunk)

def takeReady (r : StreamReassembly) : Except Error (List UInt8) × StreamReassembly :=
  takeReadyLoop texts r.chunks.size r []

/-- The last part of `insert`. -/
def store (r : StreamReassembly) (offset stop : ℕ) (data : List UInt8) (max : ℕ) :
    Except Error (List UInt8) × StreamReassembly :=
  match r.buffer texts offset stop data max with
  | .error e => (.error e, r)
  | .ok r => r.takeReady texts

end Shared

/-- A frame that begins before `next`: what repeats delivered octets is compared with them,
    and only what is new goes through `insert` again, from `next` on. -/
def repeated (r : StreamReassembly) (offset stop : ℕ) (data : List UInt8) (fin : Bool) (max : ℕ) :
    Except Error (List UInt8) × StreamReassembly :=
  let overlap := min (r.next - offset) data.length
  if r.delivered.length < offset + overlap ∨
      (r.delivered.drop offset).take overlap ≠ data.take overlap then
    (.error (Error.protocol "overlapping QUIC stream data is not identical"), r)
  else if stop ≤ r.next then r.takeReady .stream
  else
    match r.check r.next (data.drop overlap).length fin max with
    | .error e => (.error e, r)
    | .ok (stop, r) => r.store .stream r.next stop (data.drop overlap) max

def insert (r : StreamReassembly) (offset : ℕ) (data : List UInt8) (fin : Bool) (max : ℕ) :
    Except Error (List UInt8) × StreamReassembly :=
  match r.check offset data.length fin max with
  | .error e => (.error e, r)
  | .ok (stop, r) =>
    if offset < r.next then r.repeated offset stop data fin max
    else r.store .stream offset stop data max

def finished (r : StreamReassembly) : Bool := r.finalSize = some r.next

/-! ### What a reassembly holds of a stream -/

def Has (r : StreamReassembly) (i : ℕ) : Prop :=
  i < r.next ∨ ∃ (s : ℕ) (c : List UInt8), r.chunks[s]? = some c ∧ s ≤ i ∧ i < s + c.length

/-- Chunks are pieces of the stream, behind what was delivered, and do not overlap. -/
structure Holds (b : List UInt8) (r : StreamReassembly) : Prop where
  le : r.next ≤ b.length
  delivered : r.delivered = b.take r.next
  piece : ∀ (s : ℕ) (c : List UInt8), r.chunks[s]? = some c → At b s c
  inside : ∀ (s : ℕ) (c : List UInt8), r.chunks[s]? = some c → r.next ≤ s ∧ s + c.length ≤ b.length
  apart : ∀ (s : ℕ) (c : List UInt8) (s' : ℕ) (c' : List UInt8), r.chunks[s]? = some c →
    r.chunks[s']? = some c' → s < s' → s + c.length ≤ s'

variable {w : ReassemblyTexts} {b : List UInt8} {r : StreamReassembly}

theorem Holds.length_delivered (h : Holds b r) : r.delivered.length = r.next := by
  rw [h.delivered,length_take_of_le h.le]

theorem checkedAdd_eq {x y : ℕ} (h : x+y ≤ u64Max) : checkedAdd x y = some (x+y) := if_pos h

theorem satAdd_eq {x y : ℕ} (h : x+y ≤ u64Max) : satAdd x y = x+y := Nat.min_eq_left h

variable {chunk : List UInt8}

theorem Holds.take (h : Holds b r) (hchunk : r.chunks[r.next]? = some chunk) :
    Holds b { r with
      next := r.next+chunk.length
      chunks := r.chunks.erase r.next
      delivered := r.delivered ++ chunk } := by
  have hold : ∀ {s c}, (r.chunks.erase r.next)[s]? = some c → s ≠ r.next ∧ r.chunks[s]? = some c := by
    intro s c hs
    rw [OrderedMap.get_erase] at hs
    split_ifs at hs with heq
    exact ⟨heq,hs⟩
  have hend := (h.inside _ _ hchunk).2
  refine ⟨hend,?_,fun s c hs => h.piece s c (hold hs).2,fun s c hs => ?_,?_⟩
  · have hat : At b 0 (r.delivered ++ chunk) := by
      refine At.append ?_ ?_
      · rw [h.delivered]
        exact Slice.at_take_drop b 0 r.next
      · rw [Nat.zero_add,h.length_delivered]
        exact h.piece _ _ hchunk
    have hlen : (r.delivered ++ chunk).length = r.next+chunk.length := by
      rw [length_append,h.length_delivered]
    exact hlen ▸ hat.eq_take (hlen ▸ hend)
  · obtain ⟨hne,hs⟩ := hold hs
    have hle := (h.inside s c hs).1
    exact ⟨h.apart _ _ _ _ hchunk hs (by omega),(h.inside s c hs).2⟩
  · intro s c s' c' hs hs'
    exact h.apart s c s' c' (hold hs).2 (hold hs').2

theorem has_take (hchunk : r.chunks[r.next]? = some chunk) (i : ℕ) :
    Has { r with
      next := r.next+chunk.length
      chunks := r.chunks.erase r.next
      delivered := r.delivered ++ chunk } i ↔ r.Has i := by
  constructor
  · rintro (hi | ⟨s,c,hs,hcover⟩)
    · by_cases hlt : i < r.next
      · exact .inl hlt
      · exact .inr ⟨_,_,hchunk,not_lt.1 hlt,hi⟩
    · rw [OrderedMap.get_erase] at hs
      split_ifs at hs
      exact .inr ⟨s,c,hs,hcover⟩
  · rintro (hi | ⟨s,c,hs,hle,hlt⟩)
    · exact .inl (Nat.lt_add_right _ hi)
    by_cases heq : s = r.next
    · subst heq
      rw [hchunk] at hs
      cases hs
      exact .inl hlt
    · refine .inr ⟨s,c,?_,hle,hlt⟩
      rw [OrderedMap.get_erase,if_neg heq]
      exact hs

theorem size_erase_next (hchunk : r.chunks[r.next]? = some chunk) :
    (r.chunks.erase r.next).size+1 = r.chunks.size := by
  have hmem : r.next ∈ r.chunks := by
    rw [ExtTreeMap.mem_iff_isSome_getElem?,hchunk]
    rfl
  have hpos : r.chunks.size ≠ 0 := by
    intro hzero
    have hempty : r.chunks = ∅ := ExtTreeMap.eq_empty_iff_size_eq_zero.2 hzero
    rw [hempty] at hmem
    exact ExtTreeMap.not_mem_empty hmem
  rw [ExtTreeMap.size_erase,if_pos (ExtTreeMap.contains_iff_mem.2 hmem)]
  omega

/-- What `take_ready` leaves and returns. -/
structure Ready (b : List UInt8) (r : StreamReassembly) (out : List UInt8) (r' : StreamReassembly) :
    Prop where
  holds : Holds b r'
  next : r'.chunks[r'.next]? = none
  out : r'.delivered = r.delivered ++ out
  has : ∀ i, r'.Has i ↔ r.Has i
  final : r'.finalSize = r.finalSize

theorem takeReadyLoop_spec (hb : b.length ≤ u64Max) (fuel : ℕ) (h : Holds b r)
    (hfuel : r.chunks.size ≤ fuel) (out : List UInt8) :
    ∃ more r', takeReadyLoop w fuel r out = (.ok (out ++ more),r') ∧ Ready b r more r' := by
  induction fuel generalizing r out with
  | zero =>
    have hempty : r.chunks = ∅ := ExtTreeMap.eq_empty_iff_size_eq_zero.2 (Nat.le_zero.1 hfuel)
    refine ⟨[],r,by rw [takeReadyLoop,append_nil],h,?_,?_,fun _ => Iff.rfl,rfl⟩
    · rw [hempty]
      exact ExtTreeMap.getElem?_empty
    · rw [append_nil]
  | succ fuel ih =>
    cases hchunk : r.chunks[r.next]? with
    | none =>
      refine ⟨[],r,?_,h,hchunk,?_,fun _ => Iff.rfl,rfl⟩
      · simp [takeReadyLoop,hchunk]
      · rw [append_nil]
    | some chunk =>
      have hadd := checkedAdd_eq ((h.inside _ _ hchunk).2.trans hb)
      have hsize := size_erase_next hchunk
      obtain ⟨more,r',heq,hready⟩ := ih (h.take hchunk) (by simp only; omega) (out ++ chunk)
      refine ⟨chunk ++ more,r',?_,hready.holds,hready.next,?_,fun i => ?_,hready.final⟩
      · simp only [takeReadyLoop,hchunk,hadd]
        rw [heq,append_assoc]
      · rw [hready.out,append_assoc]
      · rw [hready.has i,has_take hchunk]

theorem takeReady_spec (hb : b.length ≤ u64Max) (h : Holds b r) :
    ∃ out r', r.takeReady w = (.ok out,r') ∧ Ready b r out r' := by
  obtain ⟨out,r',heq,hready⟩ := takeReadyLoop_spec hb _ h le_rfl []
  exact ⟨out,r',heq,hready⟩

/-! ### A frame joins the chunks -/

section
variable {k : ℕ} {c : List UInt8} {K : List ℕ} {m : ExtTreeMap ℕ (List UInt8)}
  (hm : ∀ s : ℕ, m[s]? = if s = k then some c else if s ∈ K then none else r.chunks[s]?)
include hm

theorem Holds.put (h : Holds b r) (hat : At b k c) (hk : r.next ≤ k) (hle : k+c.length ≤ b.length)
    (hapart : ∀ (s : ℕ) (d : List UInt8), r.chunks[s]? = some d → s ∉ K → s ≠ k →
      (s < k → s+d.length ≤ k) ∧ (k < s → k+c.length ≤ s)) :
    Holds b { r with chunks := m } := by
  have hget : ∀ {s : ℕ} {d : List UInt8}, m[s]? = some d →
      (s = k ∧ d = c) ∨ (s ≠ k ∧ s ∉ K ∧ r.chunks[s]? = some d) := by
    intro s d hs
    rw [hm] at hs
    split_ifs at hs with heq hK
    · exact .inl ⟨heq,(Option.some.inj hs).symm⟩
    · exact .inr ⟨heq,hK,hs⟩
  refine ⟨h.le,h.delivered,fun s d hs => ?_,fun s d hs => ?_,fun s d s' d' hs hs' hlt => ?_⟩
  · rcases hget hs with ⟨rfl,rfl⟩ | ⟨-,-,hs⟩
    · exact hat
    · exact h.piece s d hs
  · rcases hget hs with ⟨rfl,rfl⟩ | ⟨-,-,hs⟩
    · exact ⟨hk,hle⟩
    · exact h.inside s d hs
  · rcases hget hs with ⟨rfl,rfl⟩ | ⟨hne,hK,hs⟩
    · rcases hget hs' with ⟨rfl,rfl⟩ | ⟨hne',hK',hs'⟩
      · exact absurd hlt (lt_irrefl _)
      · exact (hapart s' d' hs' hK' hne').2 hlt
    · rcases hget hs' with ⟨rfl,rfl⟩ | ⟨-,-,hs'⟩
      · exact (hapart s d hs hK hne).1 hlt
      · exact h.apart s d s' d' hs hs' hlt

theorem has_put (hgone : ∀ (s : ℕ) (d : List UInt8), r.chunks[s]? = some d → s ∈ K ∨ s = k →
      ∀ i, s ≤ i → i < s+d.length → k ≤ i ∧ i < k+c.length) (i : ℕ) :
    Has { r with chunks := m } i ↔ r.Has i ∨ (k ≤ i ∧ i < k+c.length) := by
  constructor
  · rintro (hi | ⟨s,d,hs,hcover⟩)
    · exact .inl (.inl hi)
    rw [hm] at hs
    split_ifs at hs with heq hK
    · cases hs
      exact .inr (heq ▸ hcover)
    · exact .inl (.inr ⟨s,d,hs,hcover⟩)
  · rintro ((hi | ⟨s,d,hs,hcover⟩) | hcover)
    · exact .inl hi
    · by_cases hout : s ∈ K ∨ s = k
      · refine .inr ⟨k,c,?_,hgone s d hs hout i hcover.1 hcover.2⟩
        rw [hm,if_pos rfl]
      · rw [not_or] at hout
        refine .inr ⟨s,d,?_,hcover⟩
        rw [hm,if_neg hout.2,if_neg hout.1]
        exact hs
    · refine .inr ⟨k,c,?_,hcover⟩
      rw [hm,if_pos rfl]

end

theorem mem_affected (hb : b.length ≤ u64Max) (h : Holds b r)
    {p : ℕ × List UInt8} : p ∈ r.affected offset stop ↔
      r.chunks[p.1]? = some p.2 ∧ p.1 < stop ∧ offset < p.1+p.2.length := by
  rw [affected,mem_filter,← ExtTreeMap.mem_toList_iff_getElem?_eq_some,decide_eq_true_eq]
  refine and_congr_right fun hp => ?_
  rw [satAdd_eq]
  exact ((h.inside _ _ (ExtTreeMap.mem_toList_iff_getElem?_eq_some.1 hp)).2).trans hb

theorem pairwise_affected (r : StreamReassembly) (offset stop : ℕ) :
    (r.affected offset stop).Pairwise fun p q => p.1 < q.1 := by
  refine List.Pairwise.filter _ ?_
  refine ExtTreeMap.ordered_keys_toList.imp fun {p q} hlt => ?_
  exact Nat.compare_eq_lt.1 hlt

/-- With these chunks the reassembly holds the octets of a frame as well. -/
structure Joins (b : List UInt8) (r : StreamReassembly) (offset : ℕ) (data : List UInt8)
    (m : ExtTreeMap ℕ (List UInt8)) : Prop where
  holds : Holds b { r with chunks := m }
  has : ∀ i, Has { r with chunks := m } i ↔ r.Has i ∨ (offset ≤ i ∧ i < offset + data.length)

theorem buffer_apart (h : Holds b r) (hat : At b offset data)
    (hle : offset+data.length ≤ b.length) (hnext : r.next ≤ offset)
    (hkeep : ∀ c, r.chunks[offset]? = some c → c = [])
    (hnone : ∀ (s : ℕ) (c : List UInt8), r.chunks[s]? = some c →
      ¬(s < offset+data.length ∧ offset < s+c.length)) :
    Joins b r offset data (r.chunks.insert offset data) := by
  have hm : ∀ s : ℕ, (r.chunks.insert offset data)[s]? =
      if s = offset then some data else if s ∈ ([] : List ℕ) then none else r.chunks[s]? := by
    intro s
    rw [OrderedMap.get_insert]
    simp
  refine ⟨h.put hm hat hnext hle fun s d hs _ hne => ?_,has_put hm fun s d hs hout i hi hlt => ?_⟩
  · have := hnone s d hs
    omega
  · rcases hout with hmem | rfl
    · exact absurd hmem not_mem_nil
    · rw [hkeep d hs] at hlt
      exact absurd hi (by simpa using hlt)

/-- The frame, and the chunks it overlaps: the first and the last of them reach furthest. -/
structure Merging (b : List UInt8) (r : StreamReassembly) (offset : ℕ) (data : List UInt8)
    (first : ℕ × List UInt8) (rest : List (ℕ × List UInt8)) : Prop where
  bound : b.length ≤ u64Max
  holds : Holds b r
  piece : At b offset data
  le : offset + data.length ≤ b.length
  next : r.next ≤ offset
  affected : r.affected offset (offset + data.length) = first :: rest

namespace Merging

variable {offset : ℕ} {data : List UInt8} {first : ℕ × List UInt8} {rest : List (ℕ × List UInt8)}
  (h : Merging b r offset data first rest)
include h

variable {p : ℕ × List UInt8}

theorem mem : p ∈ first :: rest ↔
    r.chunks[p.1]? = some p.2 ∧ p.1 < offset+data.length ∧ offset < p.1+p.2.length := by
  rw [← h.affected]
  exact mem_affected h.bound h.holds

theorem first_le (hp : p ∈ first :: rest) : first.1 ≤ p.1 := by
  have hpair := r.pairwise_affected offset (offset+data.length)
  rw [h.affected] at hpair
  rcases mem_cons.1 hp with rfl | hp
  · exact le_rfl
  · exact (rel_of_pairwise_cons hpair hp).le

theorem conflicts_eq (hp : p ∈ first :: rest) :
    conflicts offset (offset+data.length) data p = false := by
  obtain ⟨hchunk,-,-⟩ := h.mem.1 hp
  have hend := (h.holds.inside _ _ hchunk).2
  have hsat := satAdd_eq (hend.trans h.bound)
  simp only [conflicts,hsat,Bool.and_eq_false_iff,decide_eq_false_iff_not,not_not]
  by_cases hlt : max p.1 offset < min (p.1+p.2.length) (offset+data.length)
  · right
    have hold := (h.holds.piece _ _ hchunk).drop (max p.1 offset-p.1)
    have hnew := h.piece.drop (max p.1 offset-offset)
    rw [Nat.add_sub_cancel' (le_max_left _ _)] at hold
    rw [Nat.add_sub_cancel' (le_max_right _ _)] at hnew
    refine (hold.take _).eq (hnew.take _) ?_
    rw [length_take,length_take,length_drop,length_drop]
    omega
  · exact .inl hlt

theorem bounds : min offset first.1 ≤ offset ∧
    first.1+first.2.length ≤ b.length ∧ offset < first.1+first.2.length ∧
    first.1 < offset+data.length ∧ r.next ≤ first.1 := by
  obtain ⟨hchunk,hlt,hgt⟩ := h.mem.1 mem_cons_self
  have hinside := h.holds.inside _ _ hchunk
  exact ⟨min_le_left _ _,hinside.2,hgt,hlt,hinside.1⟩

theorem mem_keys {s : ℕ} {d : List UInt8} (hs : r.chunks[s]? = some d) :
    s ∈ (first :: rest).map Prod.fst ↔ s < offset+data.length ∧ offset < s+d.length := by
  constructor
  · intro hmem
    obtain ⟨p,hp,rfl⟩ := mem_map.1 hmem
    obtain ⟨hchunk,hbound⟩ := h.mem.1 hp
    rw [hs] at hchunk
    cases hchunk
    exact hbound
  · exact fun hbound => mem_map.2 ⟨(s,d),h.mem.2 ⟨hs,hbound⟩,rfl⟩

section

variable {last : ℕ × List UInt8}
  (hlast : (first :: rest).getLast (List.cons_ne_nil first rest) = last)
include hlast

theorem mem_last : last ∈ first :: rest ∧ r.chunks[last.1]? = some last.2 ∧
    last.1 < offset+data.length ∧ offset < last.1+last.2.length := by
  have hmem : last ∈ first :: rest := hlast ▸ getLast_mem (cons_ne_nil first rest)
  exact ⟨hmem,h.mem.1 hmem⟩

theorem le_last (hp : p ∈ first :: rest) : p.1+p.2.length ≤ last.1+last.2.length := by
  have hpair := r.pairwise_affected offset (offset+data.length)
  rw [h.affected] at hpair
  by_cases heq : p = last
  · rw [heq]
  have hlt : p.1 < last.1 := by
    rw [← hlast]
    refine hpair.rel_dropLast_getLast ?_
    rw [← dropLast_append_getLast (cons_ne_nil first rest),hlast] at hp
    exact (mem_append.1 hp).resolve_right fun hmem => heq (mem_singleton.1 hmem)
  have := h.holds.apart _ _ _ _ (h.mem.1 hp).1 (h.mem_last hlast).2.1 hlt
  omega

theorem last_bounds : last.1+last.2.length ≤ b.length ∧
    satAdd last.1 last.2.length = last.1+last.2.length := by
  have hend := (h.holds.inside _ _ (h.mem_last hlast).2.1).2
  exact ⟨hend,satAdd_eq (hend.trans h.bound)⟩

/-- The chunk that is put together is the piece of the stream that the frame and the chunks
    cover. -/
theorem overlay_at {start : ℕ} (hstart : start = min offset first.1)
    (hstop : stop = max (offset+data.length) (last.1+last.2.length)) :
    let combined := overlay start ((first :: rest) ++ [(offset,data)])
      (replicate (stop-start) 0)
    At b start combined ∧ combined.length = stop-start := by
  intro combined
  obtain ⟨hmem,hchunk⟩ := h.mem_last hlast
  obtain ⟨-,-,hfirst,-,-⟩ := h.bounds
  have hfits : Fits start (replicate (stop-start) (0 : UInt8)).length
      ((first :: rest) ++ [(offset,data)]) := by
    intro p hp
    rw [length_replicate]
    rcases mem_append.1 hp with hp | hp
    · have hlow := h.first_le hp
      have hhigh := h.le_last hlast hp
      omega
    · rw [mem_singleton.1 hp]
      simp only
      omega
  refine ⟨At.overlay hfits (fun p hp => ?_) fun i hi => ?_,
    (Slice.length_overlay hfits).trans length_replicate⟩
  · rcases mem_append.1 hp with hp | hp
    · exact h.holds.piece _ _ (h.mem.1 hp).1
    · rw [mem_singleton.1 hp]
      exact h.piece
  · -- before the frame the first chunk covers, behind it the last one
    rw [length_replicate] at hi
    by_cases hbefore : start+i < offset
    · exact ⟨first,mem_append_left _ mem_cons_self,by omega,by omega⟩
    · by_cases hbehind : start+i < offset+data.length
      · exact ⟨(offset,data),mem_append_right _ (mem_singleton_self _),not_lt.1 hbefore,
          hbehind⟩
      · exact ⟨last,mem_append_left _ hmem,by omega,by omega⟩

theorem put_spec {start : ℕ} {combined : List UInt8} (hstart : start = min offset first.1)
    (hstop : stop = max (offset+data.length) (last.1+last.2.length))
    (hat : At b start combined) (hlen : combined.length = stop-start) :
    Joins b r offset data
      (((first :: rest).foldl (fun m p => m.erase p.1) r.chunks).insert start combined) := by
  have hm : ∀ s : ℕ, (((first :: rest).foldl (fun m p => m.erase p.1) r.chunks).insert start
      combined)[s]? = if s = start then some combined
      else if s ∈ (first :: rest).map Prod.fst then none else r.chunks[s]? := by
    intro s
    rw [OrderedMap.get_insert,OrderedMap.get_foldl_erase Prod.fst]
  obtain ⟨-,hfirstEnd,hfirst,hfirstLt,hnext⟩ := h.bounds
  have hlastEnd := (h.last_bounds hlast).1
  obtain ⟨-,hlastChunk,hlastLt,-⟩ := h.mem_last hlast
  have hfirstChunk := (h.mem.1 mem_cons_self).1
  have hle := h.le
  have hnextOffset := h.next
  refine ⟨h.holds.put hm hat (by omega) (by omega) fun s d hs hK _ => ?_,
    fun i => (has_put hm (fun s d hs hout i hi hlt => ?_) i).trans ?_⟩
  · -- a chunk the frame does not overlap lies before the first or behind the last one
    rw [h.mem_keys hs] at hK
    have hbeforeFirst := h.holds.apart s d _ _ hs hfirstChunk
    have hafterFirst := h.holds.apart _ _ s d hfirstChunk hs
    have hafterLast := h.holds.apart _ _ s d hlastChunk hs
    omega
  · by_cases hK : s ∈ (first :: rest).map Prod.fst
    · have hp : (s,d) ∈ first :: rest := h.mem.2 ⟨hs,(h.mem_keys hs).1 hK⟩
      have hlow : first.1 ≤ s := h.first_le hp
      have hhigh := h.le_last hlast hp
      simp only at hhigh
      omega
    · have hstartEq := hout.resolve_left hK
      rw [h.mem_keys hs] at hK
      by_cases heq : s = first.1
      · omega
      · omega
  · constructor
    · rintro (hi | hi)
      · exact .inl hi
      by_cases hbefore : i < offset
      · exact .inl (.inr ⟨_,_,hfirstChunk,by omega,by omega⟩)
      · by_cases hbehind : i < offset+data.length
        · exact .inr ⟨not_lt.1 hbefore,hbehind⟩
        · exact .inl (.inr ⟨_,_,hlastChunk,by omega,by omega⟩)
    · exact .imp_right fun hi => by omega

end

theorem merge_spec {limit : ℕ} (hlimit : b.length ≤ limit) :
    ∃ m, r.merge w first rest offset (offset+data.length) data limit = .ok { r with chunks := m } ∧
      Joins b r offset data m := by
  obtain ⟨hlastEnd,hsat⟩ := h.last_bounds rfl
  obtain ⟨hat,hlen⟩ := h.overlay_at rfl rfl rfl
  have hconflict : (first :: rest).any (conflicts offset (offset+data.length) data) = false :=
    any_eq_false.2 fun p hp => by simp [h.conflicts_eq hp]
  refine ⟨_,?_,h.put_spec rfl rfl rfl hat hlen⟩
  have hle := h.le
  simp only [merge,hsat]
  rw [if_neg (by simp [hconflict]),if_neg (by omega)]

end Merging

theorem buffer_spec (hb : b.length ≤ u64Max) (h : Holds b r) {limit : ℕ}
    (hat : At b offset data) (hle : offset+data.length ≤ b.length) (hlimit : b.length ≤ limit)
    (hnext : r.next ≤ offset) (hkeep : data = [] → ∀ c, r.chunks[offset]? = some c → c = [])
    (hroom : r.chunks.size < MAX_STREAM_CHUNKS ∨ r.affected offset (offset+data.length) ≠ []) :
    ∃ m, r.buffer w offset (offset+data.length) data limit = .ok { r with chunks := m } ∧
      Joins b r offset data m := by
  cases haffected : r.affected offset (offset+data.length) with
  | nil =>
    have hnone : ∀ (s : ℕ) (c : List UInt8), r.chunks[s]? = some c →
        ¬(s < offset+data.length ∧ offset < s+c.length) := by
      intro s c hs hbound
      have hmem : (s,c) ∈ r.affected offset (offset+data.length) :=
        (mem_affected hb h).2 ⟨hs,hbound⟩
      rw [haffected] at hmem
      exact not_mem_nil hmem
    have hkeep' : ∀ c, r.chunks[offset]? = some c → c = [] := by
      intro c hc
      by_cases hdata : data = []
      · exact hkeep hdata c hc
      · have hpos := length_pos_iff.2 hdata
        have hbound := hnone offset c hc
        exact length_eq_zero_iff.1 (by omega)
    refine ⟨_,?_,buffer_apart h hat hle hnext hkeep' hnone⟩
    simp only [buffer,haffected]
    rw [if_neg (not_le.2 (hroom.resolve_right fun hne => hne haffected))]
  | cons first rest =>
    obtain ⟨m,heq,hspec⟩ := Merging.merge_spec ⟨hb,h,hat,hle,hnext,haffected⟩ hlimit
    refine ⟨m,?_,hspec⟩
    simp only [buffer,haffected]
    exact heq

/-! ### One frame -/

end StreamReassembly

structure StreamFrame where
  offset : ℕ
  data : List UInt8
  fin : Bool

/-- A frame carries a piece of the stream, and FIN only at its end. -/
structure Segment (b : List UInt8) (f : StreamFrame) : Prop where
  piece : At b f.offset f.data
  le : f.offset + f.data.length ≤ b.length
  fin : f.fin = true → f.offset + f.data.length = b.length

instance (b : List UInt8) (f : StreamFrame) : Decidable (Segment b f) :=
  decidable_of_iff (At b f.offset f.data ∧ f.offset + f.data.length ≤ b.length ∧
      (f.fin = true → f.offset + f.data.length = b.length))
    ⟨fun h => ⟨h.1, h.2.1, h.2.2⟩, fun h => ⟨h.piece, h.le, h.fin⟩⟩

namespace StreamReassembly

variable {w : ReassemblyTexts} {b : List UInt8} {r : StreamReassembly} {f : StreamFrame}
  {limit : ℕ}

/-- The frame does not add a chunk to `MAX_STREAM_CHUNKS` of them. -/
def WithinChunks (r : StreamReassembly) (f : StreamFrame) : Prop :=
  r.chunks.size < MAX_STREAM_CHUNKS ∨ f.offset + f.data.length ≤ r.next ∧ f.offset < r.next ∨
    r.affected (max f.offset r.next) (f.offset + f.data.length) ≠ []

def SparesChunk (r : StreamReassembly) (f : StreamFrame) : Prop :=
  f.data = [] → r.chunks[f.offset]?.getD [] = []

instance (r : StreamReassembly) (f : StreamFrame) : Decidable (r.WithinChunks f) :=
  inferInstanceAs (Decidable (_ ∨ _ ∨ _))

instance (r : StreamReassembly) (f : StreamFrame) : Decidable (r.SparesChunk f) :=
  inferInstanceAs (Decidable (_ → _))

def FinalSize (b : List UInt8) (r : StreamReassembly) : Prop :=
  ∀ n, r.finalSize = some n → n = b.length

structure Inserted (b : List UInt8) (r : StreamReassembly) (f : StreamFrame) (out : List UInt8)
    (r' : StreamReassembly) : Prop where
  holds : Holds b r'
  next : r'.chunks[r'.next]? = none
  out : r'.delivered = r.delivered ++ out
  has : ∀ i, r'.Has i ↔ r.Has i ∨ (f.offset ≤ i ∧ i < f.offset + f.data.length)
  final : r'.finalSize = if f.fin then some b.length else r.finalSize

def fixFinal (b : List UInt8) (r : StreamReassembly) (fin : Bool) : StreamReassembly :=
  { r with finalSize := if fin then some b.length else r.finalSize }

theorem Holds.fixFinal (h : Holds b r) (fin : Bool) : Holds b (r.fixFinal b fin) :=
  ⟨h.le,h.delivered,h.piece,h.inside,h.apart⟩

theorem FinalSize.fixFinal (h : FinalSize b r) (fin : Bool) : FinalSize b (r.fixFinal b fin) := by
  intro n hn
  cases fin with
  | false => exact h n hn
  | true => exact (Option.some.inj hn).symm

variable (hb : b.length ≤ limit) (hlimit : limit ≤ u64Max)
include hb hlimit

theorem check_eq (h : FinalSize b r)
    {length : ℕ} {fin : Bool} (hle : offset+length ≤ b.length)
    (hfin : fin = true → offset+length = b.length) :
    r.check offset length fin limit = .ok (offset+length,r.fixFinal b fin) := by
  have hfits : ¬(limit < offset+length ∨ limit < offset) := by omega
  simp only [check,checkedAdd_eq (hle.trans (hb.trans hlimit))]
  rw [if_neg hfits]
  cases fin with
  | true =>
    have hsame : r.finalSize.any (· ≠ offset+length) = false := by
      cases hfinal : r.finalSize with
      | none => rfl
      | some n => simp [h n hfinal,hfin rfl]
    rw [if_pos rfl,hsame,if_neg Bool.false_ne_true,fixFinal,if_pos rfl,hfin rfl]
  | false =>
    have hbelow : r.finalSize.any (· < offset+length) = false := by
      cases hfinal : r.finalSize with
      | none => rfl
      | some n => simpa [h n hfinal] using hle
    rw [if_neg Bool.false_ne_true,hbelow,if_neg Bool.false_ne_true]
    rfl

theorem store_spec (h : Holds b r)
    (hat : At b offset data) (hle : offset+data.length ≤ b.length)
    (hnext : r.next ≤ offset) (hkeep : data = [] → ∀ c, r.chunks[offset]? = some c → c = [])
    (hroom : r.chunks.size < MAX_STREAM_CHUNKS ∨ r.affected offset (offset+data.length) ≠ []) :
    ∃ out r', r.store w offset (offset+data.length) data limit = (.ok out,r') ∧
      Inserted b r ⟨offset,data,false⟩ out r' := by
  obtain ⟨m,hbuffer,hjoins⟩ :=
    buffer_spec (w := w) (hb.trans hlimit) h hat hle hb hnext hkeep hroom
  obtain ⟨out,r',htake,hready⟩ := takeReady_spec (w := w) (hb.trans hlimit) hjoins.holds
  refine ⟨out,r',?_,hready.holds,hready.next,hready.out,fun i => ?_,hready.final⟩
  · simp only [store,hbuffer,htake]
  · rw [hready.has,hjoins.has]

/-- A frame that repeats octets is compared with what was delivered, and goes on from there. -/
theorem repeated_spec (h : Holds b r)
    (hfinal : FinalSize b r) (hfix : r.fixFinal b f.fin = r) (hf : Segment b f)
    (hold : f.offset < r.next) (hroom : r.WithinChunks f) :
    ∃ out r', r.repeated f.offset (f.offset+f.data.length) f.data f.fin limit = (.ok out,r') ∧
      Inserted b r f out r' := by
  have hkept : r.finalSize = if f.fin then some b.length else r.finalSize :=
    (congrArg finalSize hfix).symm
  -- the octets that come again are the same piece of the stream
  have hoverlap : ¬(r.delivered.length < f.offset+min (r.next-f.offset) f.data.length ∨
      (r.delivered.drop f.offset).take (min (r.next-f.offset) f.data.length) ≠
        f.data.take (min (r.next-f.offset) f.data.length)) := by
    rw [not_or,h.length_delivered]
    refine ⟨by omega,not_not.2 ?_⟩
    have hdelivered : At b 0 r.delivered := h.delivered ▸ Slice.at_take_drop b 0 r.next
    have hhistory := (hdelivered.drop f.offset).take (min (r.next-f.offset) f.data.length)
    rw [Nat.zero_add] at hhistory
    refine hhistory.eq (hf.piece.take _) ?_
    rw [length_take,length_take,length_drop,h.length_delivered]
    omega
  unfold repeated
  rw [if_neg hoverlap]
  by_cases hstop : f.offset+f.data.length ≤ r.next
  · rw [if_pos hstop]
    obtain ⟨out,r',htake,hready⟩ := takeReady_spec (hb.trans hlimit) h
    refine ⟨out,r',htake,hready.holds,hready.next,hready.out,fun i => ?_,
      hready.final.trans hkept⟩
    rw [hready.has]
    exact ⟨.inl,fun hi => hi.elim (fun hi => hi) fun hi => .inl (lt_of_lt_of_le hi.2 hstop)⟩
  have hskip : min (r.next-f.offset) f.data.length = r.next-f.offset := by omega
  have hlen : (f.data.drop (r.next-f.offset)).length = f.offset+f.data.length-r.next := by
    rw [length_drop]
    omega
  have hend : r.next+(f.data.drop (r.next-f.offset)).length = f.offset+f.data.length := by
    omega
  have hpiece : At b r.next (f.data.drop (r.next-f.offset)) := by
    have := hf.piece.drop (r.next-f.offset)
    rwa [Nat.add_sub_cancel' hold.le] at this
  have hcheck := check_eq hb hlimit hfinal (hend.le.trans hf.le) fun hfin =>
    hend.trans (hf.fin hfin)
  have hnonempty : f.data.drop (r.next-f.offset) ≠ [] := by
    rw [ne_eq,← length_eq_zero_iff,hlen]
    omega
  rw [WithinChunks,max_eq_right hold.le] at hroom
  have hroom' := hroom.imp_right fun hroom => hroom.resolve_left fun hdone => hstop hdone.1
  rw [if_neg hstop,hskip,hcheck,hfix]
  obtain ⟨out,r',hstore,hnew⟩ := store_spec hb hlimit h hpiece
    (hend.le.trans hf.le) le_rfl (fun hdata => absurd hdata hnonempty) (hend ▸ hroom')
  refine ⟨out,r',hstore,hnew.holds,hnew.next,hnew.out,fun i => ?_,hnew.final.trans hkept⟩
  rw [hnew.has,hend]
  refine ⟨Or.imp_right fun hi => ⟨hold.le.trans hi.1,hi.2⟩,?_⟩
  rintro (hi | hi)
  · exact .inl hi
  · by_cases hlt : i < r.next
    · exact .inl (.inl hlt)
    · exact .inr ⟨not_lt.1 hlt,hi.2⟩

theorem insert_spec (h : Holds b r)
    (hfinal : FinalSize b r) (hf : Segment b f) (hroom : r.WithinChunks f)
    (hspares : r.SparesChunk f) :
    ∃ out r', r.insert f.offset f.data f.fin limit = (.ok out,r') ∧ Inserted b r f out r' := by
  have hfix : (r.fixFinal b f.fin).fixFinal b f.fin = r.fixFinal b f.fin := by
    cases f.fin <;> rfl
  simp only [insert,check_eq hb hlimit hfinal hf.le hf.fin]
  split_ifs with hold
  · obtain ⟨out,r',heq,hinserted⟩ := repeated_spec hb hlimit (h.fixFinal f.fin)
      (hfinal.fixFinal f.fin) hfix hf hold hroom
    exact ⟨out,r',heq,hinserted.holds,hinserted.next,hinserted.out,hinserted.has,
      hinserted.final.trans (congrArg finalSize hfix)⟩
  have hnext : r.next ≤ f.offset := not_lt.1 hold
  have hkeep : f.data = [] → ∀ c, r.chunks[f.offset]? = some c → c = [] := by
    intro hdata c hc
    have hempty := hspares hdata
    rwa [hc] at hempty
  rw [WithinChunks,max_eq_left hnext] at hroom
  have hroom' := hroom.imp_right fun hroom => hroom.resolve_left fun hdone => hold hdone.2
  obtain ⟨out,r',hstore,hnew⟩ := store_spec hb hlimit (h.fixFinal f.fin) hf.piece hf.le hnext
    hkeep hroom'
  exact ⟨out,r',hstore,hnew.holds,hnew.next,hnew.out,hnew.has,hnew.final⟩

end StreamReassembly

/-! ### Runs of arrivals -/

/-- A stream being received: the reassembly, what its calls returned, whether one of them
    failed, and the frames so far. -/
structure Receiver where
  reassembly : StreamReassembly := {}
  output : List UInt8 := []
  failed : Bool := false
  frames : List StreamFrame := []

namespace Receiver

def step (limit : ℕ) (s : Receiver) (f : StreamFrame) : Receiver :=
  match s.reassembly.insert f.offset f.data f.fin limit with
  | (.ok out, r) => { s with reassembly := r, output := s.output ++ out, frames := s.frames ++ [f] }
  | (.error _, r) => { s with reassembly := r, failed := true, frames := s.frames ++ [f] }

/-- A frame has brought the octet at offset `i`. -/
def Arrived (frames : List StreamFrame) (i : ℕ) : Prop :=
  ∃ f ∈ frames, f.offset ≤ i ∧ i < f.offset + f.data.length

instance (frames : List StreamFrame) (i : ℕ) : Decidable (Arrived frames i) :=
  inferInstanceAs (Decidable (∃ f ∈ frames, _))

structure Follows (b : List UInt8) (s : Receiver) : Prop where
  holds : s.reassembly.Holds b
  next : s.reassembly.chunks[s.reassembly.next]? = none
  output : s.reassembly.delivered = s.output
  failed : s.failed = false
  has : ∀ i, s.reassembly.Has i ↔ Arrived s.frames i
  final : s.reassembly.finalSize = if s.frames.any (·.fin) then some b.length else none

variable {b : List UInt8} {s : Receiver} {f : StreamFrame} {limit : ℕ}

theorem arrived_append (frames : List StreamFrame) (f : StreamFrame) (i : ℕ) :
    Arrived (frames ++ [f]) i ↔
      Arrived frames i ∨ (f.offset ≤ i ∧ i < f.offset+f.data.length) := by
  simp [Arrived,or_and_right,exists_or]

theorem follows_start (b : List UInt8) : Follows b {} := by
  refine ⟨⟨Nat.zero_le _,rfl,?_,?_,?_⟩,ExtTreeMap.getElem?_empty,rfl,rfl,fun i => ?_,rfl⟩
  · exact fun s c hs => absurd hs (by simp)
  · exact fun s c hs => absurd hs (by simp)
  · exact fun s c s' c' hs => absurd hs (by simp)
  · simp [StreamReassembly.Has,Arrived]

theorem Follows.inserted (h : Follows b s) {out : List UInt8} {r : StreamReassembly}
    (hnew : s.reassembly.Inserted b f out r) : Follows b { s with
      reassembly := r, output := s.output ++ out, frames := s.frames ++ [f] } := by
  refine ⟨hnew.holds,hnew.next,?_,h.failed,fun i => ?_,?_⟩
  · rw [hnew.out,h.output]
  · rw [arrived_append,← h.has i]
    exact hnew.has i
  · simp only [hnew.final,h.final,any_append,any_cons,any_nil,Bool.or_false]
    cases f.fin <;> simp

theorem Follows.step (hb : b.length ≤ limit) (hlimit : limit ≤ u64Max) (h : Follows b s)
    (hf : Segment b f) (hroom : s.reassembly.WithinChunks f) (hspares : s.reassembly.SparesChunk f) :
    Follows b (s.step limit f) := by
  have hfinal : s.reassembly.FinalSize b := by
    intro n hn
    rw [h.final] at hn
    split_ifs at hn
    exact (Option.some.inj hn).symm
  obtain ⟨out,r',heq,hinserted⟩ :=
    StreamReassembly.insert_spec hb hlimit h.holds hfinal hf hroom hspares
  unfold Receiver.step
  rw [heq]
  exact h.inserted hinserted

theorem Follows.output_eq (h : Follows b s) : s.output = b.take s.output.length := by
  rw [← h.output,h.holds.length_delivered]
  exact h.holds.delivered

/-- Nothing can wait behind `next`: an octet there would wait in a chunk that begins there. -/
theorem Follows.not_arrived_next (h : Follows b s) : ¬ Arrived s.frames s.reassembly.next := by
  intro harrived
  rcases (h.has _).2 harrived with hirrefl | ⟨k,c,hk,hle,-⟩
  · exact lt_irrefl _ hirrefl
  · rw [le_antisymm hle (h.holds.inside k c hk).1,h.next] at hk
    cases hk

/-- Once every octet has arrived, the stream is delivered. -/
theorem Follows.complete (h : Follows b s) (hall : ∀ i < b.length, Arrived s.frames i) :
    s.output = b := by
  have hnext : s.reassembly.next = b.length :=
    le_antisymm h.holds.le (not_lt.1 fun hlt => h.not_arrived_next (hall _ hlt))
  rw [← h.output,h.holds.delivered,hnext,take_length]

theorem Follows.finished_iff (h : Follows b s) :
    s.reassembly.finished = true ↔ (∃ f ∈ s.frames, f.fin = true) ∧ s.output = b := by
  have hlen : s.output.length = s.reassembly.next := by
    rw [← h.output,h.holds.length_delivered]
  rw [StreamReassembly.finished,decide_eq_true_eq,h.final,← any_eq_true]
  split_ifs with hfin
  · rw [Option.some.injEq,and_iff_right hfin,← hlen]
    constructor
    · intro heq
      rw [h.output_eq,← heq,take_length]
    · exact fun heq => (congrArg length heq).symm
  · exact ⟨nofun,fun hboth => absurd hboth.1 hfin⟩

end Receiver

/-- The frames of a byte stream, in any order and any pieces, with repetitions: `insert`
    accepts them all, delivers the stream in order, keeps every octet until it is delivered,
    and knows when it is done. Every step must spare the chunks (`SparesChunk`). -/
theorem stream_reassembled (b : List UInt8) (limit : Usize) (hb : b.length ≤ limit)
    (frames : List StreamFrame)
    (hframes : Run.Along (Receiver.step limit)
      (fun s f => Segment b f ∧ s.reassembly.WithinChunks f ∧ s.reassembly.SparesChunk f) {} frames) :
    let s := Run.run (Receiver.step limit) {} frames
    s.failed = false ∧ s.output = b.take s.output.length ∧
      ((∀ i < b.length, Receiver.Arrived s.frames i) → s.output = b) ∧
      (∀ i, Receiver.Arrived s.frames i → i < s.output.length ∨
        ∃ (k : ℕ) (c : List UInt8), s.reassembly.chunks[k]? = some c ∧ k ≤ i ∧ i < k + c.length) ∧
      (s.reassembly.finished = true ↔ (∃ f ∈ s.frames, f.fin = true) ∧ s.output = b) := by
  intro s
  have h : Receiver.Follows b s := Run.invariant
    (fun s f hs hok => hs.step hb limit.le_max hok.1 hok.2.1 hok.2.2)
    (Receiver.follows_start b) hframes
  refine ⟨h.failed,h.output_eq,h.complete,fun i hi => ?_,h.finished_iff⟩
  rw [← h.output,h.holds.length_delivered]
  exact (h.has i).2 hi

/-- The second half of a stream arrives first, then all of it. -/
theorem stream_reassembled_out_of_order :
    let s := Run.run (Receiver.step 16) {} [⟨2, [3, 4], true⟩, ⟨0, [1, 2, 3], false⟩]
    s.failed = false ∧ s.output = [1, 2, 3, 4].take s.output.length ∧
      ((∀ i < [1, 2, 3, 4].length, Receiver.Arrived s.frames i) → s.output = [1, 2, 3, 4]) ∧
      (∀ i, Receiver.Arrived s.frames i → i < s.output.length ∨
        ∃ (k : ℕ) (c : List UInt8), s.reassembly.chunks[k]? = some c ∧ k ≤ i ∧ i < k + c.length) ∧
      (s.reassembly.finished = true ↔
        (∃ f ∈ s.frames, f.fin = true) ∧ s.output = [1, 2, 3, 4]) :=
  stream_reassembled [1,2,3,4] 16 (by decide) [⟨2,[3,4],true⟩,⟨0,[1,2,3],false⟩]
    (by decide)

/-- An empty frame at the offset of a chunk takes its place, and the octets are lost. -/
theorem empty_frame_discards_chunk :
    ¬ ∀ (b : List UInt8) (limit : Usize), b.length ≤ limit → ∀ frames : List StreamFrame,
      Run.Along (Receiver.step limit)
        (fun s f => Segment b f ∧ s.reassembly.WithinChunks f) {} frames →
      let s := Run.run (Receiver.step limit) {} frames
      (∀ i < b.length, Receiver.Arrived s.frames i) → s.output = b := by
  intro h
  have houtput := h [1,2,3,4] 16 (by decide)
    [⟨2,[3,4],false⟩,⟨2,[],false⟩,⟨0,[1,2],false⟩] (by decide)
  exact absurd (houtput (by decide)) (by decide)

end Courierust.Quic
