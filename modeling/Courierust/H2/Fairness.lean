import Courierust.H2.Priority
import Courierust.Lib.Run

/-!
# What the scheduler serves over time

When `next` finds a stream, and which streams are found again and again if each is kept queued.
-/

namespace Courierust.H2

open Scheduler
open List Bucket

variable {u : Fin 8} {id : ℕ} {base : Scheduler}

namespace Scheduler

/-! ### Work conservation -/

inductive Op where
  | add (id : ℕ) (p : Priority)
  | remove (id : ℕ)
  | update (id : ℕ) (old new : Priority)
  | next (want : ℕ)

def apply (s : Scheduler) : Op → Scheduler
  | .add id p => s.add id p
  | .remove id => s.remove id
  | .update id old new => s.update id old new
  | .next want => (s.next want).2

variable {want : ℕ} {s : Scheduler}

theorem quantum_scan {s' : Scheduler} (h : s.scan want = some (id,s')) :
    s'.quantum = s.quantum := by
  obtain ⟨u,-,hu⟩ := exists_of_findSome?_eq_some h
  obtain ⟨⟨id',b⟩,-,heq⟩ := Option.map_eq_some_iff.1 hu
  cases heq
  rfl

theorem quantum_next (s : Scheduler) (want : ℕ) : (s.next want).2.quantum = s.quantum := by
  unfold next
  split
  · next h => exact quantum_scan h
  split_ifs
  · simp only
    split
    · next h =>
      have hfresh := quantum_scan h
      exact hfresh
    · rfl
  · rfl

theorem quantum_remove (s : Scheduler) (id : ℕ) : (s.remove id).quantum = s.quantum := by
  unfold remove
  split <;> rfl

theorem quantum_run (s : Scheduler) (ops : List Op) :
    (Run.run apply s ops).quantum = s.quantum := by
  have hstep : ∀ t op, t.quantum = s.quantum → True → (apply t op).quantum = s.quantum := by
    intro t op ht _
    cases op with
    | add => exact ht
    | remove id => exact (quantum_remove t id).trans ht
    | update id old new =>
      by_cases heq : old = new
      · simpa [apply,update,heq] using ht
      · simpa [apply,update,heq,add,setBucket] using (quantum_remove t id).trans ht
    | next want => exact (quantum_next t want).trans ht
  exact Run.invariant hstep rfl (Run.along_of_forall (fun _ _ => trivial) s ops)

theorem next_cases (s : Scheduler) (want : ℕ) :
    (∃ base u, (base = s ∨ base = s.fresh ∧ ∀ v, ¬ (s.buckets v).Ready want s.quantum) ∧
      (∀ v < u, ¬ (base.buckets v).Ready want base.quantum) ∧
        (base.buckets u).Ready want base.quantum) ∨
      (∀ v, ¬ (s.buckets v).Ready want s.quantum) ∧
        ∀ v, ¬ (s.fresh.buckets v).Ready want s.quantum := by
  have hleast : ∀ t : Scheduler, (∃ u, (t.buckets u).Ready want t.quantum) →
      ∃ u, (∀ v < u, ¬ (t.buckets v).Ready want t.quantum) ∧
        (t.buckets u).Ready want t.quantum := by
    intro t ht
    obtain ⟨u,hu,hmin⟩ := wellFounded_lt.has_min {u | (t.buckets u).Ready want t.quantum} ht
    exact ⟨u,fun v hv hready => hmin v hready hv,hu⟩
  by_cases hs : ∃ u, (s.buckets u).Ready want s.quantum
  · obtain ⟨u,hu⟩ := hleast s hs
    exact .inl ⟨s,u,.inl rfl,hu⟩
  · by_cases hf : ∃ u, (s.fresh.buckets u).Ready want s.fresh.quantum
    · obtain ⟨u,hu⟩ := hleast s.fresh hf
      exact .inl ⟨s.fresh,u,.inr ⟨rfl,not_exists.1 hs⟩,hu⟩
    · exact .inr ⟨not_exists.1 hs,not_exists.1 hf⟩

theorem next_of_not_ready (h : ∀ v, ¬ (s.buckets v).Ready want s.quantum)
    (hfresh : ∀ v, ¬ (s.fresh.buckets v).Ready want s.quantum) :
    s.next want = (none,s) ∨ s.next want = (none,s.fresh) := by
  have hscan : Scheduler.scan { s with buckets := fun u => { s.buckets u with deficit := 0 } }
      want = none := scan_eq_none hfresh
  rw [next,scan_eq_none h]
  simp only [hscan]
  split_ifs
  · exact .inr rfl
  · exact .inl rfl

/-- `next` finds nothing if nothing is queued, or if only streams are that are not incremental
and `want` is more than a whole quantum. -/
theorem next_eq_none_iff (s : Scheduler) (want : ℕ) :
    (s.next want).1 = none ↔ (∀ u, (s.buckets u).incremental = []) ∧
      ((∀ u, (s.buckets u).nonIncremental = []) ∨ s.quantum < want % 2^32) := by
  constructor
  · intro hnone
    rcases s.next_cases want with ⟨base,u,hbase,hfirst,hready⟩ | ⟨-,hfresh⟩
    · obtain ⟨id,rest,⟨-,hserve⟩ | ⟨-,-,hserve⟩⟩ := serve_of_ready hready <;>
      · rw [next_of_ready hbase hfirst hserve] at hnone
        cases hnone
    · simp only [Bucket.Ready,Bucket.charged,fresh,not_or,not_and,not_le,zero_add,not_not] at hfresh
      refine ⟨fun u => (hfresh u).1,or_iff_not_imp_left.2 fun hany => ?_⟩
      obtain ⟨u,hu⟩ := not_forall.1 hany
      exact ((hfresh u).2 hu).trans_le (min_le_left _ _)
  · rintro ⟨hinc,hrest⟩
    have hidle : ∀ b : Bucket, (∃ u, b.incremental = (s.buckets u).incremental ∧
        b.nonIncremental = (s.buckets u).nonIncremental) → ¬ b.Ready want s.quantum := by
      rintro b ⟨u,hi,hn⟩ (hne | ⟨hne,hle⟩)
      · exact hne (hi.trans (hinc u))
      · rcases hrest with hrest | hlt
        · exact hne (hn.trans (hrest u))
        · unfold Bucket.charged at hle
          omega
    rcases next_of_not_ready (fun u => hidle _ ⟨u,rfl,rfl⟩) fun u => hidle _ ⟨u,rfl,rfl⟩ with h | h <;>
      rw [h]

end Scheduler

variable {i : Bool} {v : Fin 8}

/-- `next` finds a stream whenever one is queued, if and only if a whole quantum pays for `want`,
or an incremental stream is queued. -/
theorem work_conserved_iff (q : ℕ) (ops : List Scheduler.Op) (want : ℕ)
    (hwant : 16384 ≤ want ∧ want ≤ 16777215) :
    (((Run.run Scheduler.apply (.new q) ops).next want).1 = none →
        ∀ id, ¬ (Run.run Scheduler.apply (.new q) ops).has id) ↔
      want ≤ q ∨ (∃ u, ((Run.run Scheduler.apply (.new q) ops).buckets u).incremental ≠ []) ∨
        ∀ id, ¬ (Run.run Scheduler.apply (.new q) ops).has id := by
  have hquantum : (Run.run Scheduler.apply (.new q) ops).quantum = max q 1 :=
    quantum_run (.new q) ops
  rw [next_eq_none_iff,hquantum]
  constructor
  · intro hconserved
    by_contra hnot
    push Not at hnot
    obtain ⟨hlt,hinc,id,hid⟩ := hnot
    exact hconserved ⟨hinc,.inr (by omega)⟩ id hid
  · rintro hwhen ⟨hinc,hrest⟩ id hid
    rcases hwhen with hle | ⟨u,hu⟩ | hempty
    · rcases hrest with hnon | hlt
      · obtain ⟨u,hu | hu⟩ := hid
        · rw [hnon u] at hu
          cases hu
        · rw [hinc u] at hu
          cases hu
      · omega
    · exact hu (hinc u)
    · exact hempty id hid

/-- A connection's own quantum pays for the smallest frames. -/
theorem work_conserved_default :
    (Run.run Scheduler.apply (.new (32 * 1024)) [.add 1 {}]).has 1 ∧
      (((Run.run Scheduler.apply (.new (32 * 1024)) [.add 1 {}]).next 16384).1 = none →
        ∀ id, ¬ (Run.run Scheduler.apply (.new (32 * 1024)) [.add 1 {}]).has id) :=
  ⟨by decide,
    (work_conserved_iff (32*1024) [.add 1 {}] 16384 (by decide)).2 (.inl (by decide))⟩

/-- A stream waits, and is never found: the peer takes frames of 32769 octets, one more than the
quantum of a connection. -/
theorem queued_stream_not_found :
    (Run.run Scheduler.apply (.new (32 * 1024)) [.add 1 {}]).has 1 ∧
      ((Run.run Scheduler.apply (.new (32 * 1024)) [.add 1 {}]).next 32769).1 = none := by
  decide

/-! ### Starvation -/

namespace Bucket

def rotated (b : Bucket) (want : ℕ) : Bucket :=
  if b.incremental ≠ [] then { b with incremental := b.incremental.rotate 1 }
  else
    { b with nonIncremental := b.nonIncremental.rotate 1, deficit := b.charged want }

def serves (b : Bucket) : Bool := b.incremental ≠ []

theorem queue_rotated (b : Bucket) (want : ℕ) (i : Bool) :
    (b.rotated want).queue i = if i = b.serves then (b.queue i).rotate 1 else b.queue i := by
  by_cases hinc : b.incremental = [] <;> cases i <;> simp [rotated,serves,queue,hinc]

end Bucket

namespace Scheduler

variable {prio : ℕ → Priority} {want : ℕ} {s : Scheduler}

def Kept (prio : ℕ → Priority) (s : Scheduler) : Prop :=
  ∀ u i id, id ∈ (s.buckets u).queue i → prio id = ⟨u, i⟩

/-- `next`, after which the served stream is queued as before. An incremental one still is. -/
def turn (prio : ℕ → Priority) (want : ℕ) (s : Scheduler) : Scheduler :=
  match s.next want with
  | (some id, s') => if (prio id).incremental then s' else s'.add id (prio id)
  | (none, s') => s'

/-- The stream that the call after `k` turns returns. -/
def served (prio : ℕ → Priority) (want : ℕ) (s : Scheduler) (k : ℕ) : Option ℕ :=
  (((turn prio want)^[k] s).next want).1

def queued (s : Scheduler) : ℕ := ∑ u, ((s.buckets u).incremental.length +
  (s.buckets u).nonIncremental.length)

def OneQueue (s : Scheduler) : Prop := ∃ u i, ∀ v j, (s.buckets v).queue j ≠ [] → v = u ∧ j = i

def NonIncremental (s : Scheduler) : Prop := ∀ u, (s.buckets u).incremental = []

/-- What a turn does: a bucket that is ready, and none before it, is served. -/
structure Turned (want : ℕ) (s s' : Scheduler) (base : Scheduler) (u : Fin 8) : Prop where
  start : base = s ∨ base = s.fresh ∧ ∀ v, ¬ (s.buckets v).Ready want s.quantum
  ready : (base.buckets u).Ready want s.quantum
  first : ∀ v < u, ¬ (base.buckets v).Ready want s.quantum
  head : (s.next want).1 = ((s.buckets u).queue (s.buckets u).serves).head?
  buckets : s'.buckets = Function.update base.buckets u ((base.buckets u).rotated want)
  quantum : s'.quantum = s.quantum

theorem exists_turned (want : ℕ) (hkept : Kept prio s) (hle : want ≤ s.quantum) (hid : s.has id) :
    ∃ base u, Turned want s (s.turn prio want) base u := by
  rcases s.next_cases want with ⟨base,u,hbase,hfirst,hready⟩ | ⟨hnone,hfresh⟩
  · have hquantum : base.quantum = s.quantum := by
      rcases hbase with rfl | ⟨rfl,-⟩ <;> rfl
    have hqueues : (base.buckets u).incremental = (s.buckets u).incremental ∧
        (base.buckets u).nonIncremental = (s.buckets u).nonIncremental := by
      rcases hbase with rfl | ⟨rfl,-⟩ <;> exact ⟨rfl,rfl⟩
    obtain ⟨x,rest,⟨hinc,hserve⟩ | ⟨hinc,hnon,hserve⟩⟩ := serve_of_ready hready
    · have hnext := next_of_ready hbase hfirst hserve
      have hprio : prio x = ⟨u,true⟩ := hkept u true x (by simp [Bucket.queue,← hqueues.1,hinc])
      refine ⟨base,u,hbase,hquantum ▸ hready,hquantum ▸ hfirst,?_,?_,?_⟩
      · simp [hnext,Bucket.queue,Bucket.serves,← hqueues.1,hinc]
      · simp [turn,hnext,hprio,setBucket,Bucket.rotated,hinc]
      · simp [turn,hnext,hprio,setBucket,hquantum]
    · have hnext := next_of_ready hbase hfirst hserve
      have hprio : prio x = ⟨u,false⟩ := hkept u false x (by simp [Bucket.queue,← hqueues.2,hnon])
      refine ⟨base,u,hbase,hquantum ▸ hready,hquantum ▸ hfirst,?_,?_,?_⟩
      · simp [hnext,Bucket.queue,Bucket.serves,← hqueues.1,← hqueues.2,hinc,hnon]
      · simp [turn,hnext,hprio,add,setBucket,Bucket.push,Bucket.rotated,hinc,hnon]
      · simp [turn,hnext,hprio,add,setBucket,hquantum]
  · obtain ⟨u,hu | hu⟩ := hid
    · exact absurd (.inr ⟨ne_nil_of_mem hu,by simp [fresh,Bucket.charged]; omega⟩) (hfresh u)
    · exact absurd (.inl (ne_nil_of_mem hu)) (hnone u)

structure SameQueues (s s' : Scheduler) : Prop where
  perm : ∀ v i, ((s'.buckets v).queue i).Perm ((s.buckets v).queue i)
  quantum : s'.quantum = s.quantum

variable {s' : Scheduler}

theorem SameQueues.has (h : SameQueues s s') (hid : s.has id) : s'.has id := by
  obtain ⟨u,hu⟩ := hid
  obtain ⟨i,hi⟩ := (has_iff _ _).1 hu
  exact ⟨u,(has_iff _ _).2 ⟨i,(h.perm u i).mem_iff.2 hi⟩⟩

theorem SameQueues.kept (h : SameQueues s s') (hkept : Kept prio s) : Kept prio s' :=
  fun v i id hid => hkept v i id ((h.perm v i).mem_iff.1 hid)

theorem SameQueues.nonIncremental (h : SameQueues s s') (hnon : NonIncremental s) :
    NonIncremental s' := by
  intro u
  have hperm : (s'.buckets u).incremental.Perm (s.buckets u).incremental := h.perm u true
  rwa [hnon u,perm_nil] at hperm

theorem SameQueues.oneQueue (h : SameQueues s s')
    (hone : ∀ v j, (s.buckets v).queue j ≠ [] → v = u ∧ j = i) :
    ∀ v j, (s'.buckets v).queue j ≠ [] → v = u ∧ j = i := by
  intro v j hne
  refine hone v j fun hnil => hne ?_
  have hperm := h.perm v j
  rwa [hnil,perm_nil] at hperm

namespace Turned

variable {s' base : Scheduler} {u : Fin 8}

section

variable (h : Turned want s s' base u)
include h

theorem queue_base (v : Fin 8) (i : Bool) :
    (base.buckets v).queue i = (s.buckets v).queue i := by
  rcases h.start with rfl | ⟨rfl,-⟩ <;> rfl

theorem queue (v : Fin 8) (i : Bool) :
    (s'.buckets v).queue i = if v = u ∧ i = (s.buckets u).serves then
      ((s.buckets v).queue i).rotate 1 else (s.buckets v).queue i := by
  have hserves : (base.buckets u).serves = (s.buckets u).serves := by
    rcases h.start with rfl | ⟨rfl,-⟩ <;> rfl
  rw [h.buckets,Function.update_apply]
  by_cases hv : v = u
  · subst hv
    simp only [if_true,queue_rotated,h.queue_base,hserves,true_and]
  · rw [if_neg hv,if_neg (fun hand => hv hand.1),h.queue_base]

theorem sameQueues : SameQueues s s' := by
  refine ⟨fun v i => ?_,h.quantum⟩
  rw [h.queue]
  split_ifs
  · exact rotate_perm _ _
  · rfl

theorem advance {before after : List ℕ}
    (hqueue : (s.buckets u).queue (s.buckets u).serves = before ++ id :: after) :
    (s.next want).1 = some id ∨ ∃ x rest, before = x :: rest ∧
      (s'.buckets u).queue (s.buckets u).serves = rest ++ id :: (after ++ [x]) := by
  cases before with
  | nil => exact .inl (by rw [h.head,hqueue]; rfl)
  | cons x rest =>
    refine .inr ⟨x,rest,rfl,?_⟩
    rw [h.queue,if_pos ⟨rfl,rfl⟩,hqueue]
    simp

end

end Turned

variable {id : ℕ}

theorem sameQueues_iterate (hkept : Kept prio s) (hle : want ≤ s.quantum) (hid : s.has id) (k : ℕ) :
    SameQueues s ((turn prio want)^[k] s) := by
  induction k with
  | zero => exact ⟨fun _ _ => .rfl,rfl⟩
  | succ k ih =>
    rw [Function.iterate_succ_apply']
    obtain ⟨base,u,hturn⟩ := exists_turned want (ih.kept hkept)
      (by rw [ih.quantum]; exact hle) (ih.has hid)
    have hnext := hturn.sameQueues
    exact ⟨fun v i => (hnext.perm v i).trans (ih.perm v i),hnext.quantum.trans ih.quantum⟩

theorem length_queue_le (s : Scheduler) (u : Fin 8) (i : Bool) :
    ((s.buckets u).queue i).length ≤ s.queued := by
  have hle : ((s.buckets u).incremental.length+(s.buckets u).nonIncremental.length) ≤ s.queued :=
    Finset.single_le_sum (f := fun u => (s.buckets u).incremental.length +
      (s.buckets u).nonIncremental.length) (fun _ _ => Nat.zero_le _) (Finset.mem_univ u)
  cases i <;> simp only [Bucket.queue,Bool.false_eq_true,if_false,if_true] <;> omega

theorem has_of_queue {before after : List ℕ}
    (hqueue : (s.buckets u).queue i = before ++ id :: after) : s.has id :=
  ⟨u,(has_iff _ _).2 ⟨i,by rw [hqueue]; simp⟩⟩

theorem Bucket.ready_serves {b : Bucket} {q : ℕ} (h : b.Ready want q) :
    b.queue b.serves ≠ [] := by
  by_cases hinc : b.incremental = []
  · simpa [Bucket.queue,Bucket.serves,hinc] using (h.resolve_left (not_not.2 hinc)).1
  · simp [Bucket.queue,Bucket.serves,hinc]

theorem Turned.serves_ne_nil (h : Turned want s s' base u) :
    (s.buckets u).queue (s.buckets u).serves ≠ [] := by
  have hne := Bucket.ready_serves h.ready
  rcases h.start with rfl | ⟨rfl,-⟩ <;> exact hne

theorem served_oneQueue (before after : List ℕ) (hkept : Kept prio s)
    (hle : want ≤ s.quantum) (hone : ∀ v j, (s.buckets v).queue j ≠ [] → v = u ∧ j = i)
    (hqueue : (s.buckets u).queue i = before ++ id :: after) :
    ∃ j ≤ before.length, served prio want s j = some id := by
  induction before generalizing s after with
  | nil =>
    obtain ⟨base,v,hturn⟩ := exists_turned want hkept hle (has_of_queue hqueue)
    obtain ⟨rfl,rfl⟩ := hone v _ hturn.serves_ne_nil
    exact ⟨0,le_rfl,hturn.head.trans (by rw [hqueue]; rfl)⟩
  | cons x rest ih =>
    obtain ⟨base,v,hturn⟩ := exists_turned want hkept hle (has_of_queue hqueue)
    obtain ⟨rfl,rfl⟩ := hone v _ hturn.serves_ne_nil
    rcases hturn.advance hqueue with hserved | ⟨x',rest',hcons,hnext⟩
    · exact ⟨0,Nat.zero_le _,hserved⟩
    · obtain ⟨rfl,rfl⟩ := List.cons.inj hcons
      obtain ⟨j,hj,hserved⟩ := ih _ (hturn.sameQueues.kept hkept)
        (by rw [hturn.quantum]; exact hle) (hturn.sameQueues.oneQueue hone) hnext
      exact ⟨j+1,Nat.succ_le_succ hj,hserved⟩

/-! ### Without incremental streams -/

def room (want : ℕ) (s : Scheduler) (v : Fin 8) : ℕ :=
  if (s.buckets v).nonIncremental = [] then 0 else (s.quantum - (s.buckets v).deficit) / want

theorem room_le (want : ℕ) (s : Scheduler) (v : Fin 8) : room want s v ≤ s.quantum/want := by
  unfold room
  split_ifs
  · exact Nat.zero_le _
  · exact Nat.div_le_div_right (Nat.sub_le _ _)

theorem ready_iff_room (hpos : 0 < want) (hle : want ≤ s.quantum) (hmax : s.quantum < 2^32-1)
    (hinc : (s.buckets v).incremental = []) :
    (s.buckets v).Ready want s.quantum ↔ room want s v ≠ 0 := by
  unfold room
  by_cases hnil : (s.buckets v).nonIncremental = []
  · simp [Bucket.Ready,hnil,hinc]
  · rw [if_neg hnil,Nat.div_ne_zero_iff]
    simp only [Bucket.Ready,Bucket.charged,hinc,hnil,ne_eq,not_true_eq_false,not_false_eq_true,
      true_and,false_or]
    omega

/-- The turns it takes at most until a bucket is served: the room of the others, and a whole round
of theirs if the bucket has none itself. -/
def delay (want : ℕ) (s : Scheduler) (u : Fin 8) : ℕ :=
  ∑ v ∈ Finset.univ.erase u, room want s v +
    if room want s u = 0 then 7 * (s.quantum / want) + 1 else 0

theorem sum_room_le (want : ℕ) (s : Scheduler) (u : Fin 8) :
    ∑ v ∈ Finset.univ.erase u, room want s v ≤ 7*(s.quantum/want) := by
  have hcard := Finset.sum_le_card_nsmul (Finset.univ.erase u) (room want s) (s.quantum/want)
    fun v _ => room_le want s v
  rwa [Finset.card_erase_of_mem (Finset.mem_univ u),Finset.card_univ,Fintype.card_fin,
    smul_eq_mul] at hcard

variable {s' base : Scheduler} {u u' : Fin 8}

theorem Turned.room_of_ne (h : Turned want s s' base u') (hne : v ≠ u') :
    room want s' v = room want base v := by
  have hquantum : base.quantum = s'.quantum := by
    rw [h.quantum]
    rcases h.start with rfl | ⟨rfl,-⟩ <;> rfl
  simp only [room,h.buckets,Function.update_of_ne hne,hquantum]

theorem Turned.room_self (h : Turned want s s' base u') (hpos : 0 < want)
    (hwant : want ≤ s.quantum) (hmax : s.quantum < 2^32-1)
    (hinc : (s.buckets u').incremental = []) : room want s' u'+1 = room want base u' := by
  have hbase : base.quantum = s.quantum ∧ (base.buckets u').incremental = [] := by
    rcases h.start with rfl | ⟨rfl,-⟩ <;> exact ⟨rfl,hinc⟩
  obtain ⟨hne,hle⟩ := h.ready.resolve_left (not_not.2 hbase.2)
  have hdeficit : (base.buckets u').charged want = (base.buckets u').deficit+want := by
    unfold Bucket.charged at hle ⊢
    omega
  have hroom : (s.quantum-((base.buckets u').deficit+want))/want+1 =
      (s.quantum-(base.buckets u').deficit)/want := by
    rw [Nat.div_eq_sub_div hpos (by omega : want ≤ s.quantum-(base.buckets u').deficit),
      Nat.sub_sub]
  simp only [room,h.buckets,Function.update_self,Bucket.rotated,hbase.2,ne_eq,
    not_true_eq_false,if_false,rotate_eq_nil_iff,hne,h.quantum,hbase.1,hdeficit,hroom]

theorem Turned.delay_lt (h : Turned want s s' base u') (hne : u' ≠ u) (hpos : 0 < want)
    (hle : want ≤ s.quantum) (hmax : s.quantum < 2^32-1) (hnon : NonIncremental s)
    (hqueue : (s.buckets u).nonIncremental ≠ []) : delay want s' u < delay want s u := by
  have hmem : u' ∈ Finset.univ.erase u := Finset.mem_erase.2 ⟨hne,Finset.mem_univ u'⟩
  have hself := h.room_self hpos hle hmax (hnon u')
  have hsum : ∑ v ∈ Finset.univ.erase u, room want s' v <
      ∑ v ∈ Finset.univ.erase u, room want base v := by
    refine Finset.sum_lt_sum (fun v _ => ?_) ⟨u',hmem,by omega⟩
    by_cases hv : v = u'
    · rw [hv]
      omega
    · exact (h.room_of_ne hv).le
  have htarget := h.room_of_ne hne.symm
  rcases h.start with rfl | ⟨rfl,hnone⟩
  · rw [delay,delay,htarget,h.quantum]
    omega
  have hzero : ∀ v, room want s v = 0 := fun v =>
    not_not.1 fun hroom => hnone v ((ready_iff_room hpos hle hmax (hnon v)).2 hroom)
  have hfull : room want s' u ≠ 0 := by
    rw [htarget]
    have hone : 0 < s.quantum/want := Nat.div_pos hle hpos
    simpa [room,fresh,hqueue] using hone.ne'
  have hround : ∑ v ∈ Finset.univ.erase u, room want s.fresh v ≤ 7*(s.quantum/want) :=
    sum_room_le want s.fresh u
  rw [delay,delay,if_neg hfull,if_pos (hzero u)]
  omega

theorem delay_lt (hpos : 0 < want) (hle : want ≤ s.quantum) (u : Fin 8) :
    delay want s u < 16*(s.quantum/want) := by
  have hone : 0 < s.quantum/want := Nat.div_pos hle hpos
  have hsum := sum_room_le want s u
  unfold delay
  split_ifs <;> omega

theorem served_nonIncremental (n : ℕ) (before after : List ℕ) (hkept : Kept prio s)
    (hpos : 0 < want) (hle : want ≤ s.quantum) (hmax : s.quantum < 2^32-1)
    (hnon : NonIncremental s) (hqueue : (s.buckets u).queue false = before ++ id :: after)
    (hn : 16*(s.quantum/want)*before.length+delay want s u ≤ n) :
    ∃ j ≤ n, served prio want s j = some id := by
  -- a turn of the bucket brings the stream one place on, any other shortens the delay
  induction n using Nat.strong_induction_on generalizing s before after with
  | _ n ih =>
    obtain ⟨base,v,hturn⟩ := exists_turned want hkept hle (has_of_queue hqueue)
    have hsame := hturn.sameQueues
    have hquantum := hturn.quantum
    have hnext : ∀ before' after',
        ((s.turn prio want).buckets u).queue false = before' ++ id :: after' →
        16*(s.quantum/want)*before'.length+delay want (s.turn prio want) u < n →
        ∃ j ≤ n, served prio want s j = some id := by
      intro before' after' hqueue' hlt
      obtain ⟨j,hj,hserved⟩ := ih _ hlt before' after' (hsame.kept hkept) (by omega) (by omega)
        (hsame.nonIncremental hnon) hqueue' (by rw [hquantum])
      exact ⟨j+1,by omega,hserved⟩
    by_cases hv : v = u
    · subst hv
      have hserves : (s.buckets v).serves = false := by simp [Bucket.serves,hnon v]
      have hadvance := hturn.advance (hserves ▸ hqueue)
      rw [hserves] at hadvance
      rcases hadvance with hserved | ⟨x,rest,rfl,hqueue'⟩
      · exact ⟨0,Nat.zero_le _,hserved⟩
      refine hnext _ _ hqueue' ?_
      have hdelay : delay want (s.turn prio want) v < 16*(s.quantum/want) := by
        rw [← hquantum]
        exact delay_lt hpos (by omega) v
      rw [length_cons,Nat.mul_add] at hn
      omega
    · have hsame' := hturn.queue u false
      rw [if_neg (fun hand => hv hand.1.symm),hqueue] at hsame'
      refine hnext _ _ hsame' ?_
      have hne : (s.buckets u).nonIncremental ≠ [] := by
        have : (s.buckets u).queue false ≠ [] := by simp [hqueue]
        exact this
      have hdelay := hturn.delay_lt hv hpos hle hmax hnon hne
      omega

/-! ### Starvation -/

def Sink (s : Scheduler) (v : Fin 8) : Prop :=
  (s.buckets v).incremental ≠ [] ∨
    s.quantum = 2 ^ 32 - 1 ∧ (s.buckets v).nonIncremental ≠ []

def Stuck (want : ℕ) (s : Scheduler) (u : Fin 8) : Prop :=
  s.Sink u ∧ ∀ v < u, ¬ (s.buckets v).Ready want s.quantum

theorem Sink.ready (h : s.Sink u) (want : ℕ) : (s.buckets u).Ready want s.quantum := by
  rcases h with hinc | ⟨hmax,hnon⟩
  · exact .inl hinc
  · exact .inr ⟨hnon,hmax ▸ min_le_right _ _⟩

theorem SameQueues.sink (h : SameQueues s s') (hsink : s.Sink u) : s'.Sink u := by
  have hne : ∀ i, (s.buckets u).queue i ≠ [] → (s'.buckets u).queue i ≠ [] := by
    intro i hne hnil
    have hperm := h.perm u i
    rw [hnil] at hperm
    exact hne (nil_perm.1 hperm)
  rcases hsink with hinc | ⟨hmax,hnon⟩
  · exact .inl (hne true hinc)
  · exact .inr ⟨h.quantum.trans hmax,hne false hnon⟩

theorem Stuck.turned (h : Stuck want s u) (hturn : Turned want s s' base u') :
    base = s ∧ u' = u := by
  have hready := h.1.ready want
  rcases hturn.start with rfl | ⟨-,hnone⟩
  · refine ⟨rfl,?_⟩
    rcases lt_trichotomy u' u with hlt | heq | hgt
    · exact absurd hturn.ready (h.2 u' hlt)
    · exact heq
    · exact absurd hready (hturn.first u hgt)
  · exact absurd hready (hnone u)

theorem Stuck.served_ne (h : Stuck want s u) (hkept : Kept prio s) (hle : want ≤ s.quantum)
    (hid : id ∉ (s.buckets u).queue (s.buckets u).serves) (k : ℕ) :
    served prio want s k ≠ some id := by
  have hqueued : ∃ x, s.has x := by
    obtain ⟨x,hx⟩ := exists_mem_of_ne_nil _ (Bucket.ready_serves (h.1.ready want))
    exact ⟨x,u,(Bucket.has_iff _ _).2 ⟨_,hx⟩⟩
  obtain ⟨x,hx⟩ := hqueued
  induction k generalizing s with
  | zero =>
    obtain ⟨base,v,hturn⟩ := exists_turned want hkept hle hx
    obtain ⟨rfl,rfl⟩ := h.turned hturn
    intro hserved
    exact hid (mem_of_head? (hturn.head.symm.trans hserved))
  | succ k ih =>
    obtain ⟨base,v,hturn⟩ := exists_turned want hkept hle hx
    obtain ⟨rfl,rfl⟩ := h.turned hturn
    have hsame := hturn.sameQueues
    have hserves : ((base.turn prio want).buckets v).serves = (base.buckets v).serves := by
      rw [hturn.buckets,Function.update_self]
      by_cases hinc : (base.buckets v).incremental = [] <;> simp [rotated,serves,hinc]
    refine ih ⟨hsame.sink h.1,fun w hw => ?_⟩ (hsame.kept hkept) (by rw [hturn.quantum]; exact hle)
      ?_ (hsame.has hx)
    · rw [hturn.quantum,hturn.buckets,Function.update_of_ne hw.ne]
      exact h.2 w hw
    · rw [hserves]
      exact fun hmem => hid ((hsame.perm v _).mem_iff.1 hmem)

theorem exists_stuck (n : ℕ) (hkept : Kept prio s) (hpos : 0 < want) (hle : want ≤ s.quantum)
    (hq : s.quantum < 2^32) (hsink : s.Sink u) (hfirst : ∀ v < u, ¬ s.Sink v)
    (hn : ∑ v ∈ Finset.Iio u, room want s v ≤ n) :
    ∃ k, Stuck want ((turn prio want)^[k] s) u := by
  induction n using Nat.strong_induction_on generalizing s with
  | _ n ih =>
    by_cases hidle : ∀ v < u, ¬ (s.buckets v).Ready want s.quantum
    · exact ⟨0,hsink,hidle⟩
    push Not at hidle
    obtain ⟨v,hv,hready⟩ := hidle
    have hqueued : ∃ x, s.has x := by
      obtain ⟨x,hx⟩ := exists_mem_of_ne_nil _ (Bucket.ready_serves hready)
      exact ⟨x,v,(Bucket.has_iff _ _).2 ⟨_,hx⟩⟩
    obtain ⟨x,hx⟩ := hqueued
    obtain ⟨base,v',hturn⟩ := exists_turned want hkept hle hx
    have hbase : base = s := hturn.start.resolve_right fun hfresh => hfresh.2 v hready
    have hlt : v' < u := by
      refine lt_of_le_of_lt (not_lt.1 fun hgt => ?_) hv
      exact hturn.first v hgt (hbase ▸ hready)
    subst hbase
    have hbefore := hfirst v' hlt
    simp only [Sink,not_or,not_and,not_not] at hbefore
    have hne := (hturn.ready.resolve_left (not_not.2 hbefore.1)).1
    have hmax : base.quantum < 2^32-1 := by
      have hnot : base.quantum ≠ 2^32-1 := fun heq => hne (hbefore.2 heq)
      omega
    have hself := hturn.room_self hpos hle hmax hbefore.1
    have hsum : ∑ w ∈ Finset.Iio u, room want (base.turn prio want) w <
        ∑ w ∈ Finset.Iio u, room want base w := by
      refine Finset.sum_lt_sum (fun w _ => ?_) ⟨v',Finset.mem_Iio.2 hlt,by omega⟩
      by_cases hw : w = v'
      · rw [hw]
        omega
      · exact (hturn.room_of_ne hw).le
    have hsame := hturn.sameQueues
    have hback : SameQueues (base.turn prio want) base :=
      ⟨fun w i => (hsame.perm w i).symm,hsame.quantum.symm⟩
    have hquantum := hturn.quantum
    obtain ⟨k,hk⟩ := ih _ (hsum.trans_le hn) (hsame.kept hkept) (by omega) (by omega)
      (hsame.sink hsink) (fun w hw hs => hfirst w hw (hback.sink hs)) le_rfl
    exact ⟨k+1,hk⟩

/-- Without a sink every stream has its turn, and with one nobody has but a single queue. -/
theorem exists_sink (hq : s.quantum < 2^32) (hone : ¬ s.OneQueue)
    (hround : ¬ (s.NonIncremental ∧ s.quantum < 2^32-1)) :
    ∃ u, s.Sink u ∧ ∀ v < u, ¬ s.Sink v := by
  have hsink : ∃ u, s.Sink u := by
    by_cases hnon : s.NonIncremental
    · have hmax : s.quantum = 2^32-1 := by
        have hnot : ¬ s.quantum < 2^32-1 := fun hlt => hround ⟨hnon,hlt⟩
        omega
      by_contra hno
      refine hone ⟨0,false,fun v j hne => absurd ?_ hne⟩
      cases j with
      | true => exact hnon v
      | false => exact not_not.1 fun hne' => hno ⟨v,.inr ⟨hmax,hne'⟩⟩
    · obtain ⟨u,hu⟩ := not_forall.1 hnon
      exact ⟨u,.inl hu⟩
  obtain ⟨u,hu,hmin⟩ := wellFounded_lt.has_min {u | s.Sink u} hsink
  exact ⟨u,hu,fun v hv hs => hmin v hs hv⟩

theorem served_add (prio : ℕ → Priority) (want : ℕ) (s : Scheduler) (k j : ℕ) :
    served prio want s (k+j) = served prio want ((turn prio want)^[k] s) j := by
  rw [served,served,← Function.iterate_add_apply,Nat.add_comm]

theorem served_soon (hkept : Kept prio s) (hpos : 0 < want) (hle : want ≤ s.quantum)
    (hwhen : s.OneQueue ∨ s.NonIncremental ∧ s.quantum < 2^32-1) {n : ℕ} (hid : s.has id)
    (hn : ∀ u i, ((s.buckets u).queue i).length ≤ n) :
    ∃ j < 16*(s.quantum/want)*n, served prio want s j = some id := by
  obtain ⟨u,hu⟩ := hid
  obtain ⟨i,hi⟩ := (has_iff _ _).1 hu
  obtain ⟨before,after,hqueue⟩ := append_of_mem hi
  have hlen : before.length+1 ≤ n := by
    have hle := hn u i
    rw [hqueue,length_append,length_cons] at hle
    omega
  have hone : 0 < s.quantum/want := Nat.div_pos hle hpos
  rcases hwhen with ⟨v,j,hsingle⟩ | ⟨hnon,hmax⟩
  · obtain ⟨rfl,rfl⟩ := hsingle u i (by simp [hqueue])
    obtain ⟨j,hj,hserved⟩ := served_oneQueue before after hkept hle hsingle hqueue
    exact ⟨j,by nlinarith,hserved⟩
  have hfalse : i = false := by
    cases i with
    | false => rfl
    | true => exact absurd (hnon u) (ne_nil_of_mem hi)
  subst hfalse
  obtain ⟨j,hj,hserved⟩ :=
    served_nonIncremental _ before after hkept hpos hle hmax hnon hqueue le_rfl
  have hdelay := delay_lt hpos hle u
  exact ⟨j,by nlinarith,hserved⟩

end Scheduler

/-- From every moment on, each stream is returned again within a bounded number of calls, if and
only if all streams are in one queue, or none is incremental and a bucket can use up its quantum
without the deficit saturating. -/
theorem anti_starvation_iff (prio : ℕ → Priority) (s : Scheduler) (want bound : ℕ)
    (hkept : s.Kept prio) (hpos : 0 < want) (hle : want ≤ s.quantum) (hq : s.quantum < 2 ^ 32)
    (hbound : 16 * (s.quantum / want) * s.queued ≤ bound) :
    (∀ k id, s.has id → ∃ j < bound, Scheduler.served prio want s (k + j) = some id) ↔
      s.OneQueue ∨ s.NonIncremental ∧ s.quantum < 2 ^ 32 - 1 := by
  constructor
  · intro hfair
    by_contra hnot
    obtain ⟨hone,hround⟩ := not_or.1 hnot
    obtain ⟨u,hsink,hfirst⟩ := exists_sink hq hone hround
    obtain ⟨k,hstuck⟩ := exists_stuck _ hkept hpos hle hq hsink hfirst le_rfl
    set t := (Scheduler.turn prio want)^[k] s with ht
    -- another queue has a stream, and it is not in the one that is served
    have hother : ∃ v j id, id ∈ (s.buckets v).queue j ∧
        ¬ (v = u ∧ j = (t.buckets u).serves) := by
      by_contra hall
      push Not at hall
      refine hone ⟨u,(t.buckets u).serves,fun v j hne => ?_⟩
      obtain ⟨id,hid⟩ := exists_mem_of_ne_nil _ hne
      exact hall v j id hid
    obtain ⟨v,j,id,hid,hne⟩ := hother
    have hhas : s.has id := ⟨v,(has_iff _ _).2 ⟨j,hid⟩⟩
    have hsame := sameQueues_iterate hkept hle hhas k
    obtain ⟨n,-,hserved⟩ := hfair k id hhas
    rw [served_add] at hserved
    refine hstuck.served_ne (hsame.kept hkept) (hsame.quantum ▸ hle) (fun hmem => hne ?_) n hserved
    have hprio := hkept u _ id ((hsame.perm u _).mem_iff.1 hmem)
    rw [hkept v j id hid] at hprio
    exact ⟨congrArg Priority.urgency hprio,congrArg Priority.incremental hprio⟩
  · intro hwhen k id hid
    have hsame := sameQueues_iterate hkept hle hid k
    have hwhen' : ((Scheduler.turn prio want)^[k] s).OneQueue ∨
        ((Scheduler.turn prio want)^[k] s).NonIncremental ∧
          ((Scheduler.turn prio want)^[k] s).quantum < 2^32-1 := by
      rw [hsame.quantum]
      rcases hwhen with ⟨u,i,hone⟩ | ⟨hnon,hmax⟩
      · exact .inl ⟨u,i,hsame.oneQueue hone⟩
      · exact .inr ⟨hsame.nonIncremental hnon,hmax⟩
    obtain ⟨j,hj,hserved⟩ := served_soon (hsame.kept hkept) hpos
      (hsame.quantum ▸ hle) hwhen' (hsame.has hid) fun u i => by
        rw [(hsame.perm u i).length_eq]
        exact length_queue_le s u i
    rw [hsame.quantum] at hj
    exact ⟨j,hj.trans_le hbound,by rw [served_add]; exact hserved⟩

/-- A quantum of four octets, one stream of each of two urgencies, and one octet a call. -/
theorem anti_starvation_two :
    let s := (Scheduler.new 4).add 1 ⟨0, false⟩ |>.add 3 ⟨7, false⟩
    s.has 1 ∧ s.has 3 ∧ ∀ k id, s.has id → ∃ j < 128,
      Scheduler.served (fun id => if id = 1 then ⟨0, false⟩ else ⟨7, false⟩) 1 s (k + j) =
        some id := by
  intro s
  have hkept : ∀ u i, ∀ id ∈ (s.buckets u).queue i,
      (if id = 1 then ⟨0,false⟩ else ⟨7,false⟩ : Priority) = ⟨u,i⟩ := by decide
  have hnon : ∀ u, (s.buckets u).incremental = [] := by decide
  exact ⟨by decide,by decide,(anti_starvation_iff _ s 1 128 (fun u i id hid => hkept u i id hid)
    (by decide) (by decide) (by decide) (by decide)).2 (.inr ⟨hnon,by decide⟩)⟩

/-- Stream 3 is incremental. It is returned by every call, and stream 1 of the same urgency by
none. -/
theorem incremental_starves :
    let s := (Scheduler.new 16384).add 1 ⟨3, false⟩ |>.add 3 ⟨3, true⟩
    s.has 1 ∧ ∀ k, Scheduler.served (fun id => ⟨3, id = 3⟩) 16384 s k ≠ some 1 := by
  intro s
  have hkept : ∀ u i, ∀ id ∈ (s.buckets u).queue i, (⟨3,id = 3⟩ : Priority) = ⟨u,i⟩ := by decide
  have hstuck : Scheduler.Stuck 16384 s 3 := ⟨.inl (by decide),by decide⟩
  exact ⟨by decide,
    hstuck.served_ne (fun u i id hid => hkept u i id hid) (by decide) (by decide)⟩

end Courierust.H2
