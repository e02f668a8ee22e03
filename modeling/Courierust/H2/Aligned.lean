import Courierust.H2.Fairness
import Courierust.H2.Ids

/-!
# The scheduler of a connection

The queues of the scheduler, the set of scheduled ids and the priorities of the streams say
the same as long as a round of the scheduler takes a stream that is incremental and sends all
it has, and a priority is rewritten only where the scheduler is told.
-/

namespace Courierust.H2

open List

namespace Scheduler

/-- The queues hold the streams of `ids`, each once and by its priority, and they are counted. -/
structure Aligned (s : Scheduler) (ids : Finset ℕ) (priority : ℕ → Option Priority) : Prop where
  nodup : ∀ u i, ((s.buckets u).queue i).Nodup
  mem : ∀ u i id, id ∈ (s.buckets u).queue i ↔ id ∈ ids ∧ priority id = some ⟨u, i⟩
  known : ∀ id ∈ ids, ∃ p, priority id = some p
  len : s.len = s.queued

variable {s : Scheduler} {ids : Finset ℕ} {priority : ℕ → Option Priority} {id : ℕ}

theorem queue_setBucket (s : Scheduler) (u : Fin 8) (b : Bucket) (v : Fin 8) (i : Bool) :
    ((s.setBucket u b).buckets v).queue i =
      if v = u then b.queue i else (s.buckets v).queue i := by
  simp only [setBucket,Function.update_apply]
  split_ifs <;> rfl

theorem queued_setBucket (s : Scheduler) (u : Fin 8) (b : Bucket) :
    (s.setBucket u b).queued+(((s.buckets u).queue true).length +
        ((s.buckets u).queue false).length) =
      s.queued+((b.queue true).length+(b.queue false).length) := by
  simp only [queued,setBucket,Bucket.queue,if_true,Bool.false_eq_true,if_false]
  rw [← Finset.add_sum_erase _ _ (Finset.mem_univ u),
    ← Finset.add_sum_erase (Finset.univ : Finset (Fin 8)) (fun v =>
      (s.buckets v).incremental.length+(s.buckets v).nonIncremental.length) (Finset.mem_univ u)]
  have hrest : ∑ v ∈ Finset.univ.erase u, ((Function.update s.buckets u b v).incremental.length +
      (Function.update s.buckets u b v).nonIncremental.length) = ∑ v ∈ Finset.univ.erase u,
        ((s.buckets v).incremental.length+(s.buckets v).nonIncremental.length) :=
    Finset.sum_congr rfl fun v hv => by
      rw [Function.update_of_ne (Finset.ne_of_mem_erase hv)]
  rw [hrest,Function.update_self]
  omega

namespace Aligned

section

variable (h : s.Aligned ids priority)
include h

theorem congr {priority' : ℕ → Option Priority}
    (hsame : ∀ id ∈ ids, priority' id = priority id) : s.Aligned ids priority' where
  nodup := h.nodup
  mem u i id := (h.mem u i id).trans (and_congr_right fun hid => by rw [hsame id hid])
  known id hid := by rw [hsame id hid]; exact h.known id hid
  len := h.len

theorem add (hid : id ∉ ids) {p : Priority}
    (hp : priority id = some p) : (s.add id p).Aligned (insert id ids) priority := by
  have hqueue : ∀ u i, ((s.add id p).buckets u).queue i =
      if u = p.urgency ∧ i = p.incremental then (s.buckets u).queue i ++ [id]
      else (s.buckets u).queue i := by
    intro u i
    rw [Scheduler.add,queue_setBucket]
    by_cases hu : u = p.urgency
    · cases i <;> cases hi : p.incremental <;> simp [hu,Bucket.push,Bucket.queue]
    · simp [hu]
  refine ⟨fun u i => ?_,fun u i x => ?_,fun x hx => ?_,?_⟩
  · rw [hqueue]
    split_ifs
    · refine nodup_append.2 ⟨h.nodup u i,nodup_singleton id,fun x hx y hy => ?_⟩
      rintro rfl
      exact hid (mem_singleton.1 hy ▸ ((h.mem u i x).1 hx).1)
    · exact h.nodup u i
  · have hat : priority id = some ⟨u,i⟩ ↔ u = p.urgency ∧ i = p.incremental := by
      rw [hp,Option.some.injEq,Priority.mk.injEq,eq_comm,@eq_comm _ i]
    rw [hqueue,Finset.mem_insert]
    by_cases hx : x = id
    · rw [hx,hat]
      have hnot : id ∉ (s.buckets u).queue i := fun hmem => hid ((h.mem u i id).1 hmem).1
      split_ifs with hplace <;> simp [hplace,hnot]
    · have hmem := h.mem u i x
      split_ifs <;> simp [hx,hmem]
  · rcases Finset.mem_insert.1 hx with rfl | hx
    · exact ⟨p,hp⟩
    · exact h.known x hx
  · have hcount : _+(((s.buckets p.urgency).queue true).length +
        ((s.buckets p.urgency).queue false).length) = s.queued+_ :=
      queued_setBucket { s with count := s.count+1 } p.urgency
        ((s.buckets p.urgency).push id p.incremental)
    have hlen : s.count = s.queued := h.len
    change s.count+1 = (setBucket { s with count := s.count+1 } _ _).queued
    cases hi : p.incremental <;> simp [Bucket.push,Bucket.queue,hi] at hcount ⊢ <;> omega

theorem remove (id : ℕ) :
    (s.remove id).Aligned (ids.erase id) priority := by
  suffices hremove : (∀ u i, ((s.remove id).buckets u).queue i = ((s.buckets u).queue i).erase id) ∧
      (s.remove id).len = (s.remove id).queued by
    refine ⟨fun u i => ?_,fun u i x => ?_,fun x hx => ?_,hremove.2⟩
    · rw [hremove.1]
      exact (h.nodup u i).erase id
    · rw [hremove.1,(h.nodup u i).mem_erase_iff,h.mem,Finset.mem_erase,and_assoc]
    · exact h.known x (Finset.mem_of_mem_erase hx)
  rw [Scheduler.remove]
  cases hfind : (List.finRange 8).find? fun u => (s.buckets u).has id with
  | none =>
    refine ⟨fun u i => (erase_of_not_mem fun hmem => ?_).symm,h.len⟩
    exact find?_eq_none.1 hfind u (mem_finRange u)
      (by simpa using (Bucket.has_iff _ _).2 ⟨i,hmem⟩)
  | some v =>
    obtain ⟨j,hj⟩ := (Bucket.has_iff _ _).1 (by simpa using find?_some hfind)
    have hplace := ((h.mem v j id).1 hj).2
    have hother : ∀ u i, ¬ (u = v ∧ i = j) → id ∉ (s.buckets u).queue i := by
      intro u i hne hmem
      have heq := ((h.mem u i id).1 hmem).2
      rw [hplace,Option.some.injEq,Priority.mk.injEq] at heq
      exact hne ⟨heq.1.symm,heq.2.symm⟩
    have hdrop : ∀ i, ((s.buckets v).drop id).queue i = ((s.buckets v).queue i).erase id := by
      intro i
      cases j <;> cases i <;> simp_all [Bucket.drop,Bucket.queue,erase_of_not_mem]
    refine ⟨fun u i => ?_,?_⟩
    · rw [queue_setBucket]
      split_ifs with hu
      · rw [hu,hdrop]
      · exact (erase_of_not_mem (hother u i fun heq => hu heq.1)).symm
    · have hcount : _+(((s.buckets v).queue true).length+((s.buckets v).queue false).length) =
          s.queued+_ :=
        queued_setBucket { s with count := s.count-1 } v ((s.buckets v).drop id)
      have hlen : s.count = s.queued := h.len
      have hpos := length_pos_of_mem hj
      change s.count-1 = (setBucket { s with count := s.count-1 } v _).queued
      rw [hdrop,hdrop] at hcount
      cases j with
      | true =>
        rw [length_erase_of_mem hj,erase_of_not_mem (hother v false (by simp))] at hcount
        omega
      | false =>
        rw [length_erase_of_mem hj,erase_of_not_mem (hother v true (by simp))] at hcount
        omega

/-- Picking an incremental stream turns one queue and does nothing else. -/
theorem next {want : ℕ}
    (hinc : ∀ id, (s.next want).1 = some id → ∀ p, priority id = some p → p.incremental = true) :
    (s.next want).2.Aligned ids priority := by
  have hreset : s.fresh.Aligned ids priority := ⟨h.nodup,h.mem,h.known,h.len⟩
  rcases s.next_cases want with ⟨base,u,hbase,hfirst,hu⟩ | ⟨hnone,hfresh⟩
  · have hstart : base.Aligned ids priority := by
      rcases hbase with rfl | ⟨rfl,-⟩
      exacts [h,hreset]
    obtain ⟨id,rest,⟨hqueue,hserve⟩ | ⟨-,hqueue,hserve⟩⟩ := Bucket.serve_of_ready hu <;>
      rw [next_of_ready hbase hfirst hserve] at hinc ⊢
    · have hperm : ∀ v i, (((base.setBucket u { base.buckets u with
          incremental := rest ++ [id] }).buckets v).queue i).Perm ((base.buckets v).queue i) := by
        intro v i
        rw [queue_setBucket]
        split_ifs with hv
        · cases i
          · rw [hv]
            rfl
          · rw [hv]
            simp [Bucket.queue,hqueue]
        · exact .refl _
      refine ⟨fun v i => (hperm v i).nodup_iff.2 (hstart.nodup v i),fun v i x => ?_,h.known,?_⟩
      · rw [(hperm v i).mem_iff,hstart.mem]
      · have hcount := queued_setBucket base u { base.buckets u with incremental := rest ++ [id] }
        have hlen : base.count = base.queued := hstart.len
        change base.count = (base.setBucket u _).queued
        simp [Bucket.queue,hqueue] at hcount
        omega
    · have hmem := (hstart.mem u false id).1 (by simp [Bucket.queue,hqueue])
      exact absurd (hinc id rfl _ hmem.2) Bool.false_ne_true
  · rcases next_of_not_ready hnone hfresh with hidle | hidle <;> rw [hidle]
    exacts [h,hreset]

end

end Aligned

end Scheduler

def Plan.priorityOf (p : Plan) (id : ℕ) : Option Priority :=
  (p.streams.get id).map (·.priority)

/-- A client remembers no priorities: only a server's peer may send them. -/
structure Plan.Aligned (p : Plan) : Prop where
  scheduler : p.scheduler.Aligned p.scheduled p.priorityOf
  client : p.config.client = true → p.pendingPriority = ∅

def Conn.Drains (c : Conn) (id : ℕ) : Prop :=
  ∀ s ∈ c.streams.get id, s.priority.incremental = true ∧
    (c.sendable s = 0 ∨ (c.queue id).length ≤ 1 ∧
      ∀ chunk ∈ c.queue id, chunk.data.length ≤ c.sendable s)

instance (c : Conn) (id : ℕ) : Decidable (c.Drains id) :=
  inferInstanceAs (Decidable (∀ s ∈ c.streams.get id, _))

/-- A client rewrites the priority of a stream only while it is not scheduled, the peer of a
    server only while it is, and every round drains the incremental stream it takes. -/
def Rules.aligned : Rules where
  rewrite p id priority := ∀ s, p.streams.get id = some s → s.priority ≠ priority →
    id ∉ p.scheduled
  update p id priority := ∀ s, p.streams.get id = some s → s.priority ≠ priority →
    id ∈ p.scheduled
  round c := ∀ id ∈ (c.scheduler.next c.peer.maxFrameSize).1, c.Drains id

instance (c : Conn) : Decidable (Rules.aligned.round c) :=
  inferInstanceAs (Decidable (∀ id ∈ (c.scheduler.next c.peer.maxFrameSize).1, _))

namespace Conn

variable {c c' c₁ : Conn}

theorem priorityOf_updateStream (c : Conn) (id : ℕ) (f : Stream → Stream) (x : ℕ) :
    (c.updateStream id f).plan.priorityOf x =
      if x = id then (c.streams.get id).map fun s => (f s).priority else c.plan.priorityOf x := by
  simp only [Plan.priorityOf,plan,updateStream,StreamMap.get_update]
  split_ifs <;> simp [Function.comp_def]

theorem mem_scheduled (h : c.plan.Aligned) {id : ℕ} (hid : id ∈ c.scheduled) :
    ∃ s, c.streams.get id = some s := by
  obtain ⟨p,hp⟩ := h.scheduler.known id hid
  obtain ⟨s,hs,-⟩ := Option.map_eq_some_iff.1 hp
  exact ⟨s,hs⟩

theorem aligned_alike (halike : Alike c c₁) (h : c.plan.Aligned) : c₁.plan.Aligned := by
  obtain ⟨pendingPriority,streams,rfl,hget,-,-,hpending⟩ := halike
  refine ⟨h.scheduler.congr fun x _ => ?_,fun hclient => hpending (h.client hclient)⟩
  simp only [Plan.priorityOf,plan,hget]

section

variable (h : c.plan.Aligned)
include h

theorem aligned_insert {m : StreamMap}
    (hm : ∀ id, m.get id = c.streams.get id) {s : Stream} (habsent : c.streams.get s.id = none) :
    { c with streams := m.insert s }.plan.Aligned := by
  refine ⟨h.scheduler.congr fun x hx => ?_,h.client⟩
  obtain ⟨s',hs'⟩ := mem_scheduled h hx
  have hne : x ≠ s.id := by
    rintro rfl
    rw [habsent] at hs'
    cases hs'
  simp only [Plan.priorityOf,plan,StreamMap.get_insert,if_neg hne,hm]

theorem aligned_serve {id : ℕ} (hdrains : c.Drains id) :
    (c.serve id).plan.Aligned := by
  suffices hserve : (c.serve id).scheduler = c.scheduler.remove id ∧
      (c.serve id).scheduled = c.scheduled.erase id ∧ (c.serve id).config = c.config ∧
      (c.pendingPriority = ∅ → (c.serve id).pendingPriority = ∅) ∧
      ∀ x ≠ id, (c.serve id).streams.get x = c.streams.get x by
    obtain ⟨hscheduler,hscheduled,hconfig,hpending,hget⟩ := hserve
    refine ⟨?_,fun hclient => hpending (h.client ?_)⟩
    swap
    · exact (congrArg Config.client hconfig).symm.trans hclient
    change (c.serve id).scheduler.Aligned (c.serve id).scheduled _
    rw [hscheduler,hscheduled]
    refine (h.scheduler.remove id).congr fun x hx => ?_
    simp only [Plan.priorityOf,plan,hget x (Finset.ne_of_mem_erase hx)]
  rcases c.serve_cases id with ⟨heq,-⟩ | ⟨s,chunk,rest,hs,hpos,hqueue,heq⟩
  · rw [heq]
    exact ⟨rfl,rfl,rfl,fun hnone => hnone,fun _ _ => rfl⟩
  obtain ⟨hlen,hfits⟩ := (hdrains s hs).2.resolve_left hpos.ne'
  rw [hqueue] at hlen hfits
  have hrest : rest = [] := length_eq_zero_iff.1 (by simpa using hlen)
  have htake : (take (c.sendable s) chunk rest).queue = [] := by
    rw [take,if_pos (hfits chunk mem_cons_self),hrest]
  generalize take (c.sendable s) chunk rest = t at heq htake
  have hgetEmit := get_emit { c with scheduled := c.scheduled.erase id } id t
  have hqueueEmit := queue_emit { c with scheduled := c.scheduled.erase id } id t id
  obtain ⟨fs,encoder,encoded,-,hemit⟩ :=
    emit_shape { c with scheduled := c.scheduled.erase id } id t
  rw [if_pos rfl,htake] at hqueueEmit
  have hscheduled : ({ c with scheduled := c.scheduled.erase id }.emit id t).scheduled.erase id =
      c.scheduled.erase id := by
    rw [hemit]
    exact Finset.erase_idem
  rw [heq]
  generalize hc₁ : { c with scheduled := c.scheduled.erase id }.emit id t = c₁
    at hgetEmit hqueueEmit hscheduled
  have hscheduler : c₁.scheduler = c.scheduler := by rw [← hc₁,hemit]; rfl
  have hconfig : c₁.config = c.config := by rw [← hc₁,hemit]; rfl
  have hpending : c₁.pendingPriority = c.pendingPriority := by rw [← hc₁,hemit]; rfl
  rcases settle_cases c₁ id s t.endStream with ⟨-,-,hsettle⟩ | ⟨f,hsettle,-⟩
  · obtain ⟨window,pending,fs,-,hclose⟩ :=
      closeStream_shape (c₁.pushEvent (.streamClosed id)) id
    rw [hsettle,hclose,← hscheduler,← hscheduled,← hconfig,← hpending]
    refine ⟨rfl,rfl,rfl,fun hnone => ?_,fun x hx => ?_⟩
    · change c₁.pendingPriority.erase id = ∅
      simp [hnone]
    · change (c₁.streams.remove id).get x = _
      rw [StreamMap.get_remove,if_neg hx,hgetEmit,if_neg hx]
  · have hunschedule : (c₁.updateStream id f).reschedule id =
        (c₁.updateStream id f).unschedule id := by
      have hnil : (c₁.updateStream id f).queue id = [] := hqueueEmit
      unfold reschedule
      split
      · rfl
      · rw [if_neg (by simp [hnil]),if_pos hnil]
    rw [hsettle,hunschedule,← hscheduler,← hscheduled,← hconfig,← hpending]
    refine ⟨rfl,rfl,rfl,fun hnone => hnone,fun x hx => ?_⟩
    change (c₁.streams.update id f).get x = _
    rw [StreamMap.get_update,if_neg hx,hgetEmit,if_neg hx]

theorem aligned_round (hdrains : Rules.aligned.round c) : (emitLoop 1 c).plan.Aligned := by
  have hnext := h.scheduler.next fun id hid p hp => by
    obtain ⟨s,hs,rfl⟩ := Option.map_eq_some_iff.1 hp
    exact (hdrains id hid s hs).1
  simp only [emitLoop]
  change (c.scheduler.next _).2.Aligned _ _ at hnext
  rcases hpicked : c.scheduler.next c.peer.maxFrameSize with ⟨picked,scheduler⟩
  rw [hpicked] at hnext
  have hturned : { c with scheduler := scheduler }.plan.Aligned := ⟨hnext,h.client⟩
  cases picked with
  | none => exact hturned
  | some id => exact aligned_serve hturned (hdrains id (by rw [hpicked]; rfl))

theorem aligned_setPriority (hserver : c.config.client = false) {id : ℕ}
    {priority : Priority} (hrule : Rules.aligned.update c.plan id priority) :
    (c.setPriority id priority).plan.Aligned := by
  have hclient : c.config.client = true → False := by simp [hserver]
  unfold setPriority
  cases hs : c.streams.get id with
  | none =>
    split_ifs <;> exact ⟨h.scheduler,fun hc => (hclient hc).elim⟩
  | some s =>
    refine ⟨?_,fun hc => (hclient hc).elim⟩
    have hsame : ∀ x ≠ id, (c.updateStream id fun s => { s with priority := priority
        }).plan.priorityOf x = c.plan.priorityOf x := by
      intro x hx
      rw [priorityOf_updateStream,if_neg hx]
    have hnew : (c.updateStream id fun s => { s with priority := priority }).plan.priorityOf id =
        some priority := by
      rw [priorityOf_updateStream,if_pos rfl,hs]
      rfl
    change (c.scheduler.update id s.priority priority).Aligned c.scheduled
      (c.updateStream id fun s => { s with priority := priority }).plan.priorityOf
    by_cases heq : s.priority = priority
    · rw [Scheduler.update,if_pos heq]
      refine h.scheduler.congr fun x _ => ?_
      by_cases hx : x = id
      · rw [hx,hnew,← heq]
        simp [Plan.priorityOf,plan,hs]
      · exact hsame x hx
    · have hin : id ∈ c.scheduled := hrule s hs heq
      rw [Scheduler.update,if_neg heq,← Finset.insert_erase hin]
      refine ((h.scheduler.remove id).congr fun x hx => ?_).add (Finset.notMem_erase id _) hnew
      exact hsame x (Finset.ne_of_mem_erase hx)

theorem aligned_move (hmove : Move .aligned c c') : c'.plan.Aligned := by
  cases hmove with
  | quiet hplan => rwa [hplan]
  | write id hf =>
    refine ⟨h.scheduler.congr fun x _ => ?_,h.client⟩
    rw [priorityOf_updateStream]
    split_ifs with hx
    · simp [hx,hf,Plan.priorityOf,plan]
    · rfl
  | @respond c₁ halike hclient id s hs f hf =>
    have h₁ := aligned_alike halike h
    obtain ⟨pendingPriority,streams,rfl,hget,-⟩ := halike
    refine ⟨h₁.scheduler.congr fun x _ => ?_,h₁.client⟩
    rw [priorityOf_updateStream]
    split_ifs with hx
    · have hnone : c.pendingPriority = ∅ := h.client hclient
      simp [hx,hf,hnone,Plan.priorityOf,plan,hget,hs]
    · rfl
  | rewrite id priority hrule =>
    refine ⟨h.scheduler.congr fun x hx => ?_,h.client⟩
    rw [priorityOf_updateStream]
    split_ifs with heq
    · obtain ⟨s,hs⟩ := mem_scheduled h (heq ▸ hx)
      have hsame : s.priority = priority := by
        by_contra hne
        exact hrule s hs hne (heq ▸ hx)
      simp [heq,hs,hsame,Plan.priorityOf,plan]
    · rfl
  | setPriority hserver id priority hrule => exact aligned_setPriority h hserver hrule
  | forget id =>
    refine ⟨(h.scheduler.remove id).congr fun x hx => ?_,fun hclient => ?_⟩
    · simp only [Plan.priorityOf,plan,forget,unschedule,StreamMap.get_remove,
        if_neg (Finset.ne_of_mem_erase hx)]
    · have hnone : c.pendingPriority = ∅ := h.client hclient
      simp [plan,forget,hnone]
  | alike halike => exact aligned_alike halike h
  | @enroll c₁ halike s hfresh =>
    have h₁ := aligned_alike halike h
    obtain ⟨pendingPriority,streams,rfl,hget,-⟩ := halike
    have hinsert := aligned_insert h₁ (fun _ => rfl) (by rw [hget]; exact hfresh.absent)
    refine ⟨hinsert.scheduler,fun hclient => ?_⟩
    have hserver : c.config.client = false := hfresh.server
    exact absurd hclient (by simp [plan,enroll,hserver])
  | schedule id =>
    unfold maybeSchedule
    split_ifs with hin hempty
    · exact h
    · exact h
    split
    · next s hs =>
      split_ifs
      · exact ⟨h.scheduler.add hin (by simp [Plan.priorityOf,plan,hs]),h.client⟩
      · exact h
    · exact h
  | round hround => exact aligned_round h hround

end

theorem aligned_step (hids : c.ClientIds) (h : c.plan.Aligned) {op : Op}
    (hop : Rules.aligned.Admits c op) : (c.step op).plan.Aligned := by
  by_cases hopen : ∃ priority, op = .openRequest priority
  · obtain ⟨priority,rfl⟩ := hopen
    change (c.openRequest priority).2.plan.Aligned
    rcases c.openRequest_cases priority with heq | ⟨hclient,-,heq⟩
    · rwa [heq]
    · rw [heq]
      refine aligned_insert h (fun _ => by rfl) (Option.not_isSome_iff_eq_none.1 fun hsome => ?_)
      exact absurd (hids hclient _ hsome) (lt_irrefl _)
  · have hmoves := moves_step (fun priority heq => hopen ⟨priority,heq⟩) hop
    generalize c.step op = c' at hmoves ⊢
    induction hmoves with
    | refl => exact h
    | tail _ hmove ih => exact aligned_move ih hmove

end Conn

/-- The scheduler, the set of scheduled ids and the streams of a connection agree. -/
structure Conn.SchedulerSound (c : Conn) : Prop where
  nodup : ∀ u i, ((c.scheduler.buckets u).queue i).Nodup
  once : ∀ u v i j id, id ∈ (c.scheduler.buckets u).queue i →
    id ∈ (c.scheduler.buckets v).queue j → u = v ∧ i = j
  scheduled : ∀ id, c.scheduler.has id ↔ id ∈ c.scheduled
  place : ∀ u i, ∀ id ∈ (c.scheduler.buckets u).queue i,
    ∃ s, c.streams.get id = some s ∧ s.priority = ⟨u, i⟩
  len : c.scheduler.len = c.scheduler.queued

theorem Conn.schedulerSound_of_aligned {c : Conn} (h : c.plan.Aligned) : c.SchedulerSound := by
  have hmem := h.scheduler.mem
  refine ⟨h.scheduler.nodup,fun u v i j id hu hv => ?_,fun id => ⟨?_,fun hid => ?_⟩,
    fun u i id hid => Option.map_eq_some_iff.1 ((hmem u i id).1 hid).2,h.scheduler.len⟩
  · have heq := ((hmem u i id).1 hu).2.symm.trans ((hmem v j id).1 hv).2
    rwa [Option.some.injEq,Priority.mk.injEq] at heq
  · rintro ⟨u,hu⟩
    obtain ⟨i,hi⟩ := (Bucket.has_iff _ _).1 hu
    exact ((hmem u i id).1 hi).1
  · obtain ⟨p,hp⟩ := h.scheduler.known id hid
    exact ⟨p.urgency,(Bucket.has_iff _ _).2 ⟨p.incremental,(hmem _ _ id).2 ⟨hid,hp⟩⟩⟩

/-- In every run that keeps to the rules, the scheduler agrees with the connection. -/
theorem scheduler_sound (config : Config) (upgrade : Bool) (ops : List Op)
    (hops : Run.Along Conn.step Rules.aligned.Admits (Conn.start config upgrade) ops) :
    (Run.run Conn.step (Conn.start config upgrade) ops).SchedulerSound := by
  have hstart : (Conn.start config upgrade).plan.Aligned := by
    have hnew : (Conn.new config).plan.Aligned := by
      refine ⟨⟨fun u i => ?_,fun u i id => ?_,fun id hid => ?_,?_⟩,fun _ => rfl⟩
      · cases i <;> exact nodup_nil
      · cases i <;> simp [Conn.new,Conn.plan,Scheduler.new,Bucket.queue]
      · exact absurd hid (Finset.notMem_empty id)
      · simp [Conn.new,Conn.plan,Scheduler.new,Scheduler.len,Scheduler.queued]
    cases upgrade with
    | false => exact hnew
    | true =>
      exact ⟨hnew.scheduler.congr fun id hid => absurd hid (Finset.notMem_empty id),fun _ => rfl⟩
  have hstep : ∀ (c : Conn) op, c.ClientIds ∧ c.plan.Aligned → Rules.aligned.Admits c op →
      (c.step op).ClientIds ∧ (c.step op).plan.Aligned :=
    fun c op h hop => ⟨h.1.step op,Conn.aligned_step h.1 h.2 hop⟩
  exact Conn.schedulerSound_of_aligned
    (Run.invariant hstep ⟨Conn.clientIds_start _ _,hstart⟩ hops).2

def oneRound (incremental : Bool) : List Op :=
  [.openRequest { incremental := incremental }, .sendHeaders 1 [] false, .sendData 1 [0] true]

theorem oneRound_runs : ∀ k < 64, Rules.aligned.round (Conn.emitLoop k
    { (Run.run Conn.step (.start {} false) (oneRound true)).queueSettings with
      settingsSent := true }) := by
  decide

theorem scheduler_sound_incremental :
    (Run.run Conn.step (.start {} false) (oneRound true ++ [.flush])).SchedulerSound := by
  refine scheduler_sound {} false _ ⟨trivial,trivial,trivial,fun _ _ k hk => ?_,trivial⟩
  change Rules.aligned.round (Conn.emitLoop k (if (Run.run Conn.step (.start {} false)
    (oneRound true)).settingsSent then _ else _))
  exact oneRound_runs k hk

/-- The scheduler counts a stream that left its queue to be served: the default priority is not
    incremental. -/
theorem scheduler_counts_served_stream :
    ¬ (Run.run Conn.step (.start {} false) (oneRound false ++ [.flush])).SchedulerSound := by
  intro h
  have hlen := h.len
  cases hlen

end Courierust.H2
