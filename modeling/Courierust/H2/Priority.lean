import Courierust.Http.Text

/-!
# Priorities and the scheduler

Model of `courierust_h2::priority` (RFC 9218): eight urgency buckets, each a deficit
round robin class with a queue of incremental and one of non-incremental streams. The
counter that only reports (`rounds`) is left out.
-/

namespace Courierust.H2

open Http (ascii parseUnsigned)

/-- The urgency of `Priority::default`. -/
def defaultUrgency : Fin 8 := 3

structure Priority where
  urgency : Fin 8 := defaultUrgency
  incremental : Bool := false
  deriving DecidableEq

namespace Priority

def parseToken (p : Priority) (tok : List UInt8) : Option Priority :=
  if tok = ascii "i" then some { p with incremental := true }
  else
    match tok.span (· != 0x3d) with
    | (key, _ :: value) =>
      if key = ascii "u" then
        (parseUnsigned 255 value).map fun u =>
          if h : u < 8 then { p with urgency := ⟨u, h⟩ } else p
      else some p
    | (_, []) => some p

/-- `parse`: parameters between commas, spaces and tabs. -/
def parse (s : List UInt8) : Option Priority :=
  ((s.splitOnP fun c => c == 0x20 || c == 0x2c || c == 0x09).filter (!·.isEmpty)).foldlM parseToken {}

/-- `Display` for a priority, as a PRIORITY_UPDATE carries it. -/
def text (p : Priority) : List UInt8 :=
  ascii "u=" ++ [UInt8.ofNat (48 + p.urgency)] ++ if p.incremental then ascii ", i" else []

end Priority

structure Bucket where
  nonIncremental : List ℕ := []
  incremental : List ℕ := []
  deficit : ℕ := 0
  deriving DecidableEq

/-- The scheduler: a bucket per urgency, with one quantum for all, and the number of streams it
    takes to be queued. -/
structure Scheduler where
  buckets : Fin 8 → Bucket
  quantum : ℕ
  count : ℕ := 0
  deriving DecidableEq

namespace Bucket

def has (b : Bucket) (id : ℕ) : Prop := id ∈ b.nonIncremental ∨ id ∈ b.incremental

instance (b : Bucket) (id : ℕ) : Decidable (b.has id) := inferInstanceAs (Decidable (_ ∨ _))

def push (b : Bucket) (id : ℕ) (incremental : Bool) : Bucket :=
  if incremental then { b with incremental := b.incremental ++ [id] }
  else { b with nonIncremental := b.nonIncremental ++ [id] }

def drop (b : Bucket) (id : ℕ) : Bucket :=
  if id ∈ b.nonIncremental then { b with nonIncremental := b.nonIncremental.erase id }
  else { b with incremental := b.incremental.erase id }

/-- The deficit once `want as u32` is added, saturating. -/
def charged (b : Bucket) (want : ℕ) : ℕ := min (b.deficit + want % 2 ^ 32) (2 ^ 32 - 1)

/-- The stream a bucket serves, if it can serve `want` octets: an incremental one goes
    to the back of its queue, a non-incremental one leaves. -/
def serve (b : Bucket) (want quantum : ℕ) : Option (ℕ × Bucket) :=
  match b.incremental with
  | id :: rest => some (id, { b with incremental := rest ++ [id] })
  | [] =>
    match b.nonIncremental with
    | id :: rest =>
      if b.charged want ≤ quantum then
        some (id, { b with nonIncremental := rest, deficit := b.charged want })
      else none
    | [] => none

end Bucket

namespace Scheduler

def new (quantum : ℕ) : Scheduler := { buckets := fun _ => {}, quantum := max quantum 1 }

def has (s : Scheduler) (id : ℕ) : Prop := ∃ u, (s.buckets u).has id

instance (s : Scheduler) (id : ℕ) : Decidable (s.has id) :=
  inferInstanceAs (Decidable (∃ u, (s.buckets u).has id))

def setBucket (s : Scheduler) (u : Fin 8) (b : Bucket) : Scheduler :=
  { s with buckets := Function.update s.buckets u b }

def add (s : Scheduler) (id : ℕ) (p : Priority) : Scheduler :=
  { s with count := s.count + 1 }.setBucket p.urgency
    ((s.buckets p.urgency).push id p.incremental)

/-- `remove`: the first occurrence, by urgency. -/
def remove (s : Scheduler) (id : ℕ) : Scheduler :=
  match (List.finRange 8).find? fun u => (s.buckets u).has id with
  | some u => { s with count := s.count - 1 }.setBucket u ((s.buckets u).drop id)
  | none => s

def len (s : Scheduler) : ℕ := s.count

def update (s : Scheduler) (id : ℕ) (old new : Priority) : Scheduler :=
  if old = new then s else (s.remove id).add id new

/-- The scan of `next`, by urgency. -/
def scan (s : Scheduler) (want : ℕ) : Option (ℕ × Scheduler) :=
  (List.finRange 8).findSome? fun u =>
    ((s.buckets u).serve want s.quantum).map fun (id, b) => (id, s.setBucket u b)

/-- `next`: when a scan finds nothing though streams wait, the deficits are reset and a
    second scan follows. -/
def next (s : Scheduler) (want : ℕ) : Option ℕ × Scheduler :=
  match s.scan want with
  | some (id, s) => (some id, s)
  | none =>
    if ∃ u, (s.buckets u).nonIncremental ≠ [] then
      let fresh := { s with buckets := fun u => { s.buckets u with deficit := 0 } }
      match fresh.scan want with
      | some (id, s) => (some id, s)
      | none => (none, fresh)
    else (none, s)

end Scheduler

/-! ### What is served -/

variable {want : ℕ} {b : Bucket}

namespace Bucket

def queue (b : Bucket) (incremental : Bool) : List ℕ :=
  if incremental then b.incremental else b.nonIncremental

theorem has_iff (b : Bucket) (id : ℕ) : b.has id ↔ ∃ i, id ∈ b.queue i := by
  rw [Bool.exists_bool]
  rfl

def Ready (b : Bucket) (want quantum : ℕ) : Prop :=
  b.incremental ≠ [] ∨ b.nonIncremental ≠ [] ∧ b.charged want ≤ quantum

instance (b : Bucket) (want quantum : ℕ) : Decidable (b.Ready want quantum) :=
  inferInstanceAs (Decidable (_ ∨ _))

theorem serve_eq_none {quantum : ℕ} (h : ¬ b.Ready want quantum) :
    b.serve want quantum = none := by
  obtain ⟨nonIncremental,incremental,deficit⟩ := b
  cases incremental with
  | cons id rest => exact absurd (.inl (by simp)) h
  | nil =>
    cases nonIncremental with
    | nil => rfl
    | cons id rest => exact if_neg fun hle => h (.inr ⟨by simp,hle⟩)

theorem serve_of_ready {quantum : ℕ} (h : b.Ready want quantum) :
    ∃ id rest, (b.incremental = id :: rest ∧
        b.serve want quantum = some (id,{ b with incremental := rest ++ [id] })) ∨
      b.incremental = [] ∧ b.nonIncremental = id :: rest ∧ b.serve want quantum =
        some (id,{ b with nonIncremental := rest, deficit := b.charged want }) := by
  obtain ⟨nonIncremental,incremental,deficit⟩ := b
  cases incremental with
  | cons id rest => exact ⟨id,rest,.inl ⟨rfl,rfl⟩⟩
  | nil =>
    obtain ⟨hne,hle⟩ := h.resolve_left (fun hne => hne rfl)
    cases nonIncremental with
    | nil => exact absurd rfl hne
    | cons id rest => exact ⟨id,rest,.inr ⟨rfl,rfl,if_pos hle⟩⟩

end Bucket

variable {s : Scheduler} {u : Fin 8} {id : ℕ}

namespace Scheduler

def fresh (s : Scheduler) : Scheduler :=
  { s with buckets := fun u => { s.buckets u with deficit := 0 } }

theorem scan_of_ready (hfirst : ∀ v < u, ¬ (s.buckets v).Ready want s.quantum)
    (hserve : (s.buckets u).serve want s.quantum = some (id,b)) :
    s.scan want = some (id,s.setBucket u b) := by
  obtain ⟨before,after,hsplit⟩ := List.append_of_mem (List.mem_finRange u)
  have hsorted := List.pairwise_lt_finRange 8
  rw [hsplit,List.pairwise_append] at hsorted
  refine List.findSome?_eq_some_iff.2 ⟨before,u,after,hsplit,by rw [hserve]; rfl,?_⟩
  intro v hv
  rw [Bucket.serve_eq_none (hfirst v (hsorted.2.2 v hv u List.mem_cons_self))]
  rfl

theorem scan_eq_none (h : ∀ u, ¬ (s.buckets u).Ready want s.quantum) : s.scan want = none := by
  refine List.findSome?_eq_none_iff.2 fun u _ => ?_
  rw [Bucket.serve_eq_none (h u)]
  rfl

/-- `next` serves the first bucket that is ready, once the deficits are reset if none is. -/
theorem next_of_ready {base : Scheduler}
    (hbase : base = s ∨ base = s.fresh ∧ ∀ v, ¬ (s.buckets v).Ready want s.quantum)
    (hfirst : ∀ v < u, ¬ (base.buckets v).Ready want base.quantum)
    (hserve : (base.buckets u).serve want base.quantum = some (id,b)) :
    s.next want = (some id,base.setBucket u b) := by
  rcases hbase with rfl | ⟨rfl,hnone⟩
  · rw [next,scan_of_ready hfirst hserve]
  have hany : ∃ u, (s.buckets u).nonIncremental ≠ [] := by
    refine ⟨u,fun hnil => ?_⟩
    have hinc : (s.buckets u).incremental = [] := by
      by_contra hne
      exact hnone u (.inl hne)
    have hidle : ¬ (s.fresh.buckets u).Ready want s.fresh.quantum := by
      simp [Bucket.Ready,fresh,hnil,hinc]
    rw [Bucket.serve_eq_none hidle] at hserve
    cases hserve
  have hscan : Scheduler.scan { s with buckets := fun u => { s.buckets u with deficit := 0 } }
      want = some (id,s.fresh.setBucket u b) := scan_of_ready hfirst hserve
  rw [next,scan_eq_none hnone]
  simp only [if_pos hany,hscan]

end Scheduler

end Courierust.H2
