import Courierust.Lib.Run

/-!
# The thread pool

`courierust_pool`: workers that take jobs from a queue under a mutex and park on a condition
variable, calls of `spawn`, and the `Drop` of the pool, interleaved in any order. A wait releases
the mutex and blocks in one step, a notification wakes only who is blocked, and a blocked worker may
also wake without one. Which peer a worker tries to steal from is left open.
-/

namespace Courierust.Pool

open List

/-- Where a worker is in `Worker::run`. -/
inductive Pc where
  /-- at the top of the loop, before the load of `shutdown` -/
  | top
  | popLocal
  | popGlobal
  | stealing
  | running
  /-- before the lock of the global queue -/
  | parking
  /-- holding the lock, before the condition of the wait is tested -/
  | checking
  /-- holding the lock, after a test that lets it wait -/
  | entering
  | blocked
  /-- awake, before the lock is taken again -/
  | woken
  | exited
  deriving DecidableEq

/-- Where `Drop` is: before it, behind the store, behind `notify_all`. -/
inductive Dropping where
  | idle
  | stored
  | notified
  deriving DecidableEq

/-- A pool of `n` workers. Jobs are named by the order of the calls that submit them; `ran` are
those that were started. -/
structure State (n : ℕ) where
  global : List ℕ := []
  locals : Fin n → List ℕ := fun _ => []
  mutex : Option (Fin n) := none
  shutdown : Bool := false
  workers : Fin n → Pc := fun _ => .top
  dropping : Dropping := .idle
  /-- jobs whose call of `spawn` is behind the load of `shutdown` and before the push -/
  checked : List ℕ := []
  /-- calls of `spawn` behind the push and before `notify_one` -/
  notifying : ℕ := 0
  submitted : ℕ := 0
  ran : List ℕ := []

inductive Op (n : ℕ) where
  | work (worker victim : Fin n)
  | spawn
  | push (job : ℕ)
  | notifyOne (worker : Fin n)
  | spurious (worker : Fin n)
  | dropStore
  | dropNotify

namespace State

variable {n : ℕ} (s : State n)

def setPc (i : Fin n) (pc : Pc) : State n :=
  { s with workers := Function.update s.workers i pc }

def acquire (i : Fin n) : State n :=
  if s.mutex = none then { s.setPc i .checking with mutex := some i } else s

/-- `run_job`. -/
def runJob (i : Fin n) (job : ℕ) : State n := { s.setPc i .running with ran := s.ran ++ [job] }

/-- One step of `Worker::run`. A victim that is the worker itself stands for having no peer. -/
def work (i victim : Fin n) : State n :=
  match s.workers i with
  | .top => s.setPc i (if s.shutdown then .exited else .popLocal)
  | .popLocal =>
    match (s.locals i).getLast? with
    | some job =>
      { s.runJob i job with locals := Function.update s.locals i (s.locals i).dropLast }
    | none => s.setPc i .popGlobal
  | .popGlobal =>
    if s.mutex = none then
      match s.global with
      | job :: rest => { s.runJob i job with global := rest }
      | [] => s.setPc i .stealing
    else s
  | .stealing =>
    match s.locals victim with
    | job :: rest =>
      if victim = i then s.setPc i .parking
      else { s.runJob i job with locals := Function.update s.locals victim rest }
    | [] => s.setPc i .parking
  | .running => s.setPc i .top
  | .parking => s.acquire i
  | .checking =>
    if s.global = [] ∧ s.shutdown = false then s.setPc i .entering
    else { s.setPc i .top with mutex := none }
  | .entering => { s.setPc i .blocked with mutex := none }
  | .blocked => s
  | .woken => s.acquire i
  | .exited => s

def wake (i : Fin n) : State n := if s.workers i = .blocked then s.setPc i .woken else s

def step : Op n → State n
  | .work i victim => s.work i victim
  | .spawn =>
    if s.shutdown then s
    else { s with checked := s.checked ++ [s.submitted], submitted := s.submitted + 1 }
  | .push job =>
    if job ∈ s.checked ∧ s.mutex = none then
      { s with
        checked := s.checked.erase job, global := s.global ++ [job], notifying := s.notifying + 1 }
    else s
  | .notifyOne i =>
    -- any one of the blocked workers is woken, if there is one
    if 0 < s.notifying ∧ (s.workers i = .blocked ∨ ∀ j, s.workers j ≠ .blocked) then
      { s.wake i with notifying := s.notifying - 1 }
    else s
  | .spurious i => s.wake i
  | .dropStore =>
    if s.dropping = .idle then { s with dropping := .stored, shutdown := true } else s
  | .dropNotify =>
    if s.dropping = .stored then
      { s with
        dropping := .notified
        workers := fun i => if s.workers i = .blocked then .woken else s.workers i }
    else s

/-- `Drop` is behind `notify_all`, a worker is blocked, and no call is left that could wake it. -/
def Wedged : Prop :=
  s.dropping = .notified ∧ s.checked = [] ∧ s.notifying = 0 ∧ ∃ i, s.workers i = .blocked

/-- `notify_all` finds no worker between its test and its wait. -/
def Heard (s : State n) : Op n → Prop
  | .dropNotify => ∀ i, s.workers i ≠ .entering
  | _ => True

/-! ### Jobs -/

/-- Every job is in one place: with its caller, in the global queue, or started. -/
structure Once (s : State n) : Prop where
  nodup : (s.checked ++ s.global ++ s.ran).Nodup
  lt : ∀ job ∈ s.checked ++ s.global ++ s.ran, job < s.submitted
  empty : ∀ i, s.locals i = []

variable {s}

theorem Once.of_perm {s' : State n} (h : Once s)
    (hperm : (s'.checked ++ s'.global ++ s'.ran).Perm (s.checked ++ s.global ++ s.ran))
    (hsubmitted : s'.submitted = s.submitted) (hlocals : s'.locals = s.locals) : Once s' := by
  refine ⟨hperm.nodup_iff.2 h.nodup,fun job hjob => ?_,fun i => ?_⟩
  · rw [hsubmitted]
    exact h.lt job (hperm.mem_iff.1 hjob)
  · rw [hlocals,h.empty]

theorem Once.work (h : Once s) (i victim : Fin n) : Once (s.work i victim) := by
  have hsame : ∀ s' : State n, s'.checked = s.checked → s'.global = s.global → s'.ran = s.ran →
      s'.submitted = s.submitted → s'.locals = s.locals → Once s' := by
    intro s' hchecked hglobal hran hsubmitted hlocals
    refine h.of_perm ?_ hsubmitted hlocals
    rw [hchecked,hglobal,hran]
  have hacquire : Once (s.acquire i) := by
    unfold acquire
    split_ifs
    · exact hsame _ rfl rfl rfl rfl rfl
    · exact h
  unfold State.work
  cases s.workers i with
  | popLocal =>
    simp only [h.empty i,getLast?_nil]
    exact hsame _ rfl rfl rfl rfl rfl
  | popGlobal =>
    simp only
    split_ifs
    · cases hglobal : s.global with
      | nil => exact hsame _ rfl rfl rfl rfl rfl
      | cons job rest =>
        refine h.of_perm ?_ rfl rfl
        have hmove : (rest ++ (s.ran ++ [job])).Perm (job :: rest ++ s.ran) := by
          rw [← append_assoc]
          exact perm_append_singleton job (rest ++ s.ran)
        simpa [runJob,setPc,hglobal] using hmove.append_left s.checked
    · exact h
  | stealing =>
    simp only [h.empty victim]
    exact hsame _ rfl rfl rfl rfl rfl
  | checking =>
    simp only
    split_ifs
    · exact hsame _ rfl rfl rfl rfl rfl
    · exact hsame _ rfl rfl rfl rfl rfl
  | parking | woken => exact hacquire
  | blocked | exited => exact h
  | top | running | entering => exact hsame _ rfl rfl rfl rfl rfl

theorem Once.wake (h : Once s) (i : Fin n) : Once (s.wake i) := by
  unfold State.wake
  split_ifs
  · exact h.of_perm .rfl rfl rfl
  · exact h

theorem Once.step (h : Once s) (op : Op n) : Once (s.step op) := by
  cases op with
  | work i victim => exact h.work i victim
  | spawn =>
    simp only [State.step]
    split_ifs
    · exact h
    have hperm : (s.checked ++ [s.submitted] ++ s.global ++ s.ran).Perm
        (s.submitted :: (s.checked ++ s.global ++ s.ran)) := by
      simp only [append_assoc]
      exact perm_middle
    constructor
    · refine hperm.nodup_iff.2 (nodup_cons.2 ⟨fun hmem => ?_,h.nodup⟩)
      exact absurd (h.lt _ hmem) (lt_irrefl _)
    · intro job hjob
      rcases mem_cons.1 (hperm.mem_iff.1 hjob) with rfl | hold
      · exact Nat.lt_succ_self _
      · exact (h.lt job hold).trans (Nat.lt_succ_self _)
    · exact h.empty
  | push job =>
    simp only [State.step]
    split_ifs with hpush
    · refine h.of_perm ?_ rfl rfl
      have hmove : (s.checked.erase job ++ (s.global ++ [job])).Perm (s.checked ++ s.global) := by
        refine (perm_append_comm.trans ?_).trans perm_append_comm
        rw [append_assoc]
        exact (perm_cons_erase hpush.1).symm.append_left s.global
      exact hmove.append_right s.ran
    · exact h
  | notifyOne i =>
    simp only [State.step]
    split_ifs
    · exact (h.wake i).of_perm .rfl rfl rfl
    · exact h
  | spurious i => exact h.wake i
  | dropStore | dropNotify =>
    simp only [State.step]
    split_ifs
    · exact h.of_perm .rfl rfl rfl
    · exact h

/-- Only the front of the queue is started, and a push goes to its end. -/
theorem Once.queue_step (h : Once s) (op : Op n) :
    s.ran ++ s.global <+: (s.step op).ran ++ (s.step op).global := by
  cases op with
  | work i victim =>
    simp only [State.step,State.work,h.empty,getLast?_nil]
    cases s.workers i with
    | popGlobal => cases hglobal : s.global <;> split_ifs <;> simp [runJob,setPc,hglobal]
    | parking | woken | checking =>
      simp only [acquire]
      split_ifs <;> exact prefix_rfl
    | _ => exact prefix_rfl
  | push job =>
    simp only [State.step]
    split_ifs
    · exact ⟨[job],append_assoc ..⟩
    · exact prefix_rfl
  | _ =>
    simp only [State.step,State.wake]
    split_ifs <;> exact prefix_rfl

/-! ### Wakeups -/

/-- Behind the store nobody is let into the wait, and behind `notify_all` nobody is in it. -/
structure Awake (s : State n) : Prop where
  stored : s.dropping ≠ .idle → s.shutdown = true
  notified : s.dropping = .notified → ∀ i, s.workers i ≠ .entering ∧ s.workers i ≠ .blocked

theorem Awake.of_workers {s' : State n} (h : Awake s) (hdropping : s'.dropping = s.dropping)
    (hshutdown : s'.shutdown = s.shutdown)
    (hworkers : s.dropping = .notified → ∀ i, s'.workers i = s.workers i ∨
      s'.workers i ≠ .entering ∧ s'.workers i ≠ .blocked) : Awake s' := by
  constructor
  · rw [hdropping,hshutdown]
    exact h.stored
  · rw [hdropping]
    intro hnotified i
    rcases hworkers hnotified i with hsame | hout
    · rw [hsame]
      exact h.notified hnotified i
    · exact hout

/-- A worker goes on to another place than these two. -/
theorem Awake.setPc {s' : State n} (h : Awake s) {i : Fin n} {pc : Pc}
    (hpc : s.dropping = .notified → pc ≠ .entering ∧ pc ≠ .blocked)
    (hdropping : s'.dropping = s.dropping) (hshutdown : s'.shutdown = s.shutdown)
    (hworkers : s'.workers = Function.update s.workers i pc) : Awake s' := by
  refine h.of_workers hdropping hshutdown fun hnotified j => ?_
  rw [hworkers,Function.update_apply]
  split_ifs
  · exact .inr (hpc hnotified)
  · exact .inl rfl

theorem Awake.acquire (h : Awake s) (i : Fin n) : Awake (s.acquire i) := by
  unfold State.acquire
  split_ifs
  · exact h.setPc (fun _ => by decide) rfl rfl rfl
  · exact h

theorem Awake.wake (h : Awake s) (i : Fin n) : Awake (s.wake i) := by
  unfold State.wake
  split_ifs
  · exact h.setPc (fun _ => by decide) rfl rfl rfl
  · exact h

theorem Awake.work (h : Awake s) (i victim : Fin n) : Awake (s.work i victim) := by
  have hgo : ∀ (s' : State n) (pc : Pc), pc ≠ .entering ∧ pc ≠ .blocked →
      s'.dropping = s.dropping → s'.shutdown = s.shutdown →
      s'.workers = Function.update s.workers i pc → Awake s' :=
    fun s' pc hpc hdropping hshutdown hworkers => h.setPc (fun _ => hpc) hdropping hshutdown hworkers
  unfold State.work
  cases hpc : s.workers i with
  | top =>
    simp only
    split_ifs
    · exact hgo _ .exited (by decide) rfl rfl rfl
    · exact hgo _ .popLocal (by decide) rfl rfl rfl
  | popLocal =>
    simp only
    split
    · exact hgo _ .running (by decide) rfl rfl rfl
    · exact hgo _ .popGlobal (by decide) rfl rfl rfl
  | popGlobal =>
    simp only
    split_ifs
    · split
      · exact hgo _ .running (by decide) rfl rfl rfl
      · exact hgo _ .stealing (by decide) rfl rfl rfl
    · exact h
  | stealing =>
    simp only
    split
    · split_ifs
      · exact hgo _ .parking (by decide) rfl rfl rfl
      · exact hgo _ .running (by decide) rfl rfl rfl
    · exact hgo _ .parking (by decide) rfl rfl rfl
  | running => exact hgo _ .top (by decide) rfl rfl rfl
  | parking => exact h.acquire i
  | checking =>
    simp only
    split_ifs with hwait
    · -- the flag is not set, so `Drop` has not begun
      refine h.setPc (fun hnotified => ?_) rfl rfl rfl
      have hset := h.stored (by rw [hnotified]; decide)
      rw [hwait.2] at hset
      cases hset
    · exact hgo _ .top (by decide) rfl rfl rfl
  | entering =>
    refine h.setPc (fun hnotified => ?_) rfl rfl rfl
    exact absurd hpc (h.notified hnotified i).1
  | blocked => exact h
  | woken => exact h.acquire i
  | exited => exact h

theorem Awake.step (h : Awake s) {op : Op n} (hheard : s.Heard op) : Awake (s.step op) := by
  cases op with
  | work i victim => exact h.work i victim
  | spawn =>
    simp only [State.step]
    split_ifs
    · exact h
    · exact h.of_workers rfl rfl fun _ _ => .inl rfl
  | push job =>
    simp only [State.step]
    split_ifs
    · exact h.of_workers rfl rfl fun _ _ => .inl rfl
    · exact h
  | notifyOne i =>
    simp only [State.step]
    split_ifs
    · exact (h.wake i).of_workers rfl rfl fun _ _ => .inl rfl
    · exact h
  | spurious i => exact h.wake i
  | dropStore =>
    simp only [State.step]
    split_ifs
    · exact ⟨fun _ => rfl,fun hnotified => by cases hnotified⟩
    · exact h
  | dropNotify =>
    simp only [State.step]
    split_ifs with hstored
    · refine ⟨fun _ => h.stored (by rw [hstored]; decide),fun _ i => ?_⟩
      simp only
      split_ifs with hblocked
      · decide
      · exact ⟨hheard i,hblocked⟩
    · exact h

end State

/-- No job is started twice, and the pool is not wedged in any run in which `notify_all` finds no
worker between its test and its wait. -/
theorem pool_safe (n : ℕ) (ops : List (Op n)) :
    (Run.run State.step ({} : State n) ops).ran.Nodup ∧
      (Run.Along State.step State.Heard ({} : State n) ops →
        ¬ (Run.run State.step ({} : State n) ops).Wedged) := by
  constructor
  · have hstart : State.Once ({} : State n) := ⟨nodup_nil,by simp,fun _ => rfl⟩
    have hstep : ∀ (s : State n) op, s.Once → True → (s.step op).Once := fun s op h _ => h.step op
    have honce := Run.invariant hstep hstart (Run.along_of_forall (fun _ _ => trivial) _ ops)
    exact (nodup_append.1 honce.nodup).2.1
  · intro hheard hwedged
    have hstart : State.Awake ({} : State n) :=
      ⟨fun h => absurd rfl h,fun h => by cases h⟩
    have hstep : ∀ (s : State n) op, s.Awake → s.Heard op → (s.step op).Awake :=
      fun s op h hop => h.step hop
    obtain ⟨hnotified,-,-,i,hblocked⟩ := hwedged
    exact ((Run.invariant hstep hstart hheard).notified hnotified i).2 hblocked

/-- In every interleaving jobs are taken in the order they were pushed in, and queued until then. -/
theorem jobs_taken_in_order (n : ℕ) (ops later : List (Op n)) :
    let s := Run.run State.step ({} : State n) ops
    let s' := Run.run State.step s later
    s.ran ++ s.global <+: s'.ran ++ s'.global := by
  intro s
  have honce : s.Once := Run.invariant (fun _ op h _ => h.step op) ⟨nodup_nil,by simp,fun _ => rfl⟩
    (Run.along_of_forall (fun _ _ => trivial) _ ops)
  clear_value s
  induction later generalizing s with
  | nil => exact prefix_rfl
  | cons op later ih => exact (honce.queue_step op).trans (ih _ (honce.step op))

/-- A worker that is blocked when the pool is dropped is woken. -/
theorem pool_safe_blocked :
    ¬ (Run.run State.step ({} : State 1) (List.replicate 7 (.work 0 0) ++
      [.dropStore, .dropNotify])).Wedged := by
  have hheard : ∀ i, (Run.run State.step ({} : State 1) (replicate 7 (.work 0 0) ++
      [.dropStore])).workers i ≠ .entering := by decide
  exact (pool_safe 1 _).2 ⟨trivial,trivial,trivial,trivial,trivial,trivial,trivial,trivial,
    hheard,trivial⟩

/-- The worker has tested the flag, `Drop` sets it and notifies, and then the worker waits. -/
theorem pool_wedges :
    (Run.run State.step ({} : State 1) (List.replicate 6 (.work 0 0) ++
      [.dropStore, .dropNotify, .work 0 0])).Wedged :=
  ⟨by decide,by decide,by decide,0,by decide⟩

end Courierust.Pool
