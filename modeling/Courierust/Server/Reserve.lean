import Courierust.Lib.Run
import Courierust.Num

/-!
# Reservations on upstreams

The reverse proxy spreads the requests of a route over its upstreams. A request reserves one under
the lock of the route and gives it back under the same lock, later and in its own thread. The steps
of the threads are interleaved in any order; a slot goes through the phases of its guard.
-/

namespace Courierust.Server

open List

inductive Balance where
  | roundRobin
  | leastConnections
  deriving DecidableEq

structure HealthPolicy where
  failures : ℕ
  cooldown : ℕ

/-- A route over `n` upstreams, with the limit of each. -/
structure Route (n : ℕ) where
  maxInFlight : Fin n → ℕ
  balance : Balance
  health : HealthPolicy

structure Backend where
  inFlight : ℕ := 0
  failures : ℕ := 0
  ejectedUntil : Option ℕ := none
  deriving DecidableEq

def Backend.isEjected (b : Backend) (now : ℕ) : Bool := b.ejectedUntil.any (now < ·)

/-- The largest `usize`. -/
def usizeMax : ℕ := 2 ^ 64 - 1

structure Rotation (n : ℕ) where
  cursor : ℕ := 0
  backends : Fin n → Backend := fun _ => {}

/-- The outcome of `reserve`. -/
inductive Pick (n : ℕ) where
  | ready (index : Fin n) (rotation : Rotation n)
  | noUpstream
  | allBusy

variable {n : ℕ} (route : Route n)

/-- `limit`: `0` is read as no limit. -/
def Route.limit (index : Fin n) : ℕ :=
  if route.maxInFlight index = 0 then usizeMax else route.maxInFlight index

namespace Rotation

variable (r : Rotation n)

def hasRoom (index : Fin n) : Bool := (r.backends index).inFlight < route.limit index

def usable (now : ℕ) : List (Fin n) :=
  (List.finRange n).filter fun index => !(r.backends index).isEjected now && r.hasRoom route index

/-- The order of `Option<Instant>`. -/
def earlier : Option ℕ → Option ℕ → Bool
  | none, none => false
  | none, some _ => true
  | some _, none => false
  | some a, some b => a < b

def probeStep (best : Option (Fin n)) (index : Fin n) : Option (Fin n) :=
  if !r.hasRoom route index then best
  else
    match best with
    | none => some index
    | some current =>
      if earlier (r.backends index).ejectedUntil (r.backends current).ejectedUntil then some index
      else some current

def probe : Option (Fin n) := (List.finRange n).foldl (r.probeStep route) none

def keyLt (len : ℕ) (a b : Fin n) : Bool :=
  let start := r.cursor % len
  (r.backends a).inFlight < (r.backends b).inFlight ||
    (r.backends a).inFlight = (r.backends b).inFlight &&
      decide ((a + len - start) % len < (b + len - start) % len)

def least (len : ℕ) (first : Fin n) (rest : List (Fin n)) : Fin n :=
  rest.foldl (fun best candidate => if r.keyLt len candidate best then candidate else best) first

def choose (now : ℕ) : Option (Fin n) :=
  match r.usable route now with
  | [] =>
    if (List.finRange n).any fun index => !(r.backends index).isEjected now then none
    else r.probe route
  | first :: rest =>
    match route.balance with
    | .roundRobin => (first :: rest)[r.cursor % (first :: rest).length]?
    | .leastConnections => some (r.least (first :: rest).length first rest)

def modify (index : Fin n) (f : Backend → Backend) : Rotation n :=
  { r with backends := Function.update r.backends index (f (r.backends index)) }

def reserve (now : ℕ) : Pick n :=
  if n = 0 then .noUpstream
  else
    match r.choose route now with
    | none => .allBusy
    | some chosen =>
      .ready chosen ({ r with cursor := (r.cursor + 1) % 2 ^ 64 }.modify chosen fun b =>
        { b with inFlight := b.inFlight + 1 })

def discharge (index : Fin n) : Rotation n :=
  r.modify index fun b => { b with inFlight := b.inFlight - 1 }

def score (health : HealthPolicy) (reached : Bool) (now : ℕ) (b : Backend) : Backend :=
  if reached then { b with failures := 0, ejectedUntil := none }
  else if health.failures = 0 then b
  else
    let failures := min (b.failures + 1) (2 ^ 32 - 1)
    if health.failures ≤ failures then
      { b with failures := 0, ejectedUntil := some (now + health.cooldown) }
    else { b with failures := failures }

def release (index : Fin n) (reached : Bool) (now : ℕ) : Rotation n :=
  (r.discharge index).modify index (score route.health reached now)

end Rotation

/-! ### The threads -/

/-- Where the guard of a reservation is. It is scored from the start of `finish` on. -/
inductive Phase where
  | held
  /-- in `finish`, before `release` has the lock -/
  | finishing (reached : Bool) (now : ℕ)
  /-- behind `release`, before the guard is dropped -/
  | finished
  deriving DecidableEq

structure Slot (n : ℕ) where
  index : Fin n
  phase : Phase := .held
  deriving DecidableEq

def Slot.live (s : Slot n) : Bool := s.phase ≠ .finished

structure Serving (n : ℕ) where
  rotation : Rotation n := {}
  slots : List (Slot n) := []

inductive Op where
  | reserve (now : ℕ)
  | finish (slot : ℕ) (reached : Bool) (now : ℕ)
  | release (slot : ℕ)
  | drop (slot : ℕ)

namespace Serving

def live (s : Serving n) (index : Fin n) : ℕ :=
  s.slots.countP fun slot => slot.live && slot.index = index

def step (s : Serving n) : Op → Serving n
  | .reserve now =>
    match s.rotation.reserve route now with
    | .ready index rotation => { rotation := rotation, slots := s.slots ++ [{ index := index }] }
    | _ => s
  | .finish k reached now =>
    match s.slots[k]? with
    | some ⟨index, .held⟩ => { s with slots := s.slots.set k ⟨index, .finishing reached now⟩ }
    | _ => s
  | .release k =>
    match s.slots[k]? with
    | some ⟨index, .finishing reached now⟩ =>
      { rotation := s.rotation.release route index reached now
        slots := s.slots.set k ⟨index, .finished⟩ }
    | _ => s
  | .drop k =>
    match s.slots[k]? with
    | some ⟨index, .held⟩ =>
      { rotation := s.rotation.discharge index, slots := s.slots.eraseIdx k }
    | some ⟨_, .finished⟩ => { s with slots := s.slots.eraseIdx k }
    | _ => s

structure Counted (s : Serving n) : Prop where
  exact : ∀ index, (s.rotation.backends index).inFlight = s.live index
  bounded : ∀ index, (s.rotation.backends index).inFlight ≤ route.limit index

/-- The reservations of a route are exact, and those to come are made by its rules. -/
structure Exact (s : Serving n) : Prop extends Counted route s where
  busy : ∀ now, s.rotation.reserve route now = .allBusy →
    ¬ ∃ index, s.rotation.hasRoom route index = true ∧
      ((s.rotation.backends index).isEjected now = false ∨
        ∀ other, (s.rotation.backends other).isEjected now = true)
  least : route.balance = .leastConnections → ∀ now, (∃ i, i ∈ s.rotation.usable route now) →
    ∃ index rotation, s.rotation.reserve route now = .ready index rotation ∧
      index ∈ s.rotation.usable route now ∧ ∀ other ∈ s.rotation.usable route now,
        (s.rotation.backends index).inFlight ≤ (s.rotation.backends other).inFlight

end Serving

/-! ### Who is chosen -/

namespace Rotation

variable {route} {r : Rotation n} {now : ℕ}

variable {index : Fin n}

theorem mem_usable : index ∈ r.usable route now ↔
    (r.backends index).isEjected now = false ∧ r.hasRoom route index = true := by
  simp [usable]

theorem probeStep_spec (route : Route n) (r : Rotation n) (best : Option (Fin n)) (index : Fin n) :
    (∀ i, r.probeStep route best index = some i → best = some i ∨ r.hasRoom route i = true) ∧
      (r.probeStep route best index = none → best = none ∧ r.hasRoom route index = false) := by
  unfold probeStep
  cases hroom : r.hasRoom route index with
  | false => exact ⟨fun i h => .inl h,fun h => ⟨h,rfl⟩⟩
  | true =>
    cases best with
    | none =>
      refine ⟨fun i h => .inr ?_,fun h => by cases h⟩
      cases h
      exact hroom
    | some current =>
      by_cases hearlier :
          earlier (r.backends index).ejectedUntil (r.backends current).ejectedUntil = true
      · simp only [Bool.not_true,Bool.false_eq_true,if_false,if_pos hearlier]
        refine ⟨fun i h => .inr ?_,fun h => by cases h⟩
        cases h
        exact hroom
      · simp only [Bool.not_true,Bool.false_eq_true,if_false,if_neg hearlier]
        exact ⟨fun i h => .inl h,fun h => by cases h⟩

theorem probe_from (indices : List (Fin n)) (best : Option (Fin n)) :
    (∀ i, indices.foldl (r.probeStep route) best = some i →
      best = some i ∨ r.hasRoom route i = true) ∧
      (indices.foldl (r.probeStep route) best = none →
        best = none ∧ ∀ i ∈ indices, r.hasRoom route i = false) := by
  induction indices generalizing best with
  | nil => exact ⟨fun i h => .inl h,fun h => ⟨h,by simp⟩⟩
  | cons index indices ih =>
    obtain ⟨hsome,hnone⟩ := ih (r.probeStep route best index)
    obtain ⟨hsome',hnone'⟩ := probeStep_spec route r best index
    constructor
    · intro i h
      rcases hsome i h with hstep | hroom
      · exact hsome' i hstep
      · exact .inr hroom
    · intro h
      obtain ⟨hstep,hrest⟩ := hnone h
      obtain ⟨hbest,hroom⟩ := hnone' hstep
      exact ⟨hbest,forall_mem_cons.2 ⟨hroom,hrest⟩⟩

theorem least_spec (r : Rotation n) (len : ℕ) (first : Fin n) (rest : List (Fin n)) :
    r.least len first rest ∈ first :: rest ∧ ∀ other ∈ first :: rest,
      (r.backends (r.least len first rest)).inFlight ≤ (r.backends other).inFlight := by
  induction rest generalizing first with
  | nil => simp [least]
  | cons next rest ih =>
    obtain ⟨kept,hkept⟩ : ∃ kept, kept = if r.keyLt len next first then next else first := ⟨_,rfl⟩
    have hstep : r.least len first (next :: rest) = r.least len kept rest := by
      rw [hkept]
      rfl
    have hfew : (r.backends kept).inFlight ≤ (r.backends first).inFlight ∧
        (r.backends kept).inFlight ≤ (r.backends next).inFlight := by
      rw [hkept]
      split_ifs with hlt <;>
        simp only [keyLt,Bool.or_eq_true,Bool.and_eq_true,decide_eq_true_eq] at hlt <;> omega
    obtain ⟨hmem,hle⟩ := ih kept
    have hself := hle kept mem_cons_self
    rw [hstep]
    constructor
    · grind
    · intro other hother
      rcases mem_cons.1 hother with rfl | hother
      · exact hself.trans hfew.1
      rcases mem_cons.1 hother with rfl | hother
      · exact hself.trans hfew.2
      · exact hle other (mem_cons_of_mem _ hother)

theorem hasRoom_choose (h : r.choose route now = some index) : r.hasRoom route index = true := by
  unfold choose at h
  split at h
  · split_ifs at h
    exact ((probe_from _ none).1 index h).resolve_left (by simp)
  · next first rest husable =>
    have hmem : index ∈ r.usable route now := by
      rw [husable]
      split at h
      · exact mem_of_getElem? h
      · cases h
        exact (least_spec r _ first rest).1
    exact (mem_usable.1 hmem).2

theorem choose_eq_none (h : r.choose route now = none) (hroom : r.hasRoom route index = true) :
    (r.backends index).isEjected now = true ∧
      ∃ other, (r.backends other).isEjected now = false := by
  unfold choose at h
  split at h
  · next husable =>
    constructor
    · by_contra hhere
      have hmem : index ∈ r.usable route now := mem_usable.2 ⟨by simpa using hhere,hroom⟩
      rw [husable] at hmem
      cases hmem
    · split_ifs at h with hany
      · obtain ⟨other,-,hother⟩ := any_eq_true.1 hany
        exact ⟨other,by simpa using hother⟩
      · have hnone := ((probe_from _ none).2 h).2 index (mem_finRange index)
        rw [hroom] at hnone
        cases hnone
  · split at h
    · rw [getElem?_eq_none_iff] at h
      exact absurd (Nat.mod_lt r.cursor (Nat.succ_pos _)) (not_lt.2 h)
    · cases h

end Rotation

/-! ### The counts -/

theorem countP_eraseIdx {α : Type} {l : List α} {k : ℕ} {a : α} (h : l[k]? = some a)
    (p : α → Bool) : (l.eraseIdx k).countP p+(if p a then 1 else 0) = l.countP p := by
  obtain ⟨hk,rfl⟩ := List.getElem?_eq_some_iff.1 h
  rw [← countP_cons,(getElem_cons_eraseIdx_perm hk).countP_eq p]

theorem countP_set {α : Type} {l : List α} {k : ℕ} {a : α} (h : l[k]? = some a) (b : α)
    (p : α → Bool) : (l.set k b).countP p+(if p a then 1 else 0) =
      l.countP p+if p b then 1 else 0 := by
  obtain ⟨hk,-⟩ := List.getElem?_eq_some_iff.1 h
  rw [(set_perm_cons_eraseIdx hk b).countP_eq p,countP_cons,← countP_eraseIdx h p]
  omega

namespace Serving

variable {route}

theorem inFlight_modify (r : Rotation n) (c index : Fin n) (f : Backend → Backend) :
    ((r.modify c f).backends index).inFlight =
      if index = c then (f (r.backends c)).inFlight else (r.backends index).inFlight := by
  simp only [Rotation.modify,Function.update_apply]
  split_ifs <;> rfl

theorem inFlight_score (health : HealthPolicy) (reached : Bool) (now : ℕ) (b : Backend) :
    (Rotation.score health reached now b).inFlight = b.inFlight := by
  unfold Rotation.score
  split_ifs
  · rfl
  · rfl
  · simp only
    split_ifs <;> rfl

theorem inFlight_release (r : Rotation n) (c index : Fin n) (reached : Bool) (now : ℕ) :
    ((r.release route c reached now).backends index).inFlight =
      ((r.discharge c).backends index).inFlight := by
  rw [Rotation.release,inFlight_modify,inFlight_score]
  split_ifs with h
  · rw [h]
  · rfl

theorem inFlight_discharge (r : Rotation n) (c index : Fin n) :
    ((r.discharge c).backends index).inFlight =
      (r.backends index).inFlight-if index = c then 1 else 0 := by
  rw [Rotation.discharge,inFlight_modify]
  split_ifs with h
  · rw [h]
  · rfl

variable {s : Serving n}

theorem Counted.give_back {s' : Serving n} (h : Counted route s) {c : Fin n}
    (hlive : ∀ index, s'.live index+(if index = c then 1 else 0) = s.live index)
    (hrotation : ∀ index, (s'.rotation.backends index).inFlight =
      ((s.rotation.discharge c).backends index).inFlight) : Counted route s' := by
  constructor
  · intro index
    rw [hrotation,inFlight_discharge,h.exact]
    have := hlive index
    omega
  · intro index
    rw [hrotation,inFlight_discharge]
    exact (Nat.sub_le _ _).trans (h.bounded index)

theorem Counted.reserve (h : Counted route s) {now : ℕ} {c : Fin n} {rotation : Rotation n}
    (hready : s.rotation.reserve route now = .ready c rotation) :
    Counted route { rotation := rotation, slots := s.slots ++ [{ index := c }] } := by
  unfold Rotation.reserve at hready
  split_ifs at hready
  split at hready
  · cases hready
  · next chosen hchosen =>
    cases hready
    have hroom := Rotation.hasRoom_choose hchosen
    simp only [Rotation.hasRoom,decide_eq_true_eq] at hroom
    constructor
    · intro index
      have hexact := h.exact index
      simp only [live] at hexact ⊢
      rw [inFlight_modify,countP_append,← hexact]
      by_cases heq : index = c
      · simp [heq,Slot.live]
      · simp [heq,Slot.live,Ne.symm heq]
    · intro index
      have hbounded := h.bounded index
      rw [inFlight_modify]
      split_ifs with heq
      · rw [heq]
        exact hroom
      · exact hbounded

theorem Counted.step (h : Counted route s) (op : Op) : Counted route (s.step route op) := by
  cases op with
  | reserve now =>
    simp only [Serving.step]
    split
    · next hready => exact h.reserve hready
    · exact h
  | finish k reached now =>
    simp only [Serving.step]
    split
    · next index hslot =>
      refine ⟨fun i => (h.exact i).trans ?_,h.bounded⟩
      have hcount := countP_set hslot ⟨index,.finishing reached now⟩
        fun slot => slot.live && slot.index = i
      simpa [live,Slot.live] using hcount.symm
    · exact h
  | release k =>
    simp only [Serving.step]
    split
    · next index reached now hslot =>
      refine h.give_back (fun i => ?_) (inFlight_release s.rotation index · reached now)
      have hcount := countP_set hslot ⟨index,.finished⟩ fun slot => slot.live && slot.index = i
      simpa [live,Slot.live,eq_comm] using hcount
    · exact h
  | drop k =>
    simp only [Serving.step]
    split
    · next index hslot =>
      refine h.give_back (fun i => ?_) fun _ => rfl
      have hcount := countP_eraseIdx hslot fun slot => slot.live && slot.index = i
      simpa [live,Slot.live,eq_comm] using hcount
    · next index hslot =>
      refine ⟨fun i => (h.exact i).trans ?_,h.bounded⟩
      have hcount := countP_eraseIdx hslot fun slot => slot.live && slot.index = i
      simpa [live,Slot.live] using hcount.symm
    · exact h

theorem Counted.exact_of (h : Counted route s) : Exact route s := by
  refine ⟨h,fun now hbusy => ?_,fun hleast now => ?_⟩
  · rintro ⟨index,hroom,hwhen⟩
    have hnone : s.rotation.choose route now = none := by
      unfold Rotation.reserve at hbusy
      split_ifs at hbusy
      split at hbusy
      · next hnone => exact hnone
      · cases hbusy
    obtain ⟨hejected,other,hother⟩ := Rotation.choose_eq_none hnone hroom
    rcases hwhen with hhere | hall
    · rw [hejected] at hhere
      cases hhere
    · rw [hall other] at hother
      cases hother
  · rintro ⟨i,hi⟩
    have hpos : n ≠ 0 := i.pos.ne'
    unfold Rotation.reserve Rotation.choose
    cases husable : s.rotation.usable route now with
    | nil =>
      rw [husable] at hi
      cases hi
    | cons first rest =>
      obtain ⟨hmem,hle⟩ := Rotation.least_spec s.rotation (first :: rest).length first rest
      simp only [hleast,if_neg hpos]
      exact ⟨_,_,rfl,hmem,hle⟩

end Serving

/-- In every interleaving of requests on a route the counts are exact and within the limits, a
route is busy only if no upstream could take a request, and the fewest connections are chosen. -/
theorem reservations_exact (route : Route n) (ops : List Op) :
    Serving.Exact route (Run.run (Serving.step route) {} ops) := by
  have hstart : Serving.Counted route ({} : Serving n) :=
    ⟨fun _ => rfl,fun _ => Nat.zero_le _⟩
  have hstep : ∀ s op, Serving.Counted route s → True →
      Serving.Counted route (Serving.step route s op) := fun s op h _ => h.step op
  exact (Run.invariant hstep hstart (Run.along_of_forall (fun _ _ => trivial) _ ops)).exact_of

end Courierust.Server
