import Courierust.Lib.Map
import Courierust.H2.Priority

/-!
# Flow-control windows and the stream table

Model of `courierust_h2::{flow, stream}`. Windows are `i64` in the source: an integer
here, with the saturation of the operations that saturate.
-/

namespace Courierust.H2

open Std (ExtTreeMap)

/-- The value a saturating `i64` operation leaves. -/
def satI64 (n : ℤ) : ℤ := max (-2 ^ 63) (min n (2 ^ 63 - 1))

theorem satI64_eq {n : ℤ} (hlow : -2^63 ≤ n) (hhigh : n ≤ 2^63-1) : satI64 n = n := by
  unfold satI64
  omega

def MAX_FLOW_WINDOW : ℤ := 0x7fffffff

structure FlowWindow where
  size : ℤ
  limit : ℤ
  deriving DecidableEq

namespace FlowWindow

def available (w : FlowWindow) : ℤ := w.size

def consume (w : FlowWindow) (n : ℤ) : FlowWindow := { w with size := satI64 (w.size - n) }

/-- `increase`: `none` when the ceiling would be passed. -/
def increase (w : FlowWindow) (n : ℕ) : Option FlowWindow :=
  let next := satI64 (w.size + n)
  if w.limit < next then none else some { w with size := next }

def release (w : FlowWindow) (n : ℤ) : FlowWindow :=
  { w with size := min (satI64 (w.size + n)) w.limit }

end FlowWindow

inductive StreamState where
  | idle
  | open
  | halfClosedLocal
  | halfClosedRemote
  | closed
  | reservedLocal
  | reservedRemote
  deriving DecidableEq

structure Stream where
  id : ℕ
  state : StreamState := .idle
  priority : Priority := {}
  sendWindow : ℤ
  recvWindow : ℤ
  sendBuffered : ℕ := 0
  sendDone : Bool := false
  recvEnded : Bool := false
  recvUnreleased : ℤ := 0
  headersDelivered : Bool := false
  contentLength : Option ℕ := none
  recvBodyLen : ℕ := 0
  bodyExpected : Bool := true
  deriving DecidableEq

namespace Stream

def isClosed (s : Stream) : Bool := s.state = .closed

def canRecv (s : Stream) : Bool :=
  (s.state = .open || s.state = .halfClosedLocal) && !s.recvEnded

def canSend (s : Stream) : Bool :=
  (s.state = .open || s.state = .halfClosedRemote) && !s.sendDone

end Stream

structure StreamMap where
  streams : ExtTreeMap ℕ Stream
  nextClientId : ℕ
  lastPeerId : ℕ
  openCount : ℕ

namespace StreamMap

def new (client : Bool) : StreamMap := ⟨∅, if client then 1 else 2, 0, 0⟩

def get (m : StreamMap) (id : ℕ) : Option Stream := m.streams[id]?

def contains (m : StreamMap) (id : ℕ) : Bool := (m.get id).isSome

/-- A `get_mut` and what is written through it. -/
def update (m : StreamMap) (id : ℕ) (f : Stream → Stream) : StreamMap :=
  match m.get id with
  | some s => { m with streams := m.streams.insert id (f s) }
  | none => m

def insert (m : StreamMap) (s : Stream) : StreamMap :=
  { m with
    streams := m.streams.insert s.id s
    openCount := if s.isClosed then m.openCount else m.openCount + 1 }

def remove (m : StreamMap) (id : ℕ) : StreamMap :=
  if m.contains id then { m with streams := m.streams.erase id, openCount := m.openCount - 1 }
  else m

def ids (m : StreamMap) : List ℕ := m.streams.keys

def allocateClientId (m : StreamMap) : Option (ℕ × StreamMap) :=
  if 0x7fffffff < m.nextClientId then none
  else some (m.nextClientId, { m with nextClientId := (m.nextClientId + 2) % 2 ^ 32 })

def reserveUpgradeStream (m : StreamMap) : StreamMap :=
  if m.nextClientId = 1 then { m with nextClientId := 3 } else m

def acceptPeerId (m : StreamMap) (id : ℕ) : Bool × StreamMap :=
  if id % 2 = 0 then (false, m)
  else if id ≤ m.lastPeerId then (false, m)
  else (true, { m with lastPeerId := id })

/-! ### Lookups -/

@[simp] theorem get_new (client : Bool) (x : ℕ) : (new client).get x = none := by
  simp [new,get]

variable (m : StreamMap) (id x : ℕ)

theorem get_update (f : Stream → Stream) :
    (m.update id f).get x = if x = id then (m.get id).map f else m.get x := by
  unfold update
  cases h : m.get id with
  | none =>
    split_ifs with hx
    · rw [hx,h]
      rfl
    · rfl
  | some s =>
    by_cases hx : x = id
    · simp [get,hx]
    · simp [get,OrderedMap.get_insert,hx]

theorem update_id : m.update id (fun s => s) = m := by
  unfold update
  cases h : m.get id with
  | none => rfl
  | some s =>
    have hstreams : m.streams.insert id s = m.streams := by
      refine Std.ExtTreeMap.ext_getElem? fun x => ?_
      rw [OrderedMap.get_insert]
      split_ifs with hx
      · rw [hx]
        exact h.symm
      · rfl
    simp only [hstreams]

@[simp] theorem get_insert (s : Stream) (x : ℕ) :
    (m.insert s).get x = if x = s.id then some s else m.get x := by
  simp only [insert,get,OrderedMap.get_insert]

@[simp] theorem get_remove : (m.remove id).get x = if x = id then none else m.get x := by
  unfold remove
  split_ifs with hin hx hx
  · simp [get,hx]
  · simp [get,hx,OrderedMap.get_erase]
  · rw [hx]
    simpa [contains] using hin
  · rfl

@[simp] theorem get_acceptPeerId : (m.acceptPeerId id).2.get x = m.get x := by
  unfold acceptPeerId
  split_ifs <;> rfl

@[simp] theorem get_reserveUpgradeStream : m.reserveUpgradeStream.get x = m.get x := by
  unfold reserveUpgradeStream
  split_ifs <;> rfl

theorem mem_ids {m : StreamMap} {x : ℕ} : x ∈ m.ids ↔ (m.get x).isSome := by
  rw [ids,Std.ExtTreeMap.mem_keys,get,Std.ExtTreeMap.mem_iff_isSome_getElem?]

end StreamMap

end Courierust.H2
