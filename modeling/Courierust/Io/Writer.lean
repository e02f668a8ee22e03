import Mathlib.Tactic

/-!
# The buffered writer

`BufWriter` over a transport that takes what it is offered in any pieces, or refuses it for now.
-/

namespace Courierust.Io

/-- What a write or a flush of the transport does: it takes up to `n + 1` octets, or answers
    `WouldBlock` or `Timeout`. -/
inductive Write where
  | accept (n : ℕ)
  | refuse
  deriving DecidableEq

namespace Write

/-- The loop over short writes: how many of `len` octets are taken. A transport whose script has
    run out refuses. -/
def offer : List Write → ℕ → ℕ × List Write
  | script, 0 => (0, script)
  | .accept n :: script, len + 1 =>
    let (more, script) := offer script (len - n)
    (min len n + 1 + more, script)
  | .refuse :: script, _ + 1 => (0, script)
  | [], _ + 1 => (0, [])

def flush : List Write → Bool × List Write
  | .accept _ :: script => (true, script)
  | .refuse :: script => (false, script)
  | [] => (false, [])

/-- The next writes take `len` octets, and the flush behind them succeeds. -/
def takes : List Write → ℕ → Bool
  | .accept _ :: _, 0 => true
  | .accept n :: script, len + 1 => takes script (len - n)
  | _, _ => false

theorem takes_iff (script : List Write) (len : ℕ) :
    takes script len = true ↔ (offer script len).1 = len ∧ (flush (offer script len).2).1 = true := by
  induction script generalizing len with
  | nil => cases len <;> simp [takes,offer,flush]
  | cons w script ih =>
    cases len with
    | zero => cases w <;> simp [takes,offer,flush]
    | succ len =>
      cases w with
      | refuse => simp [takes,offer]
      | accept n =>
        have hrest : min len n+1+(offer script (len-n)).1 = len+1 ↔
            (offer script (len-n)).1 = len-n := by omega
        simp only [takes,offer,ih,hrest]

end Write

/-- `taken` is what the transport has accepted. -/
structure BufWriter where
  taken : List UInt8 := []
  buf : List UInt8 := []
  capacity : ℕ
  script : List Write

namespace BufWriter

def octets (w : BufWriter) : List UInt8 := w.taken ++ w.buf

/-- `Vec::extend_from_slice`, which at least doubles the capacity when there is no room. -/
def extend (w : BufWriter) (data : List UInt8) : BufWriter :=
  { w with
    buf := w.buf ++ data
    capacity := if w.buf.length + data.length ≤ w.capacity then w.capacity
      else max 8 (max (2 * w.capacity) (w.buf.length + data.length)) }

def flush (w : BufWriter) : Bool × BufWriter :=
  let (n, script) := Write.offer w.script w.buf.length
  let (ok, script) := if n = w.buf.length then Write.flush script else (false, script)
  (ok, { w with taken := w.taken ++ w.buf.take n, buf := w.buf.drop n, script })

def writeLoop (w : BufWriter) (data : List UInt8) : Bool × BufWriter :=
  let (n, script) := Write.offer w.script data.length
  let w := { w with taken := w.taken ++ data.take n, script }
  if n = data.length then (true, w) else (false, w.extend (data.drop n))

/-- `write_all`: when the buffer cannot be flushed to make room, the data is not kept. -/
def writeAll (w : BufWriter) (data : List UInt8) : Bool × BufWriter :=
  if w.buf = [] ∧ w.capacity ≤ data.length then w.writeLoop data
  else if w.capacity < w.buf.length + data.length then
    let (ok, w) := w.flush
    (ok, if ok then w.extend data else w)
  else (true, w.extend data)

variable (w : BufWriter)

@[simp] theorem octets_flush : w.flush.2.octets = w.octets := by
  simp [flush,octets]

@[simp] theorem octets_extend (data : List UInt8) :
    (w.extend data).octets = w.octets ++ data := (List.append_assoc _ _ _).symm

theorem flush_eq_true : w.flush.1 = true ↔ Write.takes w.script w.buf.length = true := by
  rw [Write.takes_iff,flush]
  simp only
  split_ifs with hall <;> simp [hall]

theorem octets_writeLoop (hempty : w.buf = []) (data : List UInt8) :
    (w.writeLoop data).2.octets = w.octets ++ data := by
  simp only [writeLoop]
  split_ifs with hall
  · simp [octets,hempty,hall]
  · simp [octets,extend,hempty]

/-- The data is kept, unless it does not fit behind what is kept and the transport refuses that. -/
theorem octets_writeAll (data : List UInt8) :
    (w.writeAll data).2.octets = w.octets ++ data ↔
      w.buf = [] ∨ data = [] ∨ w.buf.length+data.length ≤ w.capacity ∨
        Write.takes w.script w.buf.length = true := by
  unfold writeAll
  split_ifs with hdirect hfull
  · simp [octets_writeLoop w hdirect.1,hdirect.1]
  · have hkept : w.buf ≠ [] := by
      intro hempty
      rw [hempty,List.length_nil,zero_add] at hfull
      exact hdirect ⟨hempty,hfull.le⟩
    simp only
    rw [← flush_eq_true]
    cases hflush : w.flush.1 with
    | true => simp
    | false => simp [hkept,hfull]
  · simp [not_lt.1 hfull]

end BufWriter

end Courierust.Io
