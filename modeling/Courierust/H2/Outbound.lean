import Courierust.H2.Ids
import Courierust.Io.Writer

/-!
# The octets a connection writes

What `flush_outbound` stages goes through a buffered writer to a transport that may refuse it.
-/

namespace Courierust.H2

open Io (BufWriter Write)
open Http (ascii)

def CLIENT_PREFACE : List UInt8 := ascii "PRI * HTTP/2.0\r\n\r\nSM\r\n\r\n"

/-- A connection with its writer. The staging buffer is empty between two calls; `staged` has
    every octet that was ever in it, and nothing reads it. -/
structure Sender where
  conn : Conn
  prefacePending : Bool
  flushPending : Bool := false
  writer : BufWriter
  staged : List UInt8 := []

namespace Sender

/-- `drain_out`: the staging buffer is cleared, whatever the writer says. -/
def drainOut (s : Sender) (out : List UInt8) : Sender :=
  if out = [] ∧ s.flushPending = false then s
  else
    let (ok, writer) := if out = [] then s.writer.flush
      else
        let (ok, writer) := s.writer.writeAll out
        if ok then writer.flush else (ok, writer)
    { s with writer, flushPending := !ok, staged := s.staged ++ out }

def output (s : Sender) : Op → List UInt8
  | .flush =>
    if s.conn.closed then []
    else (if s.prefacePending then CLIENT_PREFACE else []) ++
      s.conn.flushOutbound.1.flatMap Frame.encode
  | .flushFinal => s.conn.flushFinal.1.flatMap Frame.encode
  | _ => []

def step (s : Sender) (op : Op) : Sender :=
  match op with
  | .flush =>
    if s.conn.closed then s
    else { s with conn := s.conn.step op, prefacePending := false }.drainOut (s.output op)
  | .flushFinal => { s with conn := s.conn.step op }.drainOut (s.output op)
  | op => { s with conn := s.conn.step op }

def start (config : Config) (upgrade : Bool) (capacity : ℕ) (script : List Write) : Sender :=
  { conn := Conn.start config upgrade
    prefacePending := config.client
    writer := { capacity, script } }

def Lossless (s : Sender) : Prop := s.writer.octets = s.staged

def Fits (s : Sender) (op : Op) : Prop :=
  s.writer.buf = [] ∨ s.output op = [] ∨
    s.writer.buf.length + (s.output op).length ≤ s.writer.capacity ∨
      Write.takes s.writer.script s.writer.buf.length = true

theorem lossless_drainOut {s : Sender} (h : s.Lossless) (out : List UInt8) :
    (s.drainOut out).Lossless ↔ s.writer.buf = [] ∨ out = [] ∨
      s.writer.buf.length+out.length ≤ s.writer.capacity ∨
        Write.takes s.writer.script s.writer.buf.length = true := by
  have hkept : s.writer.octets = s.staged := h
  unfold drainOut
  split_ifs with hidle hnone
  · simp [h,hidle.1]
  · simp [Lossless,hnone,BufWriter.octets_flush,hkept]
  · rw [← BufWriter.octets_writeAll,hkept,Lossless]
    simp only
    cases (s.writer.writeAll out).1 <;> simp

theorem lossless_step {s : Sender} (h : s.Lossless) (op : Op) :
    (s.step op).Lossless ↔ s.Fits op := by
  have hquiet : ∀ conn, s.output op = [] → (Lossless { s with conn := conn } ↔ s.Fits op) :=
    fun conn hnone => ⟨fun _ => .inr (.inl hnone),fun _ => h⟩
  cases op with
  | flush =>
    simp only [step]
    split_ifs with hclosed
    · exact hquiet s.conn (by simp [output,hclosed])
    · have hs : Lossless { s with conn := s.conn.step .flush, prefacePending := false } := h
      exact lossless_drainOut hs _
  | flushFinal =>
    have hs : Lossless { s with conn := s.conn.step .flushFinal } := h
    exact lossless_drainOut hs _
  | _ => exact hquiet _ rfl

end Sender

/-- Nothing is lost in a run, if and only if whatever is staged in it fits. -/
theorem outbound_lossless_iff (config : Config) (upgrade : Bool) (capacity : ℕ)
    (script : List Write) (ops : List Op) :
    (∀ ops', ops' <+: ops →
      (Run.run Sender.step (.start config upgrade capacity script) ops').Lossless) ↔
      Run.Along Sender.step Sender.Fits (.start config upgrade capacity script) ops := by
  have hstart : (Sender.start config upgrade capacity script).Lossless := rfl
  exact Run.along_iff (I := Sender.Lossless) (fun _ h => h)
    (fun _ op h _ hfits => (Sender.lossless_step h op).2 hfits)
    (fun _ op h _ hnext => (Sender.lossless_step h op).1 hnext) hstart
    (Run.along_of_forall (fun _ _ => trivial) _ ops)

theorem goaway_waits (debug : List UInt8) :
    let s := Run.run Sender.step (.start {} false (16*1024) []) [.flush, .sendGoaway .noError debug]
    s.Lossless ∧ s.writer.buf.length = 75 ∧ s.writer.capacity = 16*1024 ∧ s.writer.script = [] ∧
      (s.output .flush).length = 17+debug.length := by
  refine ⟨rfl,rfl,rfl,rfl,?_⟩
  have hframes : (Run.run Sender.step (.start {} false (16*1024) [])
      [.flush,.sendGoaway .noError debug]).output .flush =
        [Frame.goAway 0 .noError debug].flatMap Frame.encode := rfl
  rw [hframes]
  simp [Frame.encode,Frame.withHeader,encodeHeader,putU32,putU16]
  omega

/-- The client preface waits in the writer, and a GOAWAY that does not fit behind it is gone. -/
theorem outbound_loses_goaway :
    ¬ (Run.run Sender.step (.start {} false (16 * 1024) []) [.flush,
      .sendGoaway .noError (List.replicate (16 * 1024) 0), .flush]).Lossless := by
  have hlen : (List.replicate (16*1024) (0 : UInt8)).length = 16*1024 := List.length_replicate
  generalize List.replicate (16*1024) (0 : UInt8) = debug at hlen ⊢
  obtain ⟨hlossless,hbuf,hcapacity,hscript,houtput⟩ := goaway_waits debug
  refine (Sender.lossless_step hlossless .flush).not.2 ?_
  rintro (hempty | hnone | hroom | htakes)
  · rw [hempty] at hbuf
    cases hbuf
  · rw [hnone,List.length_nil] at houtput
    omega
  · omega
  · cases htakes

end Courierust.H2
