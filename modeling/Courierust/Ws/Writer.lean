import Courierust.Ws.Frame
import Courierust.Ws.Negotiate

/-!
# Writing frames

Model of `courierust_ws::writer` and of the sinks of `courierust_ws::frame`. What belongs to one
writer alone (compression and masking keys) is its `Encoder`; the sink and the flag that says
that a Close frame has gone out may be shared between writers.
-/

namespace Courierust.Ws

open Deflate (Deflater)

/-! ### Sinks -/

/-- `FrameSink`: one call writes one frame. -/
class FrameSink (S : Type) where
  writeFrame (sink : S) (header payload : List UInt8) (mask : Option MaskKey) :
    Except Error Unit × S

def maskWith (mask : Option MaskKey) (offset : ℕ) (data : List UInt8) : List UInt8 :=
  match mask with
  | some m => m.apply offset data
  | none => data

structure VecSink where
  bytes : List UInt8 := []

instance : FrameSink VecSink where
  writeFrame sink header payload mask :=
    (.ok (), ⟨sink.bytes ++ header ++ maskWith mask 0 payload⟩)

/-- `Write`, as far as a sink needs it. -/
class Write (W : Type) where
  writeAll (writer : W) (data : List UInt8) : Except Error Unit × W

def maskWindow : ℕ := 64 * 1024

def maskWindowMax : ℕ := 1024 * 1024

structure StreamSink (W : Type) where
  writer : W

namespace StreamSink

variable {W : Type} [Write W]

/-- The loop over the windows of a large masked payload; `data` is the payload from `off` on. -/
def writeWindows (m : MaskKey) (off : ℕ) (data : List UInt8) (w : W) :
    Except Error Unit × W :=
  if h : data = [] then (.ok (), w)
  else
    match Write.writeAll w (m.apply off (data.take maskWindowMax)) with
    | (.error e, w) => (.error e, w)
    | (.ok (), w) =>
      have : (data.drop maskWindowMax).length < data.length := by
        have hpos := List.length_pos_iff.mpr h
        rw [List.length_drop, maskWindowMax]
        omega
      writeWindows m (off + (data.take maskWindowMax).length) (data.drop maskWindowMax) w
termination_by data.length
decreasing_by assumption

/-- `write_frame`: small frames in one piece, large ones in windows. -/
def writeFrame (sink : StreamSink W) (header payload : List UInt8) (mask : Option MaskKey) :
    Except Error Unit × StreamSink W :=
  let (result, w) :=
    if header.length + payload.length ≤ maskWindow then
      Write.writeAll sink.writer (header ++ maskWith mask 0 payload)
    else
      match Write.writeAll sink.writer header with
      | (.error e, w) => (.error e, w)
      | (.ok (), w) =>
        match mask with
        | none => Write.writeAll w payload
        | some m => writeWindows m 0 payload w
  (result, ⟨w⟩)

instance : FrameSink (StreamSink W) := ⟨writeFrame⟩

end StreamSink

/-- `OutQueue`, which a reactor drains; `buf` still holds the octets before `pos`. -/
structure OutQueue where
  buf : List UInt8 := []
  pos : ℕ := 0
  limit : ℕ
  closed : Bool := false

namespace OutQueue

def len (q : OutQueue) : ℕ := q.buf.length - q.pos

def close (q : OutQueue) : OutQueue := { q with closed := true, buf := [], pos := 0 }

def reserve (q : OutQueue) (incoming : ℕ) : Except Error Unit × OutQueue :=
  let q :=
    if 0 < q.pos ∧ (q.pos = q.buf.length ∨ q.limit < q.pos + incoming) then
      { q with buf := q.buf.drop q.pos, pos := 0 }
    else q
  if q.limit < q.buf.length + incoming then
    (.error (Error.overflow "websocket: send queue overflow"), q.close)
  else (.ok (), q)

/-- `append`, and `append_masked` for octets that are masked already. -/
def append (q : OutQueue) (bytes : List UInt8) : Except Error Unit × OutQueue :=
  if q.closed then (.error (Error.canceled "websocket: connection is closed"), q)
  else
    match q.reserve bytes.length with
    | (.error e, q) => (.error e, q)
    | (.ok (), q) => (.ok (), { q with buf := q.buf ++ bytes })

/-- `QueueSink::write_frame`, without the wake-up. -/
def writeFrame (q : OutQueue) (header payload : List UInt8) (mask : Option MaskKey) :
    Except Error Unit × OutQueue :=
  if q.limit < q.len + header.length + payload.length then
    (.error (Error.overflow "websocket: send queue overflow"), q.close)
  else
    match q.append header with
    | (.error e, q) => (.error e, q)
    | (.ok (), q) => q.append (maskWith mask 0 payload)

instance : FrameSink OutQueue := ⟨writeFrame⟩

end OutQueue

/-! ### Frames -/

/-- `MaskSource`; the keys of `Random` are a stream of the environment. -/
inductive MaskSource where
  | none
  | fixed (key : MaskKey)
  | random (keys : ℕ → MaskKey)

structure Frame where
  header : FrameHeader
  payload : List UInt8
  mask : Option MaskKey

def Frame.octets (f : Frame) : List UInt8 := f.header.write ++ maskWith f.mask 0 f.payload

structure Encoder where
  compression : Option CompressionParams := none
  deflater : Option Deflater := none
  maskSource : MaskSource := .none
  drawn : ℕ := 0

namespace Encoder

def setCompression (enc : Encoder) (params : Option CompressionParams) : Encoder :=
  { enc with compression := params, deflater := params.map newDeflater }

def nextMask (enc : Encoder) : Option MaskKey × Encoder :=
  match enc.maskSource with
  | .none => (none, enc)
  | .fixed key => (some key, enc)
  | .random keys => (some (keys enc.drawn), { enc with drawn := enc.drawn + 1 })

/-- The part of `write_frame` before the sink. -/
def frame (enc : Encoder) (opcode : OpCode) (payload : List UInt8) (fin rsv1 : Bool) :
    Frame × Encoder :=
  let (mask, enc) := enc.nextMask
  let header : FrameHeader :=
    { fin, rsv1, opcode, masked := mask.isSome, maskKey := mask.getD {},
      payloadLen := payload.length }
  (⟨header, payload, mask⟩, enc)

/-- The part of `send_message` before the sink: compressed when negotiated and shorter. -/
def message (enc : Encoder) (opcode : OpCode) (data : List UInt8) : Frame × Encoder :=
  match enc.deflater with
  | some deflater =>
    match deflater.deflateMessage data with
    | (some comp, deflater) => { enc with deflater := some deflater }.frame opcode comp true true
    | (none, deflater) => { enc with deflater := some deflater }.frame opcode data true false
  | none => enc.frame opcode data true false

end Encoder

def isCharBoundary (text : List UInt8) (i : ℕ) : Bool :=
  i = 0 ∨ i = text.length ∨ ∃ b ∈ text.drop i |>.head?, b < 0x80 ∨ 0xc0 ≤ b

def truncateTo (text : List UInt8) : ℕ → ℕ
  | 0 => 0
  | i + 1 => if isCharBoundary text (i + 1) then i + 1 else truncateTo text i

def closePayload (code : ℕ) (reason : List UInt8) : List UInt8 :=
  let code := if Close.isValidToSend code then code else Close.normal
  let last := truncateTo reason (min reason.length (maxControlPayload - 2))
  BigEndian.beBytes 2 code ++ reason.take last

/-! ### The writer -/

structure FrameWriter (S : Type) where
  sink : S
  encoder : Encoder := {}
  closeFlag : Bool := false

namespace FrameWriter

variable {S : Type} [FrameSink S]

def new (sink : S) (maskSource : MaskSource) (compression : Option CompressionParams) :
    FrameWriter S :=
  { sink, encoder := ({ maskSource } : Encoder).setCompression compression }

def checkControl (payload : List UInt8) : Except Error Unit :=
  if maxControlPayload < payload.length then
    .error (Error.overflow "websocket: control frame payload over 125 bytes")
  else .ok ()

def checkOpen (w : FrameWriter S) : Except Error Unit :=
  if w.closeFlag then .error (Error.canceled "websocket: close frame already sent") else .ok ()

def writeEncoded (w : FrameWriter S) (encoded : Frame × Encoder) :
    Except Error Unit × FrameWriter S :=
  let f := encoded.1
  match FrameSink.writeFrame w.sink f.header.write f.payload f.mask with
  | (.error e, sink) => (.error e, { w with encoder := encoded.2, sink })
  | (.ok (), sink) => (.ok (), { w with encoder := encoded.2, sink })

def writeFrame (w : FrameWriter S) (opcode : OpCode) (payload : List UInt8) (fin rsv1 : Bool) :
    Except Error Unit × FrameWriter S :=
  w.writeEncoded (w.encoder.frame opcode payload fin rsv1)

def sendMessage (w : FrameWriter S) (opcode : OpCode) (data : List UInt8) :
    Except Error Unit × FrameWriter S :=
  match w.checkOpen with
  | .error e => (.error e, w)
  | .ok () => w.writeEncoded (w.encoder.message opcode data)

/-- `send_text`; the text is given by its octets. -/
def sendText (w : FrameWriter S) (text : List UInt8) : Except Error Unit × FrameWriter S :=
  w.sendMessage .text text

def sendBinary (w : FrameWriter S) (data : List UInt8) : Except Error Unit × FrameWriter S :=
  w.sendMessage .binary data

/-- The body of `send_ping` and `send_pong`. -/
def sendControl (w : FrameWriter S) (opcode : OpCode) (payload : List UInt8) :
    Except Error Unit × FrameWriter S :=
  match w.checkOpen with
  | .error e => (.error e, w)
  | .ok () =>
    match checkControl payload with
    | .error e => (.error e, w)
    | .ok () => w.writeFrame opcode payload true false

def sendPing (w : FrameWriter S) (payload : List UInt8) : Except Error Unit × FrameWriter S :=
  w.sendControl .ping payload

def sendPong (w : FrameWriter S) (payload : List UInt8) : Except Error Unit × FrameWriter S :=
  w.sendControl .pong payload

def sendClose (w : FrameWriter S) (code : ℕ) (reason : List UInt8) :
    Except Error Unit × FrameWriter S :=
  if w.closeFlag then (.ok (), w)
  else
    match w.writeFrame .close (closePayload code reason) true false with
    | (.error e, w) => (.error e, w)
    | (.ok (), w) => (.ok (), { w with closeFlag := true })

end FrameWriter

/-! ### Sinks that take everything -/

/-- A sink that takes every frame: the octets it holds grow by those of the frame. -/
class ReliableSink (S : Type) extends FrameSink S where
  written : S → List UInt8
  writeFrame_ok (sink : S) (header payload : List UInt8) (mask : Option MaskKey) :
    (writeFrame sink header payload mask).1 = .ok () ∧
      written (writeFrame sink header payload mask).2 =
        written sink ++ (header ++ maskWith mask 0 payload)

instance : ReliableSink VecSink where
  written := VecSink.bytes
  writeFrame_ok _ _ _ _ := ⟨rfl, List.append_assoc _ _ _⟩

structure Pipe where
  bytes : List UInt8 := []

instance : Write Pipe where
  writeAll pipe data := (.ok (), ⟨pipe.bytes ++ data⟩)

namespace StreamSink

theorem writeWindows_pipe (m : MaskKey) (off : ℕ) (data : List UInt8) (pipe : Pipe) :
    writeWindows m off data pipe = (.ok (),⟨pipe.bytes ++ m.apply off data⟩) := by
  fun_induction writeWindows m off data pipe with
  | case1 => simp [MaskKey.apply_eq,MaskKey.mask]
  | case2 off data pipe hne e w hw => cases hw
  | case3 off data pipe hne w hw _ ih =>
    cases hw
    rw [ih,List.append_assoc,← MaskKey.apply_append,List.take_append_drop]

/-- In windows or in one piece, a frame is written as its header and its masked payload. -/
theorem writeFrame_pipe (sink : StreamSink Pipe) (header payload : List UInt8)
    (mask : Option MaskKey) : sink.writeFrame header payload mask =
      (.ok (),⟨⟨sink.writer.bytes ++ (header ++ maskWith mask 0 payload)⟩⟩) := by
  simp only [writeFrame]
  split_ifs with hsmall
  · rfl
  · cases mask with
    | none => simp [Write.writeAll,maskWith]
    | some m => simp [Write.writeAll,maskWith,writeWindows_pipe]

end StreamSink

instance : ReliableSink (StreamSink Pipe) where
  written sink := sink.writer.bytes
  writeFrame_ok sink header payload mask := by
    rw [show FrameSink.writeFrame sink header payload mask = _ from
      StreamSink.writeFrame_pipe sink header payload mask]
    exact ⟨rfl, rfl⟩

/-- Every octet is masked by its position, whatever the pieces; and the windows of a stream leave
no trace. -/
theorem masking_exact (key : MaskKey) (offset : ℕ) :
    (∀ data, key.apply offset data = data.mapIdx fun i b => b ^^^ key.get (offset + i)) ∧
    (∀ pieces, key.applyPieces offset pieces = key.apply offset pieces.flatten) ∧
    (∀ data, key.apply offset (key.apply offset data) = data) ∧
    ∀ (before header payload : List UInt8) (mask : Option MaskKey),
      (FrameSink.writeFrame (StreamSink.mk (Pipe.mk before)) header payload mask).1 = .ok () ∧
      (FrameSink.writeFrame (StreamSink.mk (Pipe.mk before)) header payload mask).2.writer.bytes =
        (FrameSink.writeFrame (VecSink.mk before) header payload mask).2.bytes := by
  refine ⟨key.apply_eq offset,key.applyPieces_eq offset,key.apply_apply offset,?_⟩
  intro before header payload mask
  obtain ⟨hok,hstream⟩ :=
    ReliableSink.writeFrame_ok (StreamSink.mk (Pipe.mk before)) header payload mask
  obtain ⟨-,hvec⟩ := ReliableSink.writeFrame_ok (VecSink.mk before) header payload mask
  exact ⟨hok,hstream.trans hvec.symm⟩

theorem FrameWriter.writeEncoded_ok {S : Type} [ReliableSink S] (w : FrameWriter S)
    (encoded : Frame × Encoder) :
    ∃ sink, w.writeEncoded encoded = (.ok (),{ w with encoder := encoded.2, sink }) ∧
      ReliableSink.written sink = ReliableSink.written w.sink ++ encoded.1.octets := by
  have h := ReliableSink.writeFrame_ok w.sink encoded.1.header.write encoded.1.payload
    encoded.1.mask
  rw [writeEncoded]
  generalize FrameSink.writeFrame w.sink encoded.1.header.write encoded.1.payload
    encoded.1.mask = r at h ⊢
  obtain ⟨result,sink⟩ := r
  obtain ⟨rfl,hwritten⟩ := h
  exact ⟨sink,rfl,hwritten⟩

end Courierust.Ws
