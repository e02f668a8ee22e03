import Courierust.Ws.Octets
import Courierust.Ws.Shared

/-!
# From a writer to a session

What one side sends, the other side's session hands on: the frames that a `FrameWriter` puts on
the wire are read as the messages and control frames they were made from, in order, masked or not
and compressed or not. A message of more than 2 ^ 32 octets that is compressed with less than the
largest window can be an exception, since the compressor's positions wrap there.
-/

namespace Courierust.Ws

open List Receiver
open Deflate (Deflater Inflater wrapMessage)
open Http (Utf8 isUtf8)
open Io (BufReader)

/-! ### Calls and what they arrive as -/

namespace Call

def event : Call → Option Event
  | .text bytes => some (.text bytes)
  | .binary data => some (.binary data)
  | .ping payload => if maxControlPayload < payload.length then none else some (.ping payload)
  | .pong payload => if maxControlPayload < payload.length then none else some (.pong payload)
  | .close _ _ => none

def data : Call → List UInt8
  | .text bytes => bytes
  | .binary data => data
  | _ => []

/-- A call other than `send_close` with arguments of their types: a text is UTF-8, and a slice
has at most `isize::MAX` octets. -/
def Sendable : Call → Prop
  | .text bytes => isUtf8 bytes = true ∧ bytes.length < 2 ^ 63
  | .binary data => data.length < 2 ^ 63
  | .ping _ => True
  | .pong _ => True
  | .close _ _ => False

end Call

variable {S T : Type}

def FrameWriter.run [FrameSink S] (w : FrameWriter S) (calls : List Call) : FrameWriter S :=
  calls.foldl (fun w call => (w.call call).2) w

/-- The limits of a session are kept: those of a frame by what goes on the wire, those of a message
by what is sent. -/
def Within (cfg : SessionConfig) : Encoder → List Call → Prop
  | _, [] => True
  | enc, call :: calls =>
    match enc.encode call with
    | .error _ => Within cfg enc calls
    | .ok (f, enc) => f.payload.length ≤ cfg.maxFrame ∧ call.data.length ≤ cfg.maxMessage ∧
        Within cfg enc calls

/-- A client masks its frames and a server does not; `role` is the role of the receiver. -/
def Masks : Role → MaskSource → Prop
  | .server, source => source ≠ .none
  | .client, source => source = .none

/-! ### One frame -/

structure Frame.Described (f : Frame) : Prop where
  legal : f.header.Legal
  length : f.header.payloadLen = f.payload.length
  masked : f.header.masked = f.mask.isSome
  key : f.header.maskKey = f.mask.getD {}

def Frame.parsed (f : Frame) : FrameHeader := { f.header with headerLen := f.header.write.length }

variable {payload comp : List UInt8} {polled : List (Except Error Event)} {inf : Inflater}
variable {d d' : Deflater} {header h : FrameHeader} {w : FrameWriter S} {rx' : Receiver T}
variable {rsv1 : Bool}

variable {enc : Encoder} {opcode : OpCode} {f : Frame} {rx rx₁ : Receiver T}

theorem Frame.Described.unmask (h : f.Described) :
    (if f.parsed.masked then f.parsed.maskKey.apply 0 (maskWith f.mask 0 f.payload)
      else maskWith f.mask 0 f.payload) = f.payload := by
  simp only [Frame.parsed,h.masked,h.key]
  cases f.mask with
  | none => rfl
  | some key => exact key.apply_apply 0 f.payload

theorem length_maskWith (mask : Option MaskKey) (payload : List UInt8) :
    (maskWith mask 0 payload).length = payload.length := by
  cases mask with
  | none => rfl
  | some key => exact key.length_apply 0 payload

theorem Encoder.described_frame (enc : Encoder) (hlen : payload.length < 2^63)
    (hcontrol : opcode.isControl = true → payload.length ≤ maxControlPayload) (rsv1 : Bool) :
    (enc.frame opcode payload true rsv1).1.Described := by
  refine ⟨⟨hlen,?_,fun h => ⟨rfl,hcontrol h⟩⟩,rfl,rfl,rfl⟩
  intro hmasked
  simp only [frame] at hmasked ⊢
  cases hmask : enc.nextMask.1 with
  | none => rfl
  | some key =>
    rw [hmask] at hmasked
    cases hmasked

namespace Receiver

variable [FrameSink T]

variable {f : Frame}

variable {rx : Receiver T}

theorem flowFrom_frame {rx₂ : Receiver T} (hf : f.Described)
    (hphase : rx.phase = .header []) (hbegin : rx.beginFrame f.parsed = (.ok (),rx₁))
    (haccept : rx₁.acceptPayload f.parsed 0 (maskWith f.mask 0 f.payload) = (.ok (),rx₂))
    (closed : Bool) (bs : List UInt8) : flowFrom closed (f.octets ++ bs) rx =
      emit (flow closed bs)
        (({ rx₂ with phase := .payload f.parsed f.payload.length } : Receiver T).finishFrame
          f.parsed) := by
  have hparse : FrameHeader.parse f.header.write = .ok (some f.parsed) := by
    have h := FrameHeader.parse_write hf.legal []
    rwa [append_nil] at h
  have hhint : headerLenHint ([] ++ f.header.write) = some ([] ++ f.header.write).length := by
    rw [nil_append,← append_nil f.header.write,f.header.headerLenHint_write,
      append_nil]
  have hne : f.header.write ≠ [] := by
    exact cons_ne_nil _ _
  have hsame : ({ rx with phase := .header [] } : Receiver T) = rx := by rw [← hphase]
  have htake : rx.takeHeader f.header.write = rx₁.settle := by
    rw [takeHeader,hparse]
    dsimp only
    rw [hsame,hbegin]
  have hle : 0+(maskWith f.mask 0 f.payload).length ≤ max 0 f.parsed.payloadLen := by
    rw [length_maskWith,Nat.zero_add]
    exact (hf.length ▸ le_rfl : f.payload.length ≤ f.header.payloadLen).trans (le_max_right _ _)
  rw [Frame.octets,append_assoc,flowFrom_header hphase hhint hne,nil_append,htake,
    ← flowFrom,flowFrom_piece (Session.beginFrame_phase hbegin) haccept hle,length_maskWith,
    Nat.zero_add,flowFrom]
  exact congrArg _ (if_pos hf.length.le)

omit [FrameSink T] in
theorem beginFrame_control (hreserved : h.checkReserved rx.cfg.compression.isSome = .ok ())
    (hmask : checkMask rx.cfg.role h = .ok ()) (hop : h.opcode.isControl = true)
    (hframe : h.payloadLen ≤ rx.cfg.maxFrame) :
    rx.beginFrame h = (.ok (),{ rx with ctl := [], phase := .payload h 0 }) := by
  rw [beginFrame,hreserved]
  rw [hmask]
  rw [if_pos hop,if_neg (Nat.not_lt.2 hframe)]

omit [FrameSink T] in
theorem beginFrame_data (hreserved : h.checkReserved rx.cfg.compression.isSome = .ok ())
    (hmask : checkMask rx.cfg.role h = .ok ()) (hop : h.opcode = .text ∨ h.opcode = .binary)
    (hidle : rx.msgOpcode = none) (hframe : h.payloadLen ≤ rx.cfg.maxFrame)
    (hmessage : h.payloadLen ≤ rx.cfg.maxMessage) : rx.beginFrame h =
      (.ok (),{ rx with
        msg := [], utf8 := .start, msgCompressed := h.rsv1, fragments := 0
        msgOpcode := some h.opcode, phase := .payload h 0 }) := by
  have hopen : rx.openMessage h = .ok { rx with
      msg := [], utf8 := .start, msgCompressed := h.rsv1, fragments := 0 } := by
    rw [openMessage,hidle]
    rcases hop with hop | hop <;> rw [hop]
  have hcontrol : ¬ h.opcode.isControl = true := by
    rcases hop with hop | hop <;> rw [hop] <;> decide
  have hlimit : ¬ (rx.cfg.maxFrame < h.payloadLen ∨
      rx.cfg.maxMessage < satAdd ([] : List UInt8).length h.payloadLen) := by
    rw [satAdd,length_nil]
    omega
  have hfragments : ¬ (rx.cfg.maxFragments ≠ 0 ∧ rx.cfg.maxFragments ≤ 0) := by omega
  rw [beginFrame,hreserved]
  rw [hmask]
  rw [if_neg hcontrol,hopen]
  dsimp only
  rw [acceptData,if_neg (by rw [hidle]; simp),if_neg hlimit,if_neg hfragments,hidle]
  rfl

omit [FrameSink T] in
theorem acceptPayload_control (rx : Receiver T) (hf : f.Described)
    (hop : f.header.opcode.isControl = true) :
    rx.acceptPayload f.parsed 0 (maskWith f.mask 0 f.payload) =
      (.ok (),{ rx with ctl := rx.ctl ++ f.payload }) := by
  simp only [acceptPayload]
  rw [hf.unmask]
  exact if_pos hop

omit [FrameSink T] in
theorem acceptPayload_data (hf : f.Described) (hop : f.header.opcode.isControl = false)
    (htext : rx.msgOpcode = some .text → rx.msgCompressed = false →
      rx.utf8 = .start ∧ isUtf8 f.payload = true) :
    rx.acceptPayload f.parsed 0 (maskWith f.mask 0 f.payload) =
      (.ok (),{ rx with msg := rx.msg ++ f.payload }) := by
  have hcontrol : ¬ f.parsed.opcode.isControl = true := by
    rw [show f.parsed.opcode = f.header.opcode from rfl,hop]
    decide
  simp only [acceptPayload]
  rw [hf.unmask,if_neg hcontrol]
  by_cases hplain : rx.msgOpcode = some .text ∧ rx.msgCompressed = false
  · obtain ⟨hstart,hvalid⟩ := htext hplain.1 hplain.2
    rw [if_pos hplain,feed_eq,hstart,(isUtf8_iff f.payload 0).1 hvalid]
  · rw [if_neg hplain]

theorem finishFrame_plain
    (hop : header.opcode = .text ∨ header.opcode = .binary) (hfin : header.fin = true)
    (hopcode : rx.msgOpcode = some header.opcode) (hplain : rx.msgCompressed = false)
    (hutf8 : rx.utf8 = .start) (htext : header.opcode = .text → isUtf8 rx.msg = true) :
    rx.finishFrame header =
      (.ok (some (if header.opcode = .text then .text rx.msg else .binary rx.msg)),
        { rx with phase := .header [], msgOpcode := none, msgCompressed := false, msg := [] }) := by
  rcases hop with hop | hop <;>
    simp [finishFrame,finishData,finishMessage,hop,hfin,hopcode,hplain,hutf8,htext]

theorem finishFrame_compressed
    (hop : header.opcode = .text ∨ header.opcode = .binary) (hfin : header.fin = true)
    (hopcode : rx.msgOpcode = some header.opcode) (hcompressed : rx.msgCompressed = true)
    (hinf : rx.inflater = some inf) :
    rx.finishFrame header =
      match inf.inflateMessage rx.msg rx.cfg.maxMessage with
      | (.error e,inf) => ({ rx with
          phase := .header [], msgOpcode := none, msgCompressed := false
          inflater := some inf } : Receiver T).fatal e
      | (.ok bytes,inf) => ({ rx with
          phase := .header [], msgOpcode := none, msgCompressed := false
          inflater := some inf } : Receiver T).finishMessage header.opcode true bytes := by
  rcases hinflate : inf.inflateMessage rx.msg rx.cfg.maxMessage with ⟨e | bytes,inf'⟩ <;>
    rcases hop with hop | hop <;>
    simp [finishFrame,finishData,hop,hfin,hopcode,hcompressed,hinf,hinflate]

end Receiver

/-! ### The two sides -/

structure Linked (enc : Encoder) (rx : Receiver T) : Prop where
  masks : Masks rx.cfg.role enc.maskSource
  deflater : ∀ d, enc.deflater = some d → d.Valid ∧ rx.cfg.compression.isSome = true ∧
    ∃ inf, rx.inflater = some inf ∧ d.windowBits ≤ inf.windowBits
  phase : rx.phase = .header []
  idle : rx.msgOpcode = none

namespace Encoder

theorem nextMask_snd (enc : Encoder) : enc.nextMask.2.maskSource = enc.maskSource ∧
    enc.nextMask.2.deflater = enc.deflater := by
  unfold nextMask
  split <;> exact ⟨rfl,rfl⟩

theorem checkMask_frame {role : Role} (h : Masks role enc.maskSource)
    (opcode : OpCode) (payload : List UInt8) (rsv1 : Bool) :
    Receiver.checkMask role (enc.frame opcode payload true rsv1).1.parsed = .ok () := by
  have hmasked : (enc.frame opcode payload true rsv1).1.parsed.masked = enc.nextMask.1.isSome := rfl
  cases role with
  | server =>
    have hsome : enc.nextMask.1.isSome = true := by
      unfold nextMask
      split
      · next hnone => exact absurd hnone h
      · rfl
      · rfl
    rw [Receiver.checkMask,hmasked,hsome]
    rfl
  | client =>
    have hnone : enc.nextMask.1.isSome = false := by
      rw [nextMask,show enc.maskSource = .none from h]
      rfl
    rw [Receiver.checkMask,hmasked,hnone]
    rfl

theorem checkReserved_frame (enc : Encoder) (payload : List UInt8)
    {allowed : Bool} (h : rsv1 = true → allowed = true ∧ opcode.isData = true) :
    (enc.frame opcode payload true rsv1).1.parsed.checkReserved allowed = .ok () := by
  cases rsv1 with
  | false => rfl
  | true =>
    obtain ⟨rfl,hdata⟩ := h rfl
    simp [FrameHeader.checkReserved,Frame.parsed,frame,hdata]

end Encoder

def Arrives [FrameSink T] (f : Frame) (enc : Encoder) (rx : Receiver T) (event : Event) : Prop :=
  ∃ rx' : Receiver T, Linked enc rx' ∧ rx'.cfg = rx.cfg ∧ ∀ closed bs,
    Receiver.flowFrom closed (f.octets ++ bs) rx = .ok event :: Receiver.flowFrom closed bs rx'

namespace Linked

variable {enc : Encoder} {rx : Receiver T}

theorem frame (h : Linked enc rx) (opcode : OpCode) (payload : List UInt8) (rsv1 : Bool) :
    Linked (enc.frame opcode payload true rsv1).2 rx := by
  obtain ⟨hmask,hdeflater⟩ := enc.nextMask_snd
  refine ⟨?_,?_,h.phase,h.idle⟩
  · rw [show (enc.frame opcode payload true rsv1).2.maskSource = _ from hmask]
    exact h.masks
  · rw [show (enc.frame opcode payload true rsv1).2.deflater = _ from hdeflater]
    exact h.deflater

variable {opcode : OpCode} {data : List UInt8}

theorem deflated (h : Linked enc rx) (hd : enc.deflater = some d)
    {comp : Option (List UInt8)} (hcode : d.deflateMessage data = (comp,d')) :
    Linked { enc with deflater := some d' } rx := by
  obtain ⟨hvalid,hallowed,inf,hinf,hbits⟩ := h.deflater d hd
  have hkept := hvalid.deflateMessage data
  rw [hcode] at hkept
  refine ⟨h.masks,?_,h.phase,h.idle⟩
  rintro _ ⟨⟩
  exact ⟨hkept.1,hallowed,inf,hinf,hkept.2.1.trans_le hbits⟩

theorem receiver (h : Linked enc rx) (hcfg : rx'.cfg = rx.cfg)
    (hinflater : rx'.inflater.map Inflater.windowBits = rx.inflater.map Inflater.windowBits)
    (hphase : rx'.phase = .header []) (hidle : rx'.msgOpcode = none) : Linked enc rx' := by
  refine ⟨hcfg ▸ h.masks,?_,hphase,hidle⟩
  intro d hd
  obtain ⟨hvalid,hallowed,inf,hinf,hbits⟩ := h.deflater d hd
  rw [hinf] at hinflater
  obtain ⟨inf',hinf',hbits'⟩ := Option.map_eq_some_iff.1 hinflater
  exact ⟨hvalid,hcfg ▸ hallowed,inf',hinf',hbits.trans hbits'.ge⟩

variable [FrameSink T]

theorem arrives {event : Event} (hflow : ∀ closed bs, Receiver.flowFrom closed (f.octets ++ bs) rx =
      Receiver.emit (Receiver.flow closed bs) (rx₁.finishFrame f.parsed))
    (hfinish : rx₁.finishFrame f.parsed = (.ok (some event),rx')) (h : Linked enc rx')
    (hcfg : rx'.cfg = rx.cfg) : Arrives f enc rx event := by
  refine ⟨rx',h,hcfg,?_⟩
  intro closed bs
  rw [hflow,hfinish,Receiver.emit,flowFrom_of_settled (settle_header h.phase)]

theorem flow_control (h : Linked enc rx) (hop : opcode.isControl = true)
    (hlen : payload.length ≤ maxControlPayload) (hframe : payload.length ≤ rx.cfg.maxFrame)
    (closed : Bool) (bs : List UInt8) :
    Receiver.flowFrom closed ((enc.frame opcode payload true false).1.octets ++ bs) rx =
      Receiver.emit (Receiver.flow closed bs)
        (({ rx with
            ctl := payload
            phase := .payload (enc.frame opcode payload true false).1.parsed payload.length } :
          Receiver T).finishFrame (enc.frame opcode payload true false).1.parsed) := by
  have hf : (enc.frame opcode payload true false).1.Described :=
    enc.described_frame (hlen.trans_lt (by decide)) (fun _ => hlen) false
  exact flowFrom_frame hf h.phase
    (beginFrame_control (enc.checkReserved_frame payload fun hrsv1 => by cases hrsv1)
      (Encoder.checkMask_frame h.masks opcode payload false) hop (hf.length.trans_le hframe))
    (acceptPayload_control _ hf hop) closed bs

theorem flow_data (h : Linked enc rx) (hop : opcode = .text ∨ opcode = .binary)
    (hrsv1 : rsv1 = true → rx.cfg.compression.isSome = true)
    (htext : opcode = .text → rsv1 = false → isUtf8 payload = true)
    (hlen : payload.length < 2^63) (hframe : payload.length ≤ rx.cfg.maxFrame)
    (hmessage : payload.length ≤ rx.cfg.maxMessage) (closed : Bool) (bs : List UInt8) :
    Receiver.flowFrom closed ((enc.frame opcode payload true rsv1).1.octets ++ bs) rx =
      Receiver.emit (Receiver.flow closed bs)
        (({ rx with
            msg := payload, utf8 := .start, msgCompressed := rsv1, fragments := 0
            msgOpcode := some opcode
            phase := .payload (enc.frame opcode payload true rsv1).1.parsed payload.length } :
          Receiver T).finishFrame (enc.frame opcode payload true rsv1).1.parsed) := by
  have hdata : opcode.isControl = false ∧ opcode.isData = true := by
    rcases hop with rfl | rfl <;> exact ⟨rfl,rfl⟩
  have hf := enc.described_frame hlen (fun hcontrol => by cases hdata.1.symm.trans hcontrol) rsv1
  exact flowFrom_frame hf h.phase
    (beginFrame_data (enc.checkReserved_frame payload fun hset => ⟨hrsv1 hset,hdata.2⟩)
      (Encoder.checkMask_frame h.masks opcode payload rsv1) hop h.idle (hf.length.trans_le hframe)
      (hf.length.trans_le hmessage))
    (acceptPayload_data hf hdata.1 fun hop' hplain =>
      ⟨rfl,htext (Option.some.inj hop') hplain⟩) closed bs

theorem message_plain (h : Linked enc rx) (hop : opcode = .text ∨ opcode = .binary)
    (htext : opcode = .text → isUtf8 data = true) (hlen : data.length < 2^63)
    (hframe : data.length ≤ rx.cfg.maxFrame) (hmessage : data.length ≤ rx.cfg.maxMessage) :
    Arrives (enc.frame opcode data true false).1 (enc.frame opcode data true false).2 rx
      (if opcode = .text then .text data else .binary data) := by
  refine arrives (h.flow_data hop (fun hrsv1 => by cases hrsv1) (fun ht _ => htext ht) hlen hframe hmessage)
    (finishFrame_plain hop rfl rfl rfl rfl htext) ?_ rfl
  exact (h.frame opcode data false).receiver rfl rfl rfl rfl

theorem message_compressed (h : Linked enc rx)
    (hd : enc.deflater = some d) (hcode : d.deflateMessage data = (some comp,d'))
    (hop : opcode = .text ∨ opcode = .binary) (htext : opcode = .text → isUtf8 data = true)
    (hlen : data.length < 2^63) (hsmall : 15 ≤ d.windowBits ∨ data.length ≤ 2^32)
    (hframe : comp.length ≤ rx.cfg.maxFrame)
    (hmessage : data.length ≤ rx.cfg.maxMessage) : let enc' := { enc with deflater := some d' }
    Arrives (enc'.frame opcode comp true true).1 (enc'.frame opcode comp true true).2 rx
      (if opcode = .text then .text data else .binary data) := by
  intro enc'
  obtain ⟨hvalid,hallowed,inf,hinf,hbits⟩ := h.deflater d hd
  have hshort := (Deflate.deflateMessage_eq hcode).2
  have h' : Linked enc' rx := h.deflated hd hcode
  have hfinish : ∀ rx₁ : Receiver T, rx₁.msgOpcode = some opcode → rx₁.msgCompressed = true →
      rx₁.inflater = some inf → rx₁.msg = comp → rx₁.cfg = rx.cfg →
      rx₁.finishFrame (enc'.frame opcode comp true true).1.parsed =
        (.ok (some (if opcode = .text then .text data else .binary data)),
          { rx₁ with
            phase := .header [], msgOpcode := none, msgCompressed := false
            inflater := some (inf.absorb data) }) := by
    intro rx₁ hopcode hcompressed hinf₁ hmsg hcfg
    rw [finishFrame_compressed hop rfl hopcode hcompressed hinf₁,hmsg,hcfg,
      Deflate.inflateMessage_deflateMessage hvalid hcode (hsmall.imp_left (·.trans hbits)) hbits
        hmessage]
    rcases hop with rfl | rfl
    · have hutf8 := htext rfl
      simp [Receiver.finishMessage,validate_eq,hutf8,Encoder.frame,Frame.parsed]
    · rfl
  refine arrives (h'.flow_data hop (fun _ => hallowed) (fun _ hplain => by cases hplain) ?_ hframe ?_)
    (hfinish _ rfl rfl hinf rfl rfl) ?_ rfl
  · exact hshort.trans hlen
  · exact hshort.le.trans hmessage
  · refine (h'.frame opcode comp true).receiver rfl ?_ rfl rfl
    rw [hinf]
    exact congrArg some (inf.windowBits_absorb data)

end Linked

/-! ### Replies -/

theorem sendPong_ok [ReliableSink T] {w : FrameWriter T} (hopen : w.closeFlag = false)
    (hlen : payload.length ≤ maxControlPayload) :
    ∃ w', w.sendPong payload = (.ok (),w') := by
  obtain ⟨sink,hwrite,-⟩ := w.writeEncoded_ok (w.encoder.frame .pong payload true false)
  rw [FrameWriter.sendPong,FrameWriter.sendControl,FrameWriter.checkOpen,hopen,
    FrameWriter.checkControl,if_neg (Nat.not_lt.2 hlen)]
  exact ⟨_,hwrite⟩

theorem finishPing_ok [ReliableSink T] (rx : Receiver T)
    (hlen : rx.ctl.length ≤ maxControlPayload) :
    ∃ writer, rx.finishPing = (.ok (some (.ping rx.ctl)),{ rx with ctl := [], writer }) := by
  simp only [Receiver.finishPing]
  split_ifs with hreply
  · obtain ⟨writer,hsend⟩ := sendPong_ok hreply.2.2 hlen
    rw [hsend]
    exact ⟨writer,rfl⟩
  · exact ⟨rx.writer,rfl⟩

/-! ### One call -/

namespace Linked

variable [ReliableSink T] {enc enc' : Encoder} {rx : Receiver T}

theorem ping (h : Linked enc rx)
    (hlen : payload.length ≤ maxControlPayload) (hframe : payload.length ≤ rx.cfg.maxFrame) :
    Arrives (enc.frame .ping payload true false).1 (enc.frame .ping payload true false).2 rx
      (.ping payload) := by
  obtain ⟨writer,hfinish⟩ := finishPing_ok { rx with ctl := payload, phase := .header [] } hlen
  refine arrives (h.flow_control rfl hlen hframe) hfinish ?_ rfl
  exact (h.frame .ping payload false).receiver rfl rfl rfl h.idle

theorem pong (h : Linked enc rx)
    (hlen : payload.length ≤ maxControlPayload) (hframe : payload.length ≤ rx.cfg.maxFrame) :
    Arrives (enc.frame .pong payload true false).1 (enc.frame .pong payload true false).2 rx
      (.pong payload) := by
  refine arrives (h.flow_control rfl hlen hframe) rfl ?_ rfl
  exact (h.frame .pong payload false).receiver rfl rfl rfl h.idle

theorem message (h : Linked enc rx) {data : List UInt8}
    (hop : opcode = .text ∨ opcode = .binary) (htext : opcode = .text → isUtf8 data = true)
    (hlen : data.length < 2^63)
    (hsmall : ∀ bits ∈ enc.deflater.map (·.windowBits), 15 ≤ bits ∨ data.length ≤ 2^32)
    (hframe : (enc.message opcode data).1.payload.length ≤ rx.cfg.maxFrame)
    (hmessage : data.length ≤ rx.cfg.maxMessage) :
    Arrives (enc.message opcode data).1 (enc.message opcode data).2 rx
      (if opcode = .text then .text data else .binary data) := by
  rw [Encoder.message] at hframe ⊢
  cases hd : enc.deflater with
  | none =>
    rw [hd] at hframe
    exact h.message_plain hop htext hlen hframe hmessage
  | some d =>
    rw [hd] at hframe
    dsimp only at hframe ⊢
    rcases hcode : d.deflateMessage data with ⟨_ | comp,d'⟩
    · rw [hcode] at hframe
      exact (h.deflated hd hcode).message_plain hop htext hlen hframe hmessage
    · rw [hcode] at hframe
      exact h.message_compressed hd hcode hop htext hlen (hsmall _ (by rw [hd]; rfl)) hframe
        hmessage

theorem call (h : Linked enc rx) {call : Call} (hcall : call.Sendable)
    (hencode : enc.encode call = .ok (f,enc')) (hframe : f.payload.length ≤ rx.cfg.maxFrame)
    (hmessage : call.data.length ≤ rx.cfg.maxMessage)
    (hsmall : ∀ bits ∈ enc.deflater.map (·.windowBits), 15 ≤ bits ∨ call.data.length ≤ 2^32) :
    ∃ event, call.event = some event ∧ Arrives f enc' rx event := by
  cases call with
  | text bytes =>
    obtain ⟨rfl,rfl⟩ := Prod.ext_iff.1 (Except.ok.inj hencode)
    exact ⟨_,rfl,h.message (.inl rfl) (fun _ => hcall.1) hcall.2 hsmall hframe hmessage⟩
  | binary data =>
    obtain ⟨rfl,rfl⟩ := Prod.ext_iff.1 (Except.ok.inj hencode)
    exact ⟨_,rfl,h.message (.inr rfl) (fun ht => by cases ht) hcall hsmall hframe hmessage⟩
  | ping payload =>
    rw [Encoder.encode,FrameWriter.checkControl] at hencode
    split_ifs at hencode with hlen
    cases hencode
    exact ⟨_,if_neg hlen,h.ping (Nat.le_of_not_lt hlen) hframe⟩
  | pong payload =>
    rw [Encoder.encode,FrameWriter.checkControl] at hencode
    split_ifs at hencode with hlen
    cases hencode
    exact ⟨_,if_neg hlen,h.pong (Nat.le_of_not_lt hlen) hframe⟩
  | close code reason => exact hcall.elim

end Linked

variable {e : Error} {call : Call}

theorem Call.event_of_refused (h : enc.encode call = .error e) :
    call.event = none := by
  cases call with
  | ping payload | pong payload =>
    rw [Encoder.encode,FrameWriter.checkControl] at h
    split_ifs at h with hlen
    exact if_pos hlen
  | _ => cases h

theorem Encoder.windowBits_frame (enc : Encoder) (opcode : OpCode) (payload : List UInt8)
    (rsv1 : Bool) : (enc.frame opcode payload true rsv1).2.deflater.map (·.windowBits) =
      enc.deflater.map (·.windowBits) :=
  congrArg (Option.map _) enc.nextMask_snd.2

theorem Encoder.windowBits_message (opcode : OpCode) (data : List UInt8) :
    (enc.message opcode data).2.deflater.map (·.windowBits) =
      enc.deflater.map (·.windowBits) := by
  rw [message]
  cases hd : enc.deflater with
  | none =>
    have hsame := enc.windowBits_frame opcode data false
    rwa [hd] at hsame
  | some d =>
    have hkept := congrArg some (d.windowBits_deflateMessage data)
    dsimp only
    generalize d.deflateMessage data = r at hkept ⊢
    obtain ⟨_ | comp,d'⟩ := r <;> exact (windowBits_frame _ _ _ _).trans hkept

theorem Encoder.windowBits_encode {enc' : Encoder} (h : enc.encode call = .ok (f,enc')) :
    enc'.deflater.map (·.windowBits) = enc.deflater.map (·.windowBits) := by
  cases call with
  | text | binary =>
    obtain ⟨rfl,rfl⟩ := Prod.ext_iff.1 (Except.ok.inj h)
    exact windowBits_message _ _
  | ping payload | pong payload =>
    rw [encode,FrameWriter.checkControl] at h
    split_ifs at h
    obtain ⟨rfl,rfl⟩ := Prod.ext_iff.1 (Except.ok.inj h)
    exact windowBits_frame _ _ _ _
  | close code reason =>
    obtain ⟨rfl,rfl⟩ := Prod.ext_iff.1 (Except.ok.inj h)
    exact windowBits_frame _ _ _ _

/-! ### All calls -/

theorem FrameWriter.call_open [ReliableSink S] (hopen : w.closeFlag = false)
    (hcall : call.Sendable) :
    match w.encoder.encode call with
    | .error _ => (w.call call).2 = w
    | .ok (f,enc) => (w.call call).2.encoder = enc ∧ (w.call call).2.closeFlag = false ∧
        ReliableSink.written (w.call call).2.sink = ReliableSink.written w.sink ++ f.octets := by
  have hclose : call.opcode ≠ .close := by
    cases call with
    | close code reason => exact hcall.elim
    | _ =>
      intro hop
      cases hop
  rw [w.call_eq call,hopen,if_neg (by decide)]
  cases w.encoder.encode call with
  | error e => rfl
  | ok encoded =>
    obtain ⟨sink,hwrite,hwritten⟩ := w.writeEncoded_ok encoded
    dsimp only
    rw [hwrite]
    rw [if_neg hclose]
    exact ⟨rfl,hopen,hwritten⟩

theorem Linked.run [ReliableSink S] [ReliableSink T] {calls : List Call} (h : Linked w.encoder rx)
    (hopen : w.closeFlag = false)
    (hcalls : ∀ call ∈ calls, call.Sendable) (hwithin : Within rx.cfg w.encoder calls)
    (hsmall : ∀ bits ∈ w.encoder.deflater.map (·.windowBits), ∀ call ∈ calls,
      15 ≤ bits ∨ call.data.length ≤ 2^32) :
    ∃ octets, ReliableSink.written (w.run calls).sink = ReliableSink.written w.sink ++ octets ∧
      ∀ closed, Receiver.flowFrom closed octets rx =
        (calls.filterMap Call.event).map .ok ++ if closed then [.error Error.eof] else [] := by
  induction calls generalizing w rx with
  | nil =>
    refine ⟨[],(append_nil _).symm,?_⟩
    intro closed
    have hfinished : rx.isFinished = false := by rw [Receiver.isFinished,h.phase]
    exact Session.flowFrom_nil (settle_header h.phase) hfinished closed
  | cons call calls ih =>
    obtain ⟨hcall,hcalls⟩ := forall_mem_cons.1 hcalls
    have hstep := FrameWriter.call_open hopen hcall
    have hrun : w.run (call :: calls) = FrameWriter.run (w.call call).2 calls := rfl
    rw [Within] at hwithin
    rw [hrun]
    cases hencode : w.encoder.encode call with
    | error e =>
      rw [hencode] at hstep hwithin
      rw [hstep,filterMap_cons_none (Call.event_of_refused hencode)]
      exact ih h hopen hcalls hwithin fun bits hbits c hc => hsmall bits hbits c (mem_cons_of_mem _ hc)
    | ok encoded =>
      obtain ⟨f,enc⟩ := encoded
      rw [hencode] at hstep hwithin
      obtain ⟨henc,hopen',hwritten⟩ := hstep
      obtain ⟨hframe,hmessage,hrest⟩ := hwithin
      obtain ⟨event,hevent,rx',h',hcfg,hflow⟩ := h.call hcall hencode hframe hmessage
        fun bits hbits => hsmall bits hbits call mem_cons_self
      obtain ⟨octets,hoctets,hflows⟩ := ih (henc ▸ h') hopen' hcalls
        (by rw [henc,hcfg]; exact hrest) (by
          intro bits hbits c hc
          rw [henc,Encoder.windowBits_encode hencode] at hbits
          exact hsmall bits hbits c (mem_cons_of_mem _ hc))
      refine ⟨f.octets ++ octets,?_,?_⟩
      · rw [hoctets,hwritten,append_assoc]
      · intro closed
        rw [hflow,hflows,filterMap_cons_some hevent]
        rfl

theorem Session.Matches.eq_of_events {events : List Event}
    {closed : Bool} (h : Session.Matches polled
      (events.map .ok ++ if closed then [.error Error.eof] else [])) :
    polled = events.map .ok ++ if closed then [.error Error.eof] else [] := by
  rcases h with h | ⟨before,offset,reason,-,hflowed⟩
  · exact h
  have hmem : Except.error (utf8Failure ⟨0,reason⟩) ∈
      events.map .ok ++ if closed then [.error Error.eof] else [] := by
    rw [hflowed]
    exact mem_append_right _ (mem_singleton.2 rfl)
  rcases mem_append.1 hmem with hmem | hmem
  · obtain ⟨event,-,hevent⟩ := mem_map.1 hmem
    cases hevent
  · cases closed with
    | false => cases hmem
    | true => cases mem_singleton.1 hmem

/-- **Fidelity.** What a writer sends to a session of the other role arrives: enough calls of
`poll_message` return the events of the calls, in order, however the octets are delivered. -/
theorem calls_arrive [ReliableSink S] [ReliableSink T] (sink : S) {source : MaskSource}
    {params : Option CompressionParams} {cfg : SessionConfig} (writer : FrameWriter T)
    {calls : List Call} {reader : BufReader} (hmasks : Masks cfg.role source)
    (hparams : ∀ p ∈ params, ∃ q ∈ cfg.compression, q.recvWindowBits = p.sendWindowBits)
    (hcalls : ∀ call ∈ calls, call.Sendable)
    (hwithin : Within cfg (FrameWriter.new sink source params).encoder calls)
    (hsmall : ∀ p ∈ params, 15 ≤ p.sendWindowBits ∨ ∀ call ∈ calls, call.data.length ≤ 2 ^ 32)
    (hfed : ReliableSink.written ((FrameWriter.new sink source params).run calls).sink =
      ReliableSink.written sink ++ reader.remaining)
    (htimely : reader.transport.Timely) :
    ∃ N, ∀ n, N ≤ n → Session.polls n ⟨reader, Receiver.new cfg writer⟩ =
      (calls.filterMap Call.event).map .ok ++
        if reader.transport.closed then [.error Error.eof] else [] := by
  have hlinked : Linked (FrameWriter.new sink source params).encoder (Receiver.new cfg writer) := by
    refine ⟨hmasks,?_,rfl,rfl⟩
    intro d hd
    obtain ⟨p,hp,rfl⟩ := Option.map_eq_some_iff.1 hd
    obtain ⟨q,hq,hbits⟩ := hparams p hp
    obtain ⟨hvalid,hwindow,-⟩ := newDeflater_valid p
    rw [Option.mem_def] at hq
    refine ⟨hvalid,?_,newInflater q,?_,?_⟩
    · exact Option.isSome_iff_exists.2 ⟨q,hq⟩
    · simp [Receiver.new,hq]
    · rw [hwindow,← hbits]
      exact le_rfl
  have hcollecting : (⟨reader,Receiver.new cfg writer⟩ : Session T).Collecting := by
    intro head hhead
    cases hhead
    exact Nat.zero_lt_two
  obtain ⟨octets,hwritten,hflow⟩ := hlinked.run rfl hcalls hwithin (by
    intro bits hbits call hcall
    obtain ⟨d,hd,rfl⟩ := Option.map_eq_some_iff.1 hbits
    obtain ⟨p,hp,rfl⟩ := Option.map_eq_some_iff.1 hd
    refine (hsmall p hp).imp (fun hwide => ?_) fun hsmall => hsmall call hcall
    rw [(newDeflater_valid p).2.1,Deflate.clampBits]
    omega)
  have hoctets : octets = reader.remaining :=
    append_cancel_left (hwritten.symm.trans hfed)
  obtain ⟨N,hN⟩ := Session.polls_flow hcollecting htimely
  refine ⟨N,fun n hn => ?_⟩
  have hmatches := hN n hn
  rw [Session.flow,← hoctets,hflow] at hmatches
  exact hmatches.eq_of_events

def delivering (octets : List UInt8) : BufReader where
  buffered := []
  capacity := 16 * 1024
  room := readerRoom
  transport := ⟨match octets with | [] => [] | b :: bs => [.bytes b bs], false⟩

theorem remaining_delivering (octets : List UInt8) : (delivering octets).remaining = octets := by
  cases octets with
  | nil => rfl
  | cons b bs => exact append_nil _

theorem timely_delivering (octets : List UInt8) : (delivering octets).transport.Timely := by
  intro a ha
  cases octets with
  | nil => cases ha
  | cons b bs =>
    cases mem_singleton.1 ha
    intro htimeout
    cases htimeout

def smallClient : FrameWriter VecSink :=
  FrameWriter.new {} (.fixed ⟨1, 2, 3, 4⟩) (some { sendWindowBits := 8 })

def smallServer : SessionConfig :=
  { maxFrame := 2 ^ 33, maxMessage := 2 ^ 33, compression := some { recvWindowBits := 8 } }

/-- A text that is compressed, a Ping frame and a message too short for it. -/
def greeting : List Call := [.text (replicate 64 0x68), .ping [], .binary [1]]

theorem calls_arrive_greeting :
    (smallClient.run greeting).sink.bytes.head? = some 0xc1 ∧ ∃ N, ∀ n, N ≤ n → Session.polls n
      ⟨delivering (smallClient.run greeting).sink.bytes,
        Receiver.new smallServer (FrameWriter.new ({} : VecSink) .none none)⟩ =
      [.ok (.text (replicate 64 0x68)), .ok (.ping []), .ok (.binary [1])] := by
  refine ⟨by decide +kernel,?_⟩
  refine calls_arrive ({} : VecSink) (FrameWriter.new ({} : VecSink) .none none) ?_ ?_ ?_ ?_ ?_
    (remaining_delivering _).symm (timely_delivering _)
  · intro hnone
    cases hnone
  · rintro _ ⟨⟩
    exact ⟨_,rfl,rfl⟩
  · intro call hcall
    simp only [greeting,mem_cons,not_mem_nil,or_false] at hcall
    rcases hcall with rfl | rfl | rfl
    · exact ⟨by decide,by decide⟩
    · trivial
    · exact show 1 < 2^63 by decide
  · exact ⟨by decide +kernel,by decide,by decide +kernel,by decide,by decide +kernel,by decide,trivial⟩
  · refine fun _ _ => .inr ?_
    decide

theorem Linked.message_rejected [FrameSink T]
    (h : Linked enc rx) {data : List UInt8} (hd : enc.deflater = some d)
    (hcode : d.deflateMessage data = (some comp,d')) {inf' : Inflater}
    (hinf : rx.inflater = some inf)
    (hreject : inf.inflateMessage comp rx.cfg.maxMessage = (.error e,inf'))
    (hlen : comp.length < 2^63) (hframe : comp.length ≤ rx.cfg.maxFrame)
    (hmessage : comp.length ≤ rx.cfg.maxMessage) (closed : Bool) (bs : List UInt8) :
    Receiver.flowFrom closed ((enc.message .binary data).1.octets ++ bs) rx = [.error e] := by
  have hallowed := (h.deflater d hd).2.1
  have hsent : enc.message .binary data =
      ({ enc with deflater := some d' } : Encoder).frame .binary comp true true := by
    simp only [Encoder.message,hd,hcode]
  have hfinish : ∀ rx₁ : Receiver T, rx₁.msgOpcode = some .binary → rx₁.msgCompressed = true →
      rx₁.inflater = some inf → rx₁.msg = comp → rx₁.cfg = rx.cfg →
      (rx₁.finishFrame (({ enc with deflater := some d' } : Encoder).frame
        .binary comp true true).1.parsed).1 = .error e := by
    intro rx₁ hopcode hcompressed hinf₁ hmsg hcfg
    rw [finishFrame_compressed (.inr rfl) rfl hopcode hcompressed hinf₁,hmsg,hcfg,
      hreject]
    rfl
  rw [hsent,(h.deflated hd hcode).flow_data (.inr rfl) (fun _ => hallowed)
    (fun _ hplain => by cases hplain) hlen hframe hmessage]
  rw [show Receiver.finishFrame _ _ = (.error _,_) from
    Prod.ext (by refine hfinish _ ?_ ?_ hinf ?_ ?_ <;> rfl) rfl]
  rfl

def beyondWindow : Error :=
  Error.protocol "deflate: back-reference beyond the negotiated window"

theorem beyondWindow_ne (bad : Utf8Error) : beyondWindow ≠ utf8Failure bad := by
  intro h
  have htext := congrArg (fun e => (e.message.map (fun text => text.toList.head?))) h
  simp [beyondWindow,utf8Failure,Error.protocol,Error.withMessage] at htext

theorem matches_beyondWindow
    (h : Session.Matches polled [.error beyondWindow]) : polled = [.error beyondWindow] := by
  rcases h with h | ⟨before,offset,reason,-,hflowed⟩
  · exact h
  · have hlast := congrArg List.getLast? hflowed
    rw [getLast?_append,getLast?_singleton,getLast?_singleton] at hlast
    exact absurd (Except.error.inj (Option.some.inj hlast)) (beyondWindow_ne _)

theorem message_not_received {message : List UInt8}
    (hcode : (newDeflater { sendWindowBits := 8 }).deflateMessage message = (some comp,d))
    (hreject : (newInflater { recvWindowBits := 8 }).inflateMessage comp smallServer.maxMessage =
      (.error beyondWindow,inf)) (hlen : message.length ≤ 2^33) :
    ∃ N, ∀ n, N ≤ n → Session.polls n
      ⟨delivering (smallClient.run [.binary message]).sink.bytes,
        Receiver.new smallServer (FrameWriter.new ({} : VecSink) .none none)⟩ =
      [.error beyondWindow] := by
  obtain ⟨hvalid,hbits,-⟩ := newDeflater_valid { sendWindowBits := 8 }
  have hshort : comp.length ≤ 2^33 := (Deflate.deflateMessage_eq hcode).2.le.trans hlen
  have hlinked : Linked smallClient.encoder
      (Receiver.new smallServer (FrameWriter.new ({} : VecSink) .none none)) := by
    refine ⟨(fun hnone => by cases hnone),?_,rfl,rfl⟩
    rintro _ ⟨⟩
    exact ⟨hvalid,rfl,_,rfl,hbits.le⟩
  have hsent : (smallClient.run [.binary message]).sink.bytes =
      (smallClient.encoder.message .binary message).1.octets ++ [] := by
    obtain ⟨-,-,hwritten⟩ := FrameWriter.call_open (w := smallClient) rfl
      (show (Call.binary message).Sendable from hlen.trans_lt (by decide))
    rw [append_nil]
    exact hwritten
  have hflow := fun closed => hlinked.message_rejected rfl hcode rfl hreject
    (hshort.trans_lt (by decide)) hshort hshort closed []
  have hcollecting : (⟨delivering (smallClient.run [.binary message]).sink.bytes,
      Receiver.new smallServer (FrameWriter.new ({} : VecSink) .none none)⟩ :
      Session VecSink).Collecting := by
    intro head hhead
    cases hhead
    exact Nat.zero_lt_two
  obtain ⟨N,hN⟩ := Session.polls_flow hcollecting (timely_delivering _)
  refine ⟨N,fun n hn => matches_beyondWindow ?_⟩
  have hmatches := hN n hn
  rw [Session.flow,remaining_delivering,hsent,hflow] at hmatches
  rw [hsent]
  exact hmatches

/-- A message of 2 ^ 32 + 514 octets does not arrive: the server rejects what the client has
compressed. -/
theorem long_message_not_received :
    ∃ N, ∀ n, N ≤ n → Session.polls n
      ⟨delivering (smallClient.run [.binary wrapMessage]).sink.bytes,
        Receiver.new smallServer (FrameWriter.new ({} : VecSink) .none none)⟩ =
      [.error beyondWindow] := by
  obtain ⟨hvalid,hbits,hthreshold⟩ := newDeflater_valid { sendWindowBits := 8 }
  have hlen : wrapMessage.length ≤ 2^33 := by
    rw [Deflate.length_wrapMessage]
    decide
  obtain ⟨comp,d',hcode,hreject⟩ := Deflate.wrapMessage_rejected hvalid hbits
    (hthreshold.trans_le (by decide))
    (show (newInflater { recvWindowBits := 8 }).windowBits = 8 from rfl) hlen
  exact message_not_received hcode hreject hlen

end Courierust.Ws
