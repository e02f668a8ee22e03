import Courierust.Io.Reader
import Courierust.H2.Twin

/-!
# Reading frames from a transport

Model of `poll_available` and `read_and_process_one`: a frame is put together from what the
transport has, over as many polls as that takes, and is then processed.
-/

namespace Courierust.H2

open List
open Http (ascii)
open Io (Arrival BufReader)

def FrameHeader.read (hdr : List UInt8) : FrameHeader where
  len := (hdr.take 3).foldl (fun n x => 256 * n + x.toNat) 0
  kind := hdr.getD 3 0
  flags := hdr.getD 4 0
  streamId := beU31 (hdr.drop 5)

/-- The frame being read: `hdr` and `payload` are the octets that are there. -/
structure PartialFrame where
  hdr : List UInt8 := []
  header : Option FrameHeader := none
  payloadLen : ℕ := 0
  payload : List UInt8 := []

namespace PartialFrame

def octets (f : PartialFrame) : List UInt8 := f.hdr ++ f.payload

structure Headed (f : PartialFrame) (maxFrameSize : ℕ) : Prop where
  hdr : f.hdr.length = 9
  header : f.header = some (FrameHeader.read f.hdr)
  len : f.payloadLen = (FrameHeader.read f.hdr).len
  payload : f.payload.length ≤ f.payloadLen
  fits : f.payloadLen ≤ maxFrameSize

def WellFormed (f : PartialFrame) (maxFrameSize : ℕ) : Prop :=
  (f.header = none ∧ f.hdr.length < 9 ∧ f.payload = []) ∨
    (f.Headed maxFrameSize ∧ f.payload.length < f.payloadLen)

end PartialFrame

def Conn.tooLarge (c : Conn) : Conn :=
  { c.sendGoaway .frameSizeError (ascii "frame too large") with closed := true }

structure Session where
  conn : Conn
  reader : BufReader
  frame : PartialFrame := {}

namespace Session

/-- The header part of `read_and_process_one`: whether the header is complete. -/
def readHeader (s : Session) : Except Error Bool × Session :=
  if s.frame.header.isSome then (.ok true, s)
  else
    match s.reader.readMore (9 - s.frame.hdr.length) with
    | (.error e, reader) => (.error e, { s with reader })
    | (.ok got, reader) =>
      let hdr := s.frame.hdr ++ got
      let s := { s with reader, frame := { s.frame with hdr } }
      if hdr.length < 9 then (.ok false, s)
      else
        let header := FrameHeader.read hdr
        if s.conn.localSettings.maxFrameSize < header.len then
          (.error (h2Error .frameSizeError "received frame exceeds our max frame size"),
            { s with conn := s.conn.tooLarge })
        else (.ok true, { s with frame := ⟨hdr, some header, header.len, []⟩ })

def readPayload (s : Session) : Except Error Bool × Session :=
  if s.frame.payload.length < s.frame.payloadLen then
    match s.reader.readMore (s.frame.payloadLen - s.frame.payload.length) with
    | (.error e, reader) => (.error e, { s with reader })
    | (.ok got, reader) =>
      let payload := s.frame.payload ++ got
      (.ok (s.frame.payloadLen ≤ payload.length),
        { s with reader, frame := { s.frame with payload } })
  else (.ok true, s)

/-- The part of `read_and_process_one` behind the header. -/
def readFrame (s : Session) : Except Error Bool × Session :=
  match s.readPayload with
  | (.error e, s) => (.error e, s)
  | (.ok false, s) => (.ok false, s)
  | (.ok true, s) =>
    match s.frame.header with
    | some header =>
      let (result, conn) :=
        s.conn.receive ⟨header.kind, header.flags, header.streamId, s.frame.payload⟩
      (result.map fun _ => true, { s with conn := conn, frame := {} })
    | none => (.error (h2Error .internalError "frame header missing after a complete read"), s)

/-- `read_and_process_one`: whether a frame was processed. -/
def readAndProcessOne (s : Session) : Except Error Bool × Session :=
  match s.readHeader with
  | (.ok true, s) => s.readFrame
  | (.ok false, s) => (.ok false, s)
  | (.error e, s) => (.error e, s)

/-- The loop of `poll_available`. -/
def pollLoop : ℕ → Session → Except Error Unit × Session
  | 0, s => (.ok (), s)
  | n + 1, s =>
    match s.readAndProcessOne with
    | (.error e, s) =>
      if e.kind = .timeout ∨ e.kind = .wouldBlock then (.ok (), s)
      else if e.kind = .unexpectedEof then
        (.error e, { s with conn := { s.conn with closed := true } })
      else (.error e, { s with conn := s.conn.flushFinal.2 })
    | (.ok false, s) => (.ok (), s)
    | (.ok true, s) =>
      if s.reader.buffered.length < 9 ∧ s.frame.header.isNone ∧ s.frame.hdr = [] then (.ok (), s)
      else pollLoop n s

/-- `poll_available`, without its report of progress. -/
def pollAvailable (s : Session) (maxFrames : ℕ) : Except Error Unit × Session :=
  if s.conn.closed then (.ok (), s)
  else
    match pollLoop (max maxFrames 1) { s with conn := s.conn.flushOutbound.2 } with
    | (.error e, s) => (.error e, s)
    | (.ok (), s) => (.ok (), { s with conn := s.conn.flushOutbound.2 })

def polls (s : Session) (maxes : List ℕ) : Session :=
  Run.run (fun s maxFrames => (s.pollAvailable maxFrames).2) s maxes

def bytes (s : Session) : List UInt8 := s.frame.octets ++ s.reader.remaining

end Session

/-! ### The frames of a byte string -/

inductive Cut where
  | incomplete
  | large
  | frame (r : RawFrame) (rest : List UInt8)

def cut (maxFrameSize : ℕ) (bytes : List UInt8) : Cut :=
  if bytes.length < 9 then .incomplete
  else
    let header := FrameHeader.read (bytes.take 9)
    if maxFrameSize < header.len then .large
    else if bytes.length < 9 + header.len then .incomplete
    else .frame ⟨header.kind, header.flags, header.streamId, (bytes.drop 9).take header.len⟩
      (bytes.drop (9 + header.len))

/-- The frames of a byte string are processed in order, with flushes in between. -/
inductive Reading : Conn → List UInt8 → Conn → List UInt8 → Prop
  | refl {c : Conn} {b : List UInt8} : Reading c b c b
  | flush {c c' : Conn} {b b' : List UInt8} (h : Reading c b c' b') :
    Reading c b c'.flushOutbound.2 b'
  | flushFinal {c c' : Conn} {b b' : List UInt8} (h : Reading c b c' b') :
    Reading c b c'.flushFinal.2 b'
  | large {c c' : Conn} {b b' b'' : List UInt8} (h : Reading c b c' b')
      (hcut : cut c'.localSettings.maxFrameSize b' = .large) : Reading c b c'.tooLarge b''
  | frame {c c' : Conn} {b b' rest : List UInt8} {r : RawFrame} (h : Reading c b c' b')
      (hcut : cut c'.localSettings.maxFrameSize b' = .frame r rest) :
    Reading c b (c'.receive r).2 rest

theorem cut_length {maxFrameSize : ℕ} {bytes rest : List UInt8} {r : RawFrame}
    (h : cut maxFrameSize bytes = .frame r rest) : rest.length < bytes.length := by
  simp only [cut] at h
  split_ifs at h
  obtain ⟨-,rfl⟩ := Cut.frame.inj h
  rw [length_drop]
  omega

def feed (c : Conn) (bytes : List UInt8) : Conn :=
  if c.closed then c
  else
    match _hcut : cut c.localSettings.maxFrameSize bytes with
    | .incomplete => c
    | .large => c.tooLarge
    | .frame r rest => feed (c.receive r).2 rest
termination_by bytes.length
decreasing_by exact cut_length _hcut

section
variable {c c' : Conn} {b b' rest : List UInt8} {r : RawFrame}

theorem feed_closed (h : c.closed = true) : feed c b = c := by
  rw [feed,if_pos h]

theorem feed_incomplete (h : cut c.localSettings.maxFrameSize b = .incomplete) : feed c b = c := by
  rw [feed]
  split_ifs
  · rfl
  · split
    · rfl
    · simp_all
    · simp_all

theorem tooLarge_closed (h : c.closed = true) : c.tooLarge = c := by
  have hgoaway : c.sendGoaway .frameSizeError (ascii "frame too large") = c := by
    unfold Conn.sendGoaway
    rw [if_pos (by simp [h])]
  unfold Conn.tooLarge
  rw [hgoaway,← h]

theorem feed_large (h : cut c.localSettings.maxFrameSize b = .large) : feed c b = c.tooLarge := by
  rw [feed]
  split_ifs with hclosed
  · exact (tooLarge_closed hclosed).symm
  · split
    · simp_all
    · rfl
    · simp_all

theorem feed_frame (h : cut c.localSettings.maxFrameSize b = .frame r rest) :
    feed c b = feed (c.receive r).2 rest := by
  by_cases hclosed : c.closed = true
  · rw [Conn.receive,if_pos hclosed,feed_closed hclosed,feed_closed hclosed]
  rw [feed,if_neg hclosed]
  split
  · simp_all
  · simp_all
  · next r' rest' hcut =>
    obtain ⟨rfl,rfl⟩ := Cut.frame.inj (h.symm.trans hcut)
    rfl

theorem Twin.feed (h : Twin c c') (b : List UInt8) : Twin (feed c b) (feed c' b) := by
  induction hn : b.length using Nat.strong_induction_on generalizing c c' b with
  | _ n ih =>
    have hsettings : c'.localSettings = c.localSettings := by simp only [h.same]
    cases hcut : cut c.localSettings.maxFrameSize b with
    | incomplete =>
      rw [feed_incomplete hcut,feed_incomplete (hsettings ▸ hcut)]
      exact h
    | large =>
      rw [feed_large hcut,feed_large (hsettings ▸ hcut)]
      exact (h.sendGoaway _ _).close
    | frame r rest =>
      have hcut' : cut c'.localSettings.maxFrameSize b = .frame r rest := hsettings ▸ hcut
      rw [feed_frame hcut,feed_frame hcut']
      exact ih rest.length (hn ▸ cut_length hcut) (h.receive r).2.1 rest rfl

theorem Reading.twin (h : Reading c b c' b') (hidle : c.Idle) :
    c'.Idle ∧ Twin (feed c b) (feed c' b') := by
  induction h with
  | refl => exact ⟨hidle,(Twin.refl hidle).feed _⟩
  | flush _ ih =>
    obtain ⟨hidle',htwin⟩ := ih
    have hflush := Twin.flush hidle'
    exact ⟨hflush.symm.1,htwin.trans (hflush.feed _)⟩
  | flushFinal _ ih =>
    obtain ⟨hidle',htwin⟩ := ih
    have hflush := Twin.flushFinal hidle'
    exact ⟨hflush.symm.1,htwin.trans (hflush.feed _)⟩
  | large _ hcut ih =>
    obtain ⟨hidle',htwin⟩ := ih
    rw [feed_large hcut] at htwin
    refine ⟨htwin.symm.1,?_⟩
    rwa [feed_closed (c := Conn.tooLarge _) rfl]
  | frame _ hcut ih =>
    obtain ⟨hidle',htwin⟩ := ih
    rw [feed_frame hcut] at htwin
    exact ⟨((Twin.refl hidle').receive _).2.1.1,htwin⟩

theorem Reading.trans {c'' : Conn} {b'' : List UInt8} (h : Reading c b c' b')
    (h' : Reading c' b' c'' b'') : Reading c b c'' b'' := by
  induction h' with
  | refl => exact h
  | flush _ ih => exact (ih h).flush
  | flushFinal _ ih => exact (ih h).flushFinal
  | large _ hcut ih => exact (ih h).large hcut
  | frame _ hcut ih => exact (ih h).frame hcut

end

/-! ### Polling reads -/

theorem cut_large {maxFrameSize : ℕ} {hdr : List UInt8} (rest : List UInt8) (hhdr : hdr.length = 9)
    (h : maxFrameSize < (FrameHeader.read hdr).len) : cut maxFrameSize (hdr ++ rest) = .large := by
  have hshort : ¬(hdr ++ rest).length < 9 := by
    rw [length_append]
    omega
  have htake : (hdr ++ rest).take 9 = hdr := take_left' hhdr
  simp only [cut]
  rw [if_neg hshort,htake,if_pos h]

namespace PartialFrame

variable {f : PartialFrame} {maxFrameSize : ℕ}

theorem Headed.cut_eq (h : f.Headed maxFrameSize) (hfull : f.payload.length = f.payloadLen)
    (rest : List UInt8) :
    cut maxFrameSize (f.octets ++ rest) = .frame
      ⟨(FrameHeader.read f.hdr).kind,(FrameHeader.read f.hdr).flags,
        (FrameHeader.read f.hdr).streamId,f.payload⟩ rest := by
  have hlen := hfull.trans h.len
  have hoctets : f.octets ++ rest = f.hdr ++ (f.payload ++ rest) := append_assoc _ _ _
  have htake : (f.hdr ++ (f.payload ++ rest)).take 9 = f.hdr := take_left' h.hdr
  have hdrop : (f.hdr ++ (f.payload ++ rest)).drop 9 = f.payload ++ rest := drop_left' h.hdr
  have hlength : (f.hdr ++ (f.payload ++ rest)).length = 9+(f.payload.length+rest.length) := by
    rw [length_append,length_append,h.hdr]
  simp only [cut]
  rw [hoctets,hlength,htake,if_neg (by omega),if_neg (by have := h.fits; have := h.len; omega),
    if_neg (by omega),← drop_drop,hdrop,take_left' hlen,drop_left' hlen]

theorem WellFormed.cut_eq (h : f.WellFormed maxFrameSize) :
    cut maxFrameSize f.octets = .incomplete := by
  rcases h with ⟨-,hshort,hpayload⟩ | ⟨hheaded,hmissing⟩
  · have hlen : f.octets.length < 9 := by
      rw [octets,hpayload,append_nil]
      exact hshort
    simp only [cut]
    rw [if_pos hlen]
  · have hlen : f.octets.length = 9+f.payload.length := by
      rw [octets,length_append,hheaded.hdr]
    have htake : f.octets.take 9 = f.hdr := take_left' hheaded.hdr
    have hfits := hheaded.fits
    have hpayload := hheaded.len
    simp only [cut]
    rw [hlen,htake,if_neg (by omega),if_neg (by omega),if_pos (by omega)]

theorem wellFormed_empty : ({} : PartialFrame).WellFormed maxFrameSize :=
  .inl ⟨rfl,by decide,rfl⟩

end PartialFrame

namespace Session

variable {s : Session}

/-- The frame is well formed, and the peer keeps the stream open. -/
def Reads (s : Session) : Prop :=
  s.frame.WellFormed s.conn.localSettings.maxFrameSize ∧ s.reader.transport.closed = false

theorem readHeader_spec (h : s.Reads) :
    (s.readHeader.1 = .ok true ∧ s.readHeader.2.conn = s.conn ∧ s.readHeader.2.bytes = s.bytes ∧
      s.readHeader.2.frame.Headed s.conn.localSettings.maxFrameSize ∧
      s.readHeader.2.reader.transport.closed = false) ∨
    (s.readHeader.1 = .ok false ∧ s.readHeader.2.conn = s.conn ∧ s.readHeader.2.bytes = s.bytes ∧
      s.readHeader.2.Reads) ∨
    (∃ e code, s.readHeader.1 = .error e ∧ e.kind = .h2 code ∧
      s.readHeader.2.conn = s.conn.tooLarge ∧
      cut s.conn.localSettings.maxFrameSize s.bytes = .large) := by
  obtain ⟨⟨hnone,hshort,hpayload⟩ | ⟨hheaded,hmissing⟩,hopen⟩ := h
  · obtain ⟨got,reader,hgot,hread,hlen,hopen⟩ :=
      BufReader.readMore_open hopen (9-s.frame.hdr.length)
    unfold readHeader
    rw [if_neg (by simp [hnone]),hgot]
    have hbytes : s.bytes = s.frame.hdr ++ got ++ reader.remaining := by
      simp [bytes,PartialFrame.octets,hpayload,hread]
    simp only
    by_cases hmore : (s.frame.hdr ++ got).length < 9
    · rw [if_pos hmore]
      refine .inr (.inl ⟨rfl,rfl,?_,.inl ⟨hnone,hmore,hpayload⟩,hopen⟩)
      rw [hbytes]
      simp [bytes,PartialFrame.octets,hpayload]
    have hnine : (s.frame.hdr ++ got).length = 9 := by
      rw [length_append] at hmore ⊢
      omega
    rw [if_neg hmore]
    by_cases hlarge :
        s.conn.localSettings.maxFrameSize < (FrameHeader.read (s.frame.hdr ++ got)).len
    · rw [if_pos hlarge]
      exact .inr (.inr ⟨_,_,rfl,rfl,rfl,hbytes ▸ cut_large _ hnine hlarge⟩)
    · rw [if_neg hlarge]
      refine .inl ⟨rfl,rfl,?_,⟨hnine,rfl,rfl,Nat.zero_le _,not_lt.1 hlarge⟩,hopen⟩
      rw [hbytes]
      simp [bytes,PartialFrame.octets]
  · unfold readHeader
    rw [if_pos (by simp [hheaded.header])]
    exact .inl ⟨rfl,rfl,rfl,hheaded,hopen⟩

theorem readPayload_spec (h : s.frame.Headed s.conn.localSettings.maxFrameSize)
    (hopen : s.reader.transport.closed = false) :
    ∃ full s', s.readPayload = (.ok full,s') ∧ s'.conn = s.conn ∧ s'.bytes = s.bytes ∧
      s'.frame.Headed s.conn.localSettings.maxFrameSize ∧
      s'.reader.transport.closed = false ∧
      (full = true ↔ s'.frame.payload.length = s'.frame.payloadLen) := by
  unfold readPayload
  split_ifs with hmissing
  · obtain ⟨got,reader,hgot,hread,hlen,hopen⟩ :=
      BufReader.readMore_open hopen (s.frame.payloadLen-s.frame.payload.length)
    rw [hgot]
    have hpayload : (s.frame.payload ++ got).length ≤ s.frame.payloadLen := by
      rw [length_append]
      omega
    refine ⟨_,_,rfl,rfl,?_,⟨h.hdr,h.header,h.len,hpayload,h.fits⟩,hopen,?_⟩
    · simp [bytes,PartialFrame.octets,hread]
    · simp only [decide_eq_true_eq]
      exact ⟨fun hge => le_antisymm hpayload hge,fun heq => heq.ge⟩
  · exact ⟨true,s,rfl,rfl,rfl,h,hopen,by simpa using le_antisymm h.payload (not_lt.1 hmissing)⟩

/-- A session without a body to send, after some of the octets: an error is one of the
    connection. -/
structure Advanced (s : Session) (r : Except Error Bool × Session) : Prop where
  reading : Reading s.conn s.bytes r.2.conn r.2.bytes
  reads : r.2.Reads ∨ r.2.conn.closed = true ∧ ∃ e, r.1 = .error e
  kind : ∀ e, r.1 = .error e → ∃ code, e.kind = .h2 code

theorem readFrame_spec (h : s.frame.Headed s.conn.localSettings.maxFrameSize)
    (hopen : s.reader.transport.closed = false) (hidle : s.conn.Idle) :
    s.Advanced s.readFrame := by
  obtain ⟨full,s₁,hread,hconn,hbytes,hheaded,hopen,hfull⟩ := readPayload_spec h hopen
  unfold readFrame
  rw [hread]
  cases full with
  | false =>
    have hmissing := lt_of_le_of_ne hheaded.payload fun heq => Bool.false_ne_true (hfull.2 heq)
    refine ⟨hconn ▸ hbytes ▸ .refl,.inl ⟨.inr ⟨?_,hmissing⟩,hopen⟩,fun _ he => by cases he⟩
    rw [hconn]
    exact hheaded
  | true =>
    have hcut := hheaded.cut_eq (hfull.1 rfl) s₁.reader.remaining
    have hkind := ((Twin.refl hidle).receive ⟨(FrameHeader.read s₁.frame.hdr).kind,
      (FrameHeader.read s₁.frame.hdr).flags,(FrameHeader.read s₁.frame.hdr).streamId,
      s₁.frame.payload⟩).2.2
    simp only [hheaded.header]
    rw [hconn]
    refine ⟨?_,.inl ⟨PartialFrame.wellFormed_empty,hopen⟩,fun e he => hkind e ?_⟩
    · rw [← hbytes]
      exact Reading.frame .refl hcut
    · generalize (s.conn.receive _).1 = result at he
      cases result with
      | error e' =>
        cases he
        rfl
      | ok u => cases he

theorem readAndProcessOne_spec (h : s.Reads) (hidle : s.conn.Idle) :
    s.Advanced s.readAndProcessOne := by
  have hheader := readHeader_spec h
  unfold readAndProcessOne
  rcases hread : s.readHeader with ⟨result,s₁⟩
  simp only [hread] at hheader
  rcases hheader with ⟨rfl,hconn,hbytes,hheaded,hopen⟩ | ⟨rfl,hconn,hbytes,hreads⟩ |
    ⟨e,code,rfl,hkind,hconn,hcut⟩
  · rw [← hconn] at hheaded hidle
    have hframe := readFrame_spec hheaded hopen hidle
    exact ⟨hconn ▸ hbytes ▸ hframe.reading,hframe.reads,hframe.kind⟩
  · exact ⟨hconn ▸ hbytes ▸ .refl,.inl hreads,fun _ he => by cases he⟩
  · refine ⟨?_,.inr ⟨?_,e,rfl⟩,?_⟩
    · rw [hconn]
      exact Reading.large .refl hcut
    · rw [hconn]
      rfl
    · rintro _ ⟨⟩
      exact ⟨code,hkind⟩

theorem pollLoop_spec (n : ℕ) (h : s.Reads) (hidle : s.conn.Idle) :
    Reading s.conn s.bytes (s.pollLoop n).2.conn (s.pollLoop n).2.bytes ∧
      ((s.pollLoop n).2.Reads ∨
        (s.pollLoop n).2.conn.closed = true ∧ ∃ e, (s.pollLoop n).1 = .error e) := by
  induction n generalizing s with
  | zero => exact ⟨.refl,.inl h⟩
  | succ n ih =>
    obtain ⟨hreading,hreads,hkind⟩ := readAndProcessOne_spec h hidle
    simp only [pollLoop]
    rcases hread : s.readAndProcessOne with ⟨result,s₁⟩
    simp only [hread] at hreading hreads hkind
    cases result with
    | error e =>
      obtain ⟨code,hkind⟩ := hkind e rfl
      simp only [hkind,reduceCtorEq,or_self,if_false]
      exact ⟨hreading.flushFinal,hreads.imp_right fun hclosed => ⟨hclosed.1,e,rfl⟩⟩
    | ok processed =>
      have hreads₁ : s₁.Reads := hreads.resolve_right fun ⟨_,e,herror⟩ => nomatch herror
      cases processed with
      | false => exact ⟨hreading,.inl hreads₁⟩
      | true =>
        simp only
        split_ifs
        · exact ⟨hreading,.inl hreads₁⟩
        · obtain ⟨hrest,hreads⟩ := ih hreads₁ (hreading.twin hidle).1
          exact ⟨hreading.trans hrest,hreads⟩

def Sound (s : Session) : Prop :=
  s.conn.closed = true ∨ s.Reads ∧ ∀ id, s.conn.queue id = []

theorem reads_flush (h : s.Reads) (hsame : s.conn.flushOutbound.2.localSettings =
    s.conn.localSettings) : Reads { s with conn := s.conn.flushOutbound.2 } := by
  unfold Reads
  rw [hsame]
  exact h

theorem pollAvailable_spec (hopen : s.conn.closed = false)
    (h : s.Reads ∧ ∀ id, s.conn.queue id = []) (maxFrames : ℕ) :
    Reading s.conn.flushOutbound.2 s.bytes (s.pollAvailable maxFrames).2.conn
        (s.pollAvailable maxFrames).2.bytes ∧ (s.pollAvailable maxFrames).2.Sound := by
  obtain ⟨hidle,hsame⟩ := Twin.flush_open hopen h.2
  obtain ⟨hreading,hreads⟩ := pollLoop_spec (max maxFrames 1) (reads_flush h.1 hsame) hidle
  unfold pollAvailable
  rw [if_neg (by simp [hopen])]
  rcases hloop : pollLoop (max maxFrames 1) { s with conn := s.conn.flushOutbound.2 } with ⟨result,s₁⟩
  simp only [hloop] at hreading hreads
  cases result with
  | error e =>
    refine ⟨hreading,hreads.symm.imp And.left fun h => ⟨h,?_⟩⟩
    exact (hreading.twin hidle).1.2
  | ok _ =>
    have hreads : s₁.Reads := hreads.resolve_right fun ⟨_,e,herror⟩ => nomatch herror
    have hflush := Twin.flush (hreading.twin hidle).1
    exact ⟨hreading.flush,.inr ⟨reads_flush hreads hflush.same.2.2.1,hflush.symm.1.2⟩⟩

/-! ### Polling gets on -/

theorem uses_readHeader (s : Session) : s.reader.Uses s.readHeader.2.reader := by
  unfold readHeader
  split_ifs
  · exact .refl _
  have huses := s.reader.uses_readMore (9-s.frame.hdr.length)
  generalize s.reader.readMore (9-s.frame.hdr.length) = r at huses ⊢
  obtain ⟨e | got,reader⟩ := r
  · exact huses
  · dsimp only
    split_ifs <;> exact huses

theorem uses_readPayload (s : Session) : s.reader.Uses s.readPayload.2.reader := by
  unfold readPayload
  split_ifs
  · have huses := s.reader.uses_readMore (s.frame.payloadLen-s.frame.payload.length)
    generalize s.reader.readMore (s.frame.payloadLen-s.frame.payload.length) = r at huses ⊢
    obtain ⟨e | got,reader⟩ := r <;> exact huses
  · exact .refl _

theorem reader_readFrame (s : Session) : s.readFrame.2.reader = s.readPayload.2.reader := by
  unfold readFrame
  rcases s.readPayload with ⟨e | _ | _,s₁⟩
  · rfl
  · rfl
  · simp only
    cases s₁.frame.header with
    | none => rfl
    | some header => rfl

theorem reader_readAndProcessOne (s : Session) :
    s.readAndProcessOne.2.reader = s.readHeader.2.reader ∨
      s.readAndProcessOne.2.reader = s.readHeader.2.readPayload.2.reader := by
  unfold readAndProcessOne
  rcases s.readHeader with ⟨e | _ | _,s₁⟩
  · exact .inl rfl
  · exact .inl rfl
  · exact .inr s₁.reader_readFrame

theorem uses_readAndProcessOne (s : Session) : s.reader.Uses s.readAndProcessOne.2.reader := by
  obtain heq | heq := s.reader_readAndProcessOne <;> rw [heq]
  · exact s.uses_readHeader
  · exact s.uses_readHeader.trans (uses_readPayload _)

theorem weight_readAndProcessOne (h : s.Reads) (hremaining : s.reader.remaining ≠ []) :
    s.readAndProcessOne.2.reader.weight < s.reader.weight := by
  rcases h.1 with ⟨hnone,hshort,-⟩ | ⟨hheaded,hmissing⟩
  · have hheader : s.readHeader.2.reader = (s.reader.readMore (9-s.frame.hdr.length)).2 := by
      unfold readHeader
      rw [if_neg (by simp [hnone])]
      rcases s.reader.readMore (9-s.frame.hdr.length) with ⟨e | got,reader⟩
      · rfl
      · dsimp only
        split_ifs <;> rfl
    have hless : s.readHeader.2.reader.weight < s.reader.weight := by
      rw [hheader]
      exact BufReader.weight_readMore_lt (by omega) hremaining
    obtain heq | heq := s.reader_readAndProcessOne <;> rw [heq]
    · exact hless
    · exact (uses_readPayload _).weight.trans_lt hless
  · have hheader : s.readHeader = (.ok true,s) := by
      unfold readHeader
      rw [if_pos (by simp [hheaded.header])]
    unfold readAndProcessOne
    rw [hheader]
    rw [reader_readFrame]
    have hless : (s.reader.readMore (s.frame.payloadLen-s.frame.payload.length)).2.weight <
        s.reader.weight := BufReader.weight_readMore_lt (by omega) hremaining
    unfold readPayload
    rw [if_pos hmissing]
    generalize s.reader.readMore (s.frame.payloadLen-s.frame.payload.length) = r at hless ⊢
    obtain ⟨e | got,reader⟩ := r <;> exact hless

theorem pollLoop_succ (n : ℕ) (s : Session) :
    (s.pollLoop (n+1)).2.reader = s.readAndProcessOne.2.reader ∨
      (s.pollLoop (n+1)).2 = (s.readAndProcessOne.2.pollLoop n).2 := by
  rw [pollLoop]
  rcases s.readAndProcessOne with ⟨e | _ | _,s₁⟩
  · dsimp only
    split_ifs <;> exact .inl rfl
  · exact .inl rfl
  · dsimp only
    split_ifs
    · exact .inl rfl
    · exact .inr rfl

theorem uses_pollLoop (n : ℕ) (s : Session) : s.reader.Uses (s.pollLoop n).2.reader := by
  induction n generalizing s with
  | zero => exact .refl _
  | succ n ih =>
    have hread := s.uses_readAndProcessOne
    obtain heq | heq := s.pollLoop_succ n <;> rw [heq]
    · exact hread
    · exact hread.trans (ih _)

theorem weight_pollLoop (n : ℕ) (h : s.Reads) (hremaining : s.reader.remaining ≠ []) :
    (s.pollLoop (n+1)).2.reader.weight < s.reader.weight := by
  have hread := weight_readAndProcessOne h hremaining
  obtain heq | heq := s.pollLoop_succ n <;> rw [heq]
  · exact hread
  · exact (uses_pollLoop n _).weight.trans_lt hread

theorem reader_pollAvailable (hopen : s.conn.closed = false) (maxFrames : ℕ) :
    (s.pollAvailable maxFrames).2.reader =
      (pollLoop (max maxFrames 1) { s with conn := s.conn.flushOutbound.2 }).2.reader := by
  unfold pollAvailable
  rw [if_neg (by simp [hopen])]
  cases pollLoop (max maxFrames 1) { s with conn := s.conn.flushOutbound.2 } with
  | mk result s₁ => cases result <;> rfl

def Done (s : Session) : Prop := s.conn.closed = true ∨ s.reader.remaining = []

theorem pollAvailable_closed (h : s.conn.closed = true) (maxFrames : ℕ) :
    (s.pollAvailable maxFrames).2 = s := by
  unfold pollAvailable
  rw [if_pos h]

theorem Done.poll (h : s.Done) (maxFrames : ℕ) : (s.pollAvailable maxFrames).2.Done := by
  by_cases hclosed : s.conn.closed = true
  · rw [pollAvailable_closed hclosed]
    exact h
  have hempty := h.resolve_left hclosed
  refine .inr ?_
  rw [reader_pollAvailable (by simpa using hclosed)]
  have huses := uses_pollLoop (max maxFrames 1) { s with conn := s.conn.flushOutbound.2 }
  exact suffix_nil.1 (hempty ▸ huses.suffix)

theorem Sound.poll (h : s.Sound) (maxFrames : ℕ) : (s.pollAvailable maxFrames).2.Sound := by
  by_cases hclosed : s.conn.closed = true
  · rw [pollAvailable_closed hclosed]
    exact h
  · exact (pollAvailable_spec (by simpa using hclosed) (h.resolve_left hclosed) maxFrames).2

theorem done_polls {maxes : List ℕ} (h : s.Sound) (hmany : s.reader.weight < maxes.length) :
    (s.polls maxes).Done := by
  induction maxes generalizing s with
  | nil => exact absurd hmany (Nat.not_lt_zero _)
  | cons maxFrames maxes ih =>
    change ((s.pollAvailable maxFrames).2.polls maxes).Done
    by_cases hdone : s.Done
    · have hall : ∀ (maxes : List ℕ) {s : Session}, s.Done → (s.polls maxes).Done := by
        intro maxes
        induction maxes with
        | nil => exact fun h => h
        | cons maxFrames maxes ih => exact fun h => ih (h.poll maxFrames)
      exact hall maxes (hdone.poll maxFrames)
    · rw [Done,not_or] at hdone
      have hopen : s.conn.closed = false := by simpa using hdone.1
      refine ih (h.poll maxFrames) ?_
      have hless : (s.pollAvailable maxFrames).2.reader.weight < s.reader.weight := by
        rw [reader_pollAvailable hopen,
          show max maxFrames 1 = max maxFrames 1-1+1 by omega]
        obtain ⟨hreads,hq⟩ := h.resolve_left hdone.1
        exact weight_pollLoop _ (reads_flush hreads (Twin.flush_open hopen hq).2) hdone.2
      rw [length_cons] at hmany
      omega

theorem feed_of_done (h : s.Sound) (hdone : s.Done) : feed s.conn s.bytes = s.conn := by
  by_cases hclosed : s.conn.closed = true
  · exact feed_closed hclosed
  · have hempty := hdone.resolve_left hclosed
    apply feed_incomplete
    rw [bytes,hempty,append_nil]
    exact (h.resolve_left hclosed).1.1.cut_eq

/-- Whatever the delivery, polling processes the frames of the byte string in order, with
    flushes in between. -/
theorem reading_polls (maxes : List ℕ) (h : s.Sound) :
    Reading s.conn s.bytes (s.polls maxes).conn (s.polls maxes).bytes ∧ (s.polls maxes).Sound := by
  induction maxes generalizing s with
  | nil => exact ⟨.refl,h⟩
  | cons maxFrames maxes ih =>
    obtain ⟨hrest,hsound⟩ := ih (h.poll maxFrames)
    refine ⟨?_,hsound⟩
    by_cases hclosed : s.conn.closed = true
    · change Reading s.conn s.bytes ((s.pollAvailable maxFrames).2.polls maxes).conn
        ((s.pollAvailable maxFrames).2.polls maxes).bytes
      rw [pollAvailable_closed hclosed] at hrest ⊢
      exact hrest
    · have hpoll := pollAvailable_spec (by simpa using hclosed) (h.resolve_left hclosed) maxFrames
      exact (Reading.flush .refl).trans (hpoll.1.trans hrest)

def start (conn : Conn) (capacity : ℕ) (room : 0 < capacity) (arrivals : List Arrival) : Session :=
  { conn := conn, reader := ⟨[], capacity, room, ⟨arrivals, false⟩⟩ }

/-- Polled often enough, an idle connection is a twin of what the whole string makes of it. -/
theorem twin_polls {maxes : List ℕ} (h : s.Sound) (hopen : s.conn.closed = false)
    (hmany : s.reader.weight < maxes.length) :
    Twin (feed s.conn.flushOutbound.2 s.bytes) (s.polls maxes).conn := by
  have hdone := done_polls h hmany
  cases maxes with
  | nil => exact absurd hmany (Nat.not_lt_zero _)
  | cons maxFrames maxes =>
    have hreads := h.resolve_left (by simp [hopen])
    obtain ⟨hpoll,hsound⟩ := pollAvailable_spec hopen hreads maxFrames
    obtain ⟨hrest,hsound⟩ := reading_polls maxes hsound
    have htwin := ((hpoll.trans hrest).twin (Twin.flush_open hopen hreads.2).1).2
    rwa [feed_of_done hsound hdone] at htwin

end Session

/-- However the octets of the peer are delivered (in whatever pieces, after however many
    reads that would block or time out) and however many frames a poll may process: once they
    are read, a connection without a body to send has processed the same frames, delivered
    the same events and queued the same replies. -/
theorem reading_chunking_invariant (c : Conn) (hq : ∀ id, c.queue id = []) {capacity : ℕ}
    (room : 0 < capacity) {arrivals arrivals' : List Arrival}
    (hsame : arrivals.flatMap Arrival.octets = arrivals'.flatMap Arrival.octets)
    {maxes maxes' : List ℕ}
    (hmany : (arrivals.flatMap Arrival.octets).length + arrivals.length < maxes.length)
    (hmany' : (arrivals'.flatMap Arrival.octets).length + arrivals'.length < maxes'.length) :
    let a := ((Session.start c capacity room arrivals).polls maxes).conn
    let b := ((Session.start c capacity room arrivals').polls maxes').conn
    a.hist.inbound = b.hist.inbound ∧ a.hist.delivered = b.hist.delivered ∧
      a.hist.queued = b.hist.queued ∧ a.closed = b.closed := by
  intro a b
  by_cases hclosed : c.closed = true
  · have hall : ∀ (maxes : List ℕ) {s : Session}, s.conn.closed = true →
        (s.polls maxes) = s := by
      intro maxes s hs
      induction maxes with
      | nil => rfl
      | cons maxFrames maxes ih =>
        change (s.pollAvailable maxFrames).2.polls maxes = s
        rw [Session.pollAvailable_closed hs,ih]
    have ha : a = c := congrArg Session.conn (hall maxes hclosed)
    have hb : b = c := congrArg Session.conn (hall maxes' hclosed)
    rw [ha,hb]
    exact ⟨rfl,rfl,rfl,rfl⟩
  · have hopen : c.closed = false := by simpa using hclosed
    have hsound : ∀ arrivals, (Session.start c capacity room arrivals).Sound :=
      fun _ => .inr ⟨⟨PartialFrame.wellFormed_empty,rfl⟩,hq⟩
    have ha := Session.twin_polls (hsound arrivals) hopen hmany
    have hb := Session.twin_polls (hsound arrivals') hopen hmany'
    have hbytes : (Session.start c capacity room arrivals).bytes =
        (Session.start c capacity room arrivals').bytes := hsame
    rw [hbytes] at ha
    have htwin : Twin a b := ha.symm.trans hb
    obtain ⟨hinbound,hdelivered,hqueued⟩ := htwin.hist
    exact ⟨hinbound.symm,hdelivered.symm,hqueued.symm,by simp only [htwin.same]⟩

/-- A SETTINGS frame and a PING arrive in two pieces, or at once. -/
theorem reading_chunking_invariant_ping :
    let first : Arrival := .bytes 0 [0, 0, 4, 0, 0, 0]
    let rest : Arrival := .bytes 0 [0, 0, 0, 8, 6, 0, 0, 0, 0, 0, 1, 2, 3, 4, 5, 6, 7, 8]
    let whole : Arrival :=
      .bytes 0 [0, 0, 4, 0, 0, 0, 0, 0, 0, 0, 8, 6, 0, 0, 0, 0, 0, 1, 2, 3, 4, 5, 6, 7, 8]
    let a := ((Session.start (Conn.new {}) 16384 (by decide) [first, .wouldBlock, rest]).polls
      (replicate 40 1)).conn
    let b := ((Session.start (Conn.new {}) 16384 (by decide) [whole]).polls
      (replicate 40 2)).conn
    a.hist.inbound = b.hist.inbound ∧ a.hist.delivered = b.hist.delivered ∧
      a.hist.queued = b.hist.queued ∧ a.closed = b.closed :=
  reading_chunking_invariant (Conn.new {}) (fun _ => by simp [Conn.queue,Conn.new]) (by decide)
    (by decide) (by decide) (by decide)

def waitingBody : Conn :=
  Run.run Conn.step (Conn.new {}) [.openRequest {}, .receive ⟨4, 0, 0, [0, 4, 0, 0, 0, 0]⟩,
    .sendHeaders 1 [] false, .sendData 1 [0] false]

/-- With a body to send it does matter: when the octet goes out between the first and the
    second of these WINDOW_UPDATE frames, the third does not overflow the connection window,
    and the PING behind it is processed. -/
theorem reading_depends_on_flush :
    ¬ ∀ (c : Conn) (arrivals arrivals' : List Arrival),
      arrivals.flatMap Arrival.octets = arrivals'.flatMap Arrival.octets →
      ∀ maxes maxes' : List ℕ,
      (arrivals.flatMap Arrival.octets).length + arrivals.length < maxes.length →
      (arrivals'.flatMap Arrival.octets).length + arrivals'.length < maxes'.length →
      ((Session.start c 16384 (by decide) arrivals).polls maxes).conn.hist.inbound =
        ((Session.start c 16384 (by decide) arrivals').polls maxes').conn.hist.inbound := by
  intro h
  let credit : List UInt8 := [0,4,8,0,0,0,0,1,0,0,0,1]
  let rest : List UInt8 := [0,4,8,0,0,0,0,0,0x7f,0xff,0,0,0,0,4,8,0,0,0,0,0,
    0,0,0,1,0,0,8,6,0,0,0,0,0,1,2,3,4,5,6,7,8]
  have hframes := h waitingBody [.bytes 0 credit,.wouldBlock,.bytes 0 rest]
    [.bytes 0 (credit ++ 0 :: rest)] (by decide) (replicate 60 4) (replicate 60 4)
    (by decide) (by decide)
  have hlength := congrArg length hframes
  revert hlength
  decide +kernel

end Courierust.H2
