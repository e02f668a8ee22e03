import Courierust.Quic.Reassembly

/-!
# Reassembly of CRYPTO data

`CryptoReassembly` joins chunks as `StreamReassembly` does, but a chunk that begins where the
data begins is compared as a whole, so that data of another length is taken for a conflict.
-/

namespace Courierust.Quic

open Std (ExtTreeMap)
open Slice (At)

def MAX_CRYPTO_BUFFER : ℕ := 16 * 1024 * 1024

def ReassemblyTexts.crypto : ReassemblyTexts where
  conflict := "conflicting QUIC CRYPTO retransmission"
  limit := "QUIC CRYPTO stream limit exceeded"
  tooMany := "too many out-of-order QUIC CRYPTO chunks"
  overflow := "QUIC CRYPTO offset overflow"

/-- Its `next` and `chunks`; what was delivered is history here, and there is no final size. -/
abbrev CryptoReassembly := StreamReassembly

structure CryptoFrame where
  offset : ℕ
  data : List UInt8

namespace CryptoFrame

def segment (f : CryptoFrame) : StreamFrame := ⟨f.offset, f.data, false⟩

def stop (f : CryptoFrame) : ℕ := f.offset + f.data.length

end CryptoFrame

namespace CryptoReassembly

def insert (r : CryptoReassembly) (offset : ℕ) (data : List UInt8) :
    Except Error (List UInt8) × CryptoReassembly :=
  match checkedAdd offset data.length with
  | none => (.error (Error.protocol "QUIC CRYPTO offset overflow"), r)
  | some stop =>
    if MAX_CRYPTO_BUFFER < stop then
      (.error (Error.protocol "QUIC CRYPTO stream limit exceeded"), r)
    else if stop ≤ r.next then (.ok [], r)
    else
      -- what was delivered is cut off without a look at it
      let start := max offset r.next
      let data := data.drop (r.next - offset)
      match r.chunks[start]? with
      | some previous =>
        if previous ≠ data then
          (.error (Error.protocol "conflicting QUIC CRYPTO retransmission"), r)
        else r.takeReady .crypto
      | none =>
        match checkedAdd start data.length with
        | none => (.error (Error.protocol "QUIC CRYPTO offset overflow"), r)
        | some stop => r.store .crypto start stop data MAX_CRYPTO_BUFFER

/-- The frame does not add a chunk to `MAX_STREAM_CHUNKS` of them. -/
def Within (r : CryptoReassembly) (f : CryptoFrame) : Prop :=
  r.chunks.size < MAX_STREAM_CHUNKS ∨ f.stop ≤ r.next ∨ r.chunks.contains (max f.offset r.next) ∨
    r.affected (max f.offset r.next) f.stop ≠ []

def Aligned (r : CryptoReassembly) (f : CryptoFrame) : Prop :=
  f.stop ≤ r.next ∨ ∀ c ∈ r.chunks[max f.offset r.next]?, max f.offset r.next + c.length = f.stop

variable {b : List UInt8} {r : CryptoReassembly} {f : CryptoFrame}

structure Inserted (b : List UInt8) (r : CryptoReassembly) (f : CryptoFrame) (out : List UInt8)
    (r' : CryptoReassembly) : Prop where
  holds : r'.Holds b
  next : r'.chunks[r'.next]? = none
  out : r'.delivered = r.delivered ++ out
  has : ∀ i, r'.Has i ↔ r.Has i ∨ (f.offset ≤ i ∧ i < f.stop)
  final : r'.finalSize = r.finalSize

theorem buffer_le_u64Max : MAX_CRYPTO_BUFFER ≤ u64Max := by decide

/-- An octet that the frame brings was there before, or is among the new ones. -/
theorem has_or_new (r : CryptoReassembly) (f : CryptoFrame) (i : ℕ) :
    (r.Has i ∨ (max f.offset r.next ≤ i ∧ i < f.stop)) ↔
      r.Has i ∨ (f.offset ≤ i ∧ i < f.stop) := by
  refine ⟨Or.imp_right fun hi => ⟨(le_max_left _ _).trans hi.1,hi.2⟩,?_⟩
  rintro (hi | hi)
  · exact .inl hi
  · by_cases hlt : i < r.next
    · exact .inl (.inl hlt)
    · exact .inr ⟨max_le hi.1 (not_lt.1 hlt),hi.2⟩

theorem length_new (h : r.next < f.stop) :
    max f.offset r.next+(f.data.drop (r.next-f.offset)).length = f.stop := by
  rw [CryptoFrame.stop] at *
  rw [List.length_drop]
  omega

theorem at_new (h : At b f.offset f.data) :
    At b (max f.offset r.next) (f.data.drop (r.next-f.offset)) := by
  have hdrop := h.drop (r.next-f.offset)
  rwa [show f.offset+(r.next-f.offset) = max f.offset r.next by omega] at hdrop

/-- Past the first checks there are new octets, and a chunk where they begin or none. -/
theorem insert_eq (hb : b.length ≤ MAX_CRYPTO_BUFFER) (hf : Segment b f.segment)
    (hnew : r.next < f.stop) :
    insert r f.offset f.data =
      match r.chunks[max f.offset r.next]? with
      | some previous =>
        if previous ≠ f.data.drop (r.next-f.offset) then
          (.error (Error.protocol "conflicting QUIC CRYPTO retransmission"),r)
        else r.takeReady .crypto
      | none => r.store .crypto (max f.offset r.next) f.stop (f.data.drop (r.next-f.offset))
          MAX_CRYPTO_BUFFER := by
  have hle : f.stop ≤ MAX_CRYPTO_BUFFER := hf.le.trans hb
  have hfits := hle.trans buffer_le_u64Max
  have hadd : checkedAdd f.offset f.data.length = some f.stop := StreamReassembly.checkedAdd_eq hfits
  have hagain := StreamReassembly.checkedAdd_eq ((length_new hnew).le.trans hfits)
  rw [length_new hnew] at hagain
  simp only [insert,hadd,if_neg hle.not_gt,if_neg hnew.not_ge,hagain]

theorem insert_spec (hb : b.length ≤ MAX_CRYPTO_BUFFER) (h : r.Holds b)
    (hnone : r.chunks[r.next]? = none) (hf : Segment b f.segment) (hroom : Within r f)
    (haligned : Aligned r f) :
    ∃ out r', insert r f.offset f.data = (.ok out,r') ∧ Inserted b r f out r' := by
  have hmax := hb.trans buffer_le_u64Max
  by_cases hold : f.stop ≤ r.next
  · have hle : f.stop ≤ MAX_CRYPTO_BUFFER := hf.le.trans hb
    have hadd : checkedAdd f.offset f.data.length = some f.stop :=
      StreamReassembly.checkedAdd_eq (hle.trans buffer_le_u64Max)
    refine ⟨[],r,?_,h,hnone,(List.append_nil _).symm,fun i => ?_,rfl⟩
    · simp only [insert,hadd,if_neg hle.not_gt,if_pos hold]
    · refine ⟨.inl,fun hi => hi.elim id fun hi => .inl (hi.2.trans_le hold)⟩
  have hnew := not_le.1 hold
  have hlength := length_new hnew
  rw [insert_eq hb hf hnew]
  cases hchunk : r.chunks[max f.offset r.next]? with
  | some c =>
    -- the same piece of the stream, as both end at the same place
    have hend := haligned.resolve_left hold c hchunk
    have hsame : c = f.data.drop (r.next-f.offset) :=
      (h.piece _ _ hchunk).eq (at_new hf.piece) (by omega)
    obtain ⟨out,r',htake,hready⟩ :=
      StreamReassembly.takeReady_spec (w := .crypto) hmax h
    refine ⟨out,r',?_,hready.holds,hready.next,hready.out,fun i => ?_,hready.final⟩
    · simp [hsame,htake]
    · rw [hready.has,← has_or_new]
      refine ⟨.inl,fun hi => hi.elim id fun hi => .inr ⟨_,c,hchunk,hi.1,?_⟩⟩
      omega
  | none =>
    have hspace : r.chunks.size < MAX_STREAM_CHUNKS ∨
        r.affected (max f.offset r.next)
          (max f.offset r.next+(f.data.drop (r.next-f.offset)).length) ≠ [] := by
      rw [hlength]
      refine hroom.imp_right fun hroom => (hroom.resolve_left hold).resolve_left ?_
      rw [ExtTreeMap.contains_eq_isSome_getElem?,hchunk]
      exact Bool.false_ne_true
    obtain ⟨out,r',hstore,hadded⟩ :=
      StreamReassembly.store_spec hb buffer_le_u64Max h (at_new hf.piece)
        (hlength.le.trans hf.le) (le_max_right _ _) (fun _ c hc => by rw [hchunk] at hc; cases hc)
        hspace
    rw [hlength] at hstore
    refine ⟨out,r',hstore,hadded.holds,hadded.next,hadded.out,fun i => ?_,hadded.final⟩
    rw [hadded.has,hlength]
    exact has_or_new r f i

/-- Data of another length than the chunk where it begins is refused. -/
theorem insert_misaligned (hb : b.length ≤ MAX_CRYPTO_BUFFER) (hf : Segment b f.segment)
    (h : ¬Aligned r f) :
    insert r f.offset f.data =
      (.error (Error.protocol "conflicting QUIC CRYPTO retransmission"),r) := by
  simp only [Aligned,not_or,not_le,not_forall] at h
  obtain ⟨hnew,c,hchunk,hend⟩ := h
  rw [insert_eq hb hf hnew,Option.mem_def.1 hchunk]
  refine if_pos fun hsame => hend ?_
  rw [hsame,length_new hnew]

end CryptoReassembly

open CryptoReassembly (Within Aligned)

namespace Receiver

def cryptoStep (s : Receiver) (f : CryptoFrame) : Receiver :=
  match CryptoReassembly.insert s.reassembly f.offset f.data with
  | (.ok out, r) =>
    { s with reassembly := r, output := s.output ++ out, frames := s.frames ++ [f.segment] }
  | (.error _, r) => { s with reassembly := r, failed := true, frames := s.frames ++ [f.segment] }

/-- No call failed, and what they returned is the stream up to the first octet that has not
    arrived. -/
structure Delivers (b : List UInt8) (s : Receiver) : Prop where
  accepted : s.failed = false
  output : s.output = b.take s.output.length
  first : ∀ i, i < s.output.length ↔ ∀ j ≤ i, Arrived s.frames j

variable {b : List UInt8} {s : Receiver} {f : CryptoFrame}

theorem Follows.delivers (h : Follows b s) : Delivers b s := by
  have hlength : s.output.length = s.reassembly.next := by
    rw [← h.output,h.holds.length_delivered]
  refine ⟨h.failed,h.output_eq,fun i => ?_⟩
  rw [hlength]
  constructor
  · exact fun hi j hj => (h.has j).1 (.inl (hj.trans_lt hi))
  · intro hall
    by_contra hge
    exact h.not_arrived_next (hall _ (not_lt.1 hge))

theorem Follows.cryptoStep (hb : b.length ≤ MAX_CRYPTO_BUFFER) (h : Follows b s)
    (hf : Segment b f.segment) (hroom : Within s.reassembly f) (haligned : Aligned s.reassembly f) :
    Follows b (s.cryptoStep f) := by
  obtain ⟨out,r',heq,hinserted⟩ :=
    CryptoReassembly.insert_spec hb h.holds h.next hf hroom haligned
  unfold Receiver.cryptoStep
  rw [heq]
  exact h.inserted (f := f.segment) ⟨hinserted.holds,hinserted.next,hinserted.out,hinserted.has,
    hinserted.final⟩

end Receiver

/-- CRYPTO data of a stream is accepted and delivered all along a run, if and only if no frame
    ends elsewhere than a chunk that waits where its new octets begin. -/
theorem crypto_reassembled_iff (b : List UInt8) (hb : b.length ≤ MAX_CRYPTO_BUFFER)
    (frames : List CryptoFrame)
    (hframes : Run.Along Receiver.cryptoStep
      (fun s f => Segment b f.segment ∧ Within s.reassembly f) {} frames) :
    (∀ frames', frames' <+: frames → (Run.run Receiver.cryptoStep {} frames').Delivers b) ↔
      Run.Along Receiver.cryptoStep (fun s f => Aligned s.reassembly f) {} frames := by
  refine Run.along_iff (fun s h => h.delivers)
    (fun s f h hdom hok => h.cryptoStep hb hdom.1 hdom.2 hok) (fun s f h hdom hnext => ?_)
    (Receiver.follows_start b) hframes
  by_contra hmisaligned
  have hfailed := hnext.accepted
  rw [Receiver.cryptoStep,CryptoReassembly.insert_misaligned hb hdom.1 hmisaligned] at hfailed
  cases hfailed

/-- The second half of the data arrives first, then more than the first half. -/
theorem crypto_reassembled_out_of_order :
    (∀ frames', frames' <+: [⟨2, [3, 4]⟩, ⟨0, [1, 2, 3]⟩] →
      (Run.run Receiver.cryptoStep {} frames').Delivers [1, 2, 3, 4]) ↔
      Run.Along Receiver.cryptoStep (fun s f => Aligned s.reassembly f) {}
        [⟨2, [3, 4]⟩, ⟨0, [1, 2, 3]⟩] :=
  crypto_reassembled_iff [1,2,3,4] (by decide) [⟨2,[3,4]⟩,⟨0,[1,2,3]⟩]
    ⟨⟨by decide, .inl (show 0 < 4096 by decide)⟩,⟨by decide, .inl (show 1 < 4096 by decide)⟩,trivial⟩

/-- A shorter repetition of a chunk that waits is refused. -/
theorem crypto_refuses_shorter :
    Run.Along Receiver.cryptoStep
        (fun s f => Segment [1, 2, 3, 4] f.segment ∧ Within s.reassembly f) {}
        [⟨1, [2, 3, 4]⟩, ⟨1, [2]⟩] ∧
      (Run.run Receiver.cryptoStep {} [⟨1, [2, 3, 4]⟩, ⟨1, [2]⟩]).failed = true :=
  ⟨⟨⟨by decide, .inl (show 0 < 4096 by decide)⟩,⟨by decide, .inl (show 1 < 4096 by decide)⟩,trivial⟩,
    rfl⟩

end Courierust.Quic
