import Courierust.Lib.Run
import Courierust.Qpack.Receive

/-!
# Two QPACK endpoints

An endpoint `a` encodes field sections towards an endpoint `b`. The encoder stream, the
decoder stream and every request stream deliver independently of each other, each in its
own order and in pieces of any size, and `b` retries its blocked sections after every
piece of the encoder stream.

The encoder does not look at what its inserts evict. `KeepsReferenced` is the condition
on a section under which it evicts nothing that is still needed, and with it the
endpoints agree in every run.
-/

namespace Courierust.Qpack

open QpackConnection Run
open List

def endpoint : QpackConnection :=
  (QpackConnection.new QPACK_MAX_TABLE_CAPACITY QPACK_BLOCKED_STREAMS).setPeerCapacity
    QPACK_MAX_TABLE_CAPACITY

/-- The endpoints and what is between them. `sent` and `decoded` are history. -/
structure Link where
  a : QpackConnection
  b : QpackConnection
  /-- Octets of the encoder stream that `b` has and has not used. -/
  encoderBuf : List UInt8
  /-- Octets of the decoder stream that `a` has and has not used. -/
  decoderBuf : List UInt8
  /-- Sections that `b` does not have yet. -/
  inFlight : List FieldSection
  sent : List (Usize × List Field)
  decoded : List (Usize × List FieldLine)
  error : Option Error

inductive LinkOp where
  | encode (streamId : Usize) (fields : List Field)
  /-- The next `n` octets of the encoder stream arrive. -/
  | deliverEncoder (n : ℕ)
  /-- The section at `i` arrives, if none is before it on its stream. -/
  | deliverSection (i : ℕ)
  /-- The next `n` octets of the decoder stream arrive. -/
  | deliverDecoder (n : ℕ)

variable {maxHeaderList : Usize} {log : List DynEntry} {s : Link} {n : ℕ} {c : QpackConnection}

namespace Link

def init : Link := ⟨endpoint, endpoint, [], [], [], [], [], none⟩

/-- `a` encodes a section; one that it refuses is not sent. -/
def encode (maxHeaderList : Usize) (s : Link) (streamId : Usize) (fields : List Field) : Link :=
  match s.a.encode streamId fields maxHeaderList with
  | (.ok x, a) =>
    { s with a := a, inFlight := s.inFlight ++ [x], sent := s.sent ++ [(streamId, fields)] }
  | (.error _, a) => { s with a := a }

def deliverEncoder (maxHeaderList : Usize) (s : Link) (n : ℕ) : Link :=
  let a := { s.a with encoderOut := s.a.encoderOut.drop n }
  match s.b.onEncoderStream (s.encoderBuf ++ s.a.encoderOut.take n) with
  | .error e => { s with a := a, error := some e }
  | .ok (b, rest) =>
    match b.retryBlocked maxHeaderList with
    | .error e => { s with a := a, error := some e }
    | .ok (unblocked, b) =>
      { s with
        a := a, b := b, encoderBuf := rest
        decoded := s.decoded ++ unblocked.map fun (x, fields) => (x.streamId, fields) }

def deliverSection (maxHeaderList : Usize) (s : Link) (i : ℕ) : Link :=
  match s.inFlight[i]? with
  | none => s
  | some x =>
    if (s.inFlight.take i).any (·.streamId == x.streamId) then s
    else
      match s.b.decode x maxHeaderList with
      | .error e => { s with inFlight := s.inFlight.eraseIdx i, error := some e }
      | .ok (some fields, b) =>
        { s with
          b := b, inFlight := s.inFlight.eraseIdx i, decoded := s.decoded ++ [(x.streamId, fields)] }
      | .ok (none, b) => { s with b := b, inFlight := s.inFlight.eraseIdx i }

def deliverDecoder (s : Link) (n : ℕ) : Link :=
  let b := { s.b with decoderOut := s.b.decoderOut.drop n }
  match s.a.onDecoderStream (s.decoderBuf ++ s.b.decoderOut.take n) with
  | .error e => { s with b := b, error := some e }
  | .ok (a, rest) => { s with a := a, b := b, decoderBuf := rest }

def step (maxHeaderList : Usize) (s : Link) (op : LinkOp) : Link :=
  if s.error.isSome then s
  else
    match op with
    | .encode streamId fields => s.encode maxHeaderList streamId fields
    | .deliverEncoder n => s.deliverEncoder maxHeaderList n
    | .deliverSection i => s.deliverSection maxHeaderList i
    | .deliverDecoder n => s.deliverDecoder n

def undecoded (s : Link) : List FieldSection := s.b.blocked ++ s.inFlight

/-- The limits of the endpoints: a section that `encode` accepts, of at most 256 fields, with
    the insert counter well inside its 64 bits; and room for every section that has to wait. -/
def WithinLimits (maxHeaderList : Usize) (s : Link) : LinkOp → Prop
  | .encode streamId fields =>
    (s.a.encode streamId fields maxHeaderList).1.isOk ∧ fields.length ≤ 256 ∧
      s.a.encoder.insertCount + fields.length + 512 ≤ u64Max
  | .deliverSection i =>
    ∀ x ∈ s.inFlight[i]?,
      x.ready s.b.decoder.insertCount = true ∨ s.b.blocked.length < s.b.blockedLimit
  | _ => True

/-- From some index `k` on the table holds every entry that an undecoded section or a
    field of the new one refers to, and those entries fit together with the inserts of
    the new section. -/
def KeepsReferenced (s : Link) : LinkOp → Prop
  | .encode _ fields =>
    ∃ k ≤ s.a.encoder.insertCount, s.a.encoder.first ≤ k ∧
      (∀ x ∈ s.undecoded, ∀ r ∈ x.refs, k ≤ r) ∧
      (∀ f ∈ fields, ∀ r ∈ refersTo s.a.encoder s.a.knownReceived f, k ≤ r) ∧
      logSize (s.a.encoder.entries.drop (k - s.a.encoder.first)) +
        insertSize s.a.encoder s.a.knownReceived fields ≤ s.a.encoder.capacity
  | _ => True

instance (maxHeaderList : Usize) (s : Link) : ∀ op, Decidable (s.WithinLimits maxHeaderList op)
  | .encode _ _ => inferInstanceAs (Decidable (_ ∧ _ ∧ _))
  | .deliverSection i => inferInstanceAs (Decidable (∀ x ∈ s.inFlight[i]?, _))
  | .deliverEncoder _ | .deliverDecoder _ => inferInstanceAs (Decidable True)

instance (s : Link) : ∀ op, Decidable (s.KeepsReferenced op)
  | .encode _ _ => inferInstanceAs (Decidable (∃ k ≤ s.a.encoder.insertCount, _))
  | .deliverEncoder _ | .deliverSection _ | .deliverDecoder _ => inferInstanceAs (Decidable True)

/-! ### The invariant -/

def meant (x : FieldSection) : Usize × List FieldLine := (x.streamId, x.fields.map Field.line)

/-- `log` is all that `a` ever inserted and `n` how much of it `b` has: `b` is fed the rest,
    every undecoded section refers to entries `a` still holds, and every entry that `b`
    lacks is one that an undecoded section refers to. -/
structure Holds (maxHeaderList : Usize) (s : Link) (log : List DynEntry) (n : ℕ) : Prop where
  error : s.error = none
  peer : s.a.peerCapacity = QPACK_MAX_TABLE_CAPACITY
  encoder : Tracks s.a.encoder log
  capacity : s.a.encoder.capacity = QPACK_MAX_TABLE_CAPACITY
  decoder : Tracks s.b.decoder (log.take n)
  advertised : s.b.capacity = QPACK_MAX_TABLE_CAPACITY
  le_length : n ≤ log.length
  room : log.length + 512 ≤ u64Max
  stream : ∃ ws, s.encoderBuf ++ s.a.encoderOut = ws.flatten ∧
    Feeds s.b.decoder (log.drop n) ws s.a.encoder
  complete : s.a.encoderOut = [] → s.encoderBuf = []
  sections : ∀ x ∈ s.undecoded,
    Nonempty (SectionFor maxHeaderList log x) ∧ ∀ r ∈ x.refs, s.a.encoder.first ≤ r
  needed : ∀ i, n ≤ i → i < log.length → ∃ x ∈ s.undecoded, i ∈ x.refs
  waiting : ∀ x ∈ s.b.blocked, x.ready n = false
  signals : ∃ is : List DecoderInstruction, (∀ i ∈ is, i.Written) ∧
    s.decoderBuf ++ s.b.decoderOut = (is.map encodeDecoderInstruction).flatten ∧
    s.a.knownReceived + increments is = s.b.signaled
  signaled_le : s.b.signaled ≤ n
  history : (s.sent.map fun (id, fields) => (id, fields.map Field.line)).Perm
    (s.decoded ++ s.undecoded.map meant)

def Inv (maxHeaderList : Usize) (s : Link) : Prop := ∃ log n, s.Holds maxHeaderList log n

theorem inv_init (maxHeaderList : Usize) : Inv maxHeaderList init := by
  refine ⟨[],0,rfl,rfl,?_,rfl,Tracks.new 0 (by decide),rfl,le_rfl,by decide,?_,
    fun _ => rfl,?_,?_,?_,?_,le_rfl,.nil⟩
  · exact Tracks.new QPACK_MAX_TABLE_CAPACITY (by decide)
  · exact ⟨[encodeEncoderInstruction (.setCapacity QPACK_MAX_TABLE_CAPACITY)],by
      simp [init,endpoint,setPeerCapacity,QpackConnection.new,QPACK_MAX_TABLE_CAPACITY],
      .capacity (.nil _)⟩
  · simp [init,undecoded,endpoint,setPeerCapacity,QpackConnection.new]
  · simp
  · simp [init,endpoint,setPeerCapacity,QpackConnection.new]
  · exact ⟨[],by simp,rfl,rfl⟩

namespace Holds

variable {maxHeaderList : Usize} {s : Link} {log : List DynEntry} {n : ℕ}

theorem receiver (h : s.Holds maxHeaderList log n) : Receiver s.b log n s.a.encoder.first := by
  have hroom := h.room
  have hlen : (log.take n).length+(log.drop n).length = log.length := by
    rw [← length_append,take_append_drop]
  obtain ⟨ws,-,hfeeds⟩ := h.stream
  refine ⟨h.advertised,h.decoder,h.le_length,h.room,?_,?_,?_⟩
  · exact (hfeeds.tracks h.decoder (by rw [hlen]; unfold u64Max at hroom; omega)).2
  · rcases h.le_length.lt_or_eq with hlt | heq
    · obtain ⟨x,hx,hmem⟩ := h.needed n le_rfl hlt
      exact (h.sections x hx).2 n hmem
    · rw [heq]
      exact h.encoder.first_le
  · have hlen := h.encoder.length_le
    rw [h.capacity,QPACK_MAX_TABLE_CAPACITY] at hlen
    omega

end Holds

/-! ### Encoding -/

theorem encode_ok {id : Usize} {fields : List Field} {maxHeaderList : ℕ}
    (h : (c.encode id fields maxHeaderList).1.isOk = true) :
    let r := encodeFields c.knownReceived c.encoder.insertCount maxHeaderList
      ⟨c.encoder,c.encoderOut,[],0,0,[]⟩ fields
    let block := encodeFieldSectionPrefix r.2.required c.encoder.insertCount (max c.peerCapacity 1) ++
      r.2.body
    r.1 = .ok () ∧ block.length ≤ maxHeaderList ∧
      c.encode id fields maxHeaderList = (.ok ⟨id,block,fields,r.2.refs⟩,
        { c with encoder := r.2.encoder, encoderOut := r.2.encoderOut }) := by
  simp only [QpackConnection.encode] at h ⊢
  generalize encodeFields c.knownReceived c.encoder.insertCount maxHeaderList
    ⟨c.encoder,c.encoderOut,[],0,0,[]⟩ fields = r at h ⊢
  obtain ⟨result,e⟩ := r
  cases result with
  | error err => cases h
  | ok _ =>
    simp only at h ⊢
    split_ifs at h ⊢ with hlong
    · cases h
    · exact ⟨trivial,not_lt.1 hlong,rfl⟩

theorem Holds.encode (h : s.Holds maxHeaderList log n) (streamId : Usize) (fields : List Field)
    (hlimits : s.WithinLimits maxHeaderList (.encode streamId fields))
    (hkeeps : s.KeepsReferenced (.encode streamId fields)) :
    Inv maxHeaderList (s.encode maxHeaderList streamId fields) := by
  obtain ⟨hok,hcount,hroom⟩ := hlimits
  obtain ⟨k,hk,hfirst,hold,hnew,hfit⟩ := hkeeps
  have hmax := maxHeaderList.le_max
  have hcap := h.capacity
  rw [h.encoder.count] at hk hroom
  obtain ⟨hfields,hlen,heq⟩ := encode_ok hok
  rw [h.encoder.count,h.peer] at hlen heq
  rw [h.encoder.count] at hfields
  -- The window from `k` on, in terms of the log.
  have hwindow : s.a.encoder.entries.drop (k-s.a.encoder.first) = log.drop k := by
    rw [h.encoder.entries_eq,drop_drop]
    congr 1
    omega
  rw [hwindow] at hfit
  have hstart : Encoded s.a.encoder log s.a.knownReceived k s.a.encoderOut
      ⟨s.a.encoder,s.a.encoderOut,[],0,0,[]⟩ [] [] :=
    ⟨by simpa using h.encoder,rfl,hfirst,le_rfl,⟨[],by simp,.nil _⟩,by simp,by simp,by simp,
      by simp,⟨[],rfl,.nil⟩⟩
  obtain ⟨ys,hdone,hpinned,hys,hsize⟩ := hstart.encodeFields h.encoder hk h.capacity.le hmax fields hnew
    (by simp only [append_nil]; omega) (by simpa using hfit)
    (by intro i hi hlt; simp only [append_nil] at hlt; omega) (Nat.zero_le _) hfields
  unfold Link.encode
  rw [heq]
  generalize encodeFields s.a.knownReceived log.length maxHeaderList
    ⟨s.a.encoder,s.a.encoderOut,[],0,0,[]⟩ fields = r at hdone hpinned hlen ⊢
  obtain ⟨ws,hws,hfeeds⟩ := h.stream
  obtain ⟨us,hus,hfed⟩ := hdone.fed
  obtain ⟨words,hbody,hlines⟩ := hdone.lines
  have hlog : (log ++ ys).length = log.length+ys.length := length_append
  have hle := h.le_length
  refine ⟨log ++ ys,n,h.error,rfl,hdone.tracks,hdone.capacity.trans hcap,?_,h.advertised,
    by omega,by omega,⟨ws ++ us,?_,?_⟩,?_,?_,?_,h.waiting,h.signals,h.signaled_le,?_⟩
  · rw [take_append_of_le_length hle]
    exact h.decoder
  · simp [← hws,hus]
  · rw [drop_append_of_le_length hle]
    exact hfeeds.trans hfed
  · intro hnil
    exact h.complete (append_eq_nil_iff.1 (hus.symm.trans hnil)).1
  · -- Nothing that an older section refers to is evicted.
    intro x hx
    have hkept := hdone.first_le
    simp only [undecoded,← append_assoc,mem_append,mem_singleton] at hx
    rcases hx with hx | rfl
    · have hx : x ∈ s.undecoded := mem_append.2 hx
      obtain ⟨hsection⟩ := (h.sections x hx).1
      exact ⟨⟨hsection.mono ys⟩,fun r hr => hkept.trans (hold x hx r hr)⟩
    refine ⟨⟨log.length,r.2.required,words,?_,hlines,by omega,fun i hi => ?_,
      hdone.required_mem,hlen,by simpa using hsize,hcount⟩,fun i hi => ?_⟩
    · rw [hbody]
      rfl
    · exact ⟨hdone.required_gt i hi,(hdone.refs i hi).2⟩
    · exact hkept.trans (hdone.refs i hi).1
  · intro i hi hlt
    by_cases hi' : i < log.length
    · obtain ⟨x,hx,hmem⟩ := h.needed i hi hi'
      refine ⟨x,?_,hmem⟩
      simp only [undecoded,mem_append] at hx ⊢
      tauto
    · exact ⟨_,mem_append_right _ (mem_append_right _ (mem_singleton_self _)),
        hpinned i (not_lt.1 hi') hlt⟩
  · simp only [undecoded,map_append,← append_assoc]
    have hhist := h.history
    simp only [undecoded,map_append,← append_assoc] at hhist
    exact hhist.append_right _

/-! ### Deliveries -/

theorem Holds.signals_after {n' : ℕ}
    (h : s.Holds maxHeaderList log n) {b' : QpackConnection} (hc : Signals c b')
    (hsignaled : c.signaled = s.b.signaled) (hout : c.decoderOut = s.b.decoderOut)
    (hcount : c.decoder.insertCount = n') (hn : n ≤ n') :
    (∃ is : List DecoderInstruction, (∀ i ∈ is, i.Written) ∧
      s.decoderBuf ++ b'.decoderOut = (is.map encodeDecoderInstruction).flatten ∧
      s.a.knownReceived+increments is = b'.signaled) ∧ b'.signaled ≤ n' := by
  obtain ⟨is,hwritten,howed,hsum⟩ := h.signals
  obtain ⟨js,hwritten',rfl,hle⟩ := hc
  refine ⟨⟨is ++ js,fun i hi => ?_,?_,?_⟩,?_⟩
  · rcases mem_append.1 hi with hi | hi
    · exact hwritten i hi
    · exact hwritten' i hi
  · simp [← howed,hout]
  · simp only [increments_append,hsignaled]
    omega
  · have := h.signaled_le
    have hle := hle (by omega)
    rwa [hcount] at hle

theorem Holds.deliverEncoder (h : s.Holds maxHeaderList log n) (k : ℕ) :
    Inv maxHeaderList (s.deliverEncoder maxHeaderList k) := by
  have hroom := h.room
  have hle := h.le_length
  have hreceiver := h.receiver
  obtain ⟨ws,hws,hfeeds⟩ := h.stream
  have hlen : (log.take n).length+(log.drop n).length = log.length := by
    rw [← length_append,take_append_drop]
  have hpiece : (s.encoderBuf ++ s.a.encoderOut.take k) ++ s.a.encoderOut.drop k = ws.flatten := by
    rw [append_assoc,take_append_drop,hws]
  have hslice := min_le_right (s.encoderBuf ++ s.a.encoderOut.take k).length isizeMax
  obtain ⟨done,todo,t,left,rfl,hbuf,hdone,-,-,hrun,hall⟩ :=
    Reader.consume_piece (hfeeds.script hslice h.decoder (by omega)) ⟨_,hpiece⟩ _ le_rfl
  obtain ⟨t',xs,ys,hxs,hfed,htofeed⟩ := hfeeds.split
  have hxslen : (log.take n).length+xs.length ≤ log.length := by
    rw [hxs,length_append] at hlen
    omega
  obtain rfl := (hfed.script hslice h.decoder (by omega)).functional hdone
  -- `b` now has the inserts `xs` more.
  have htake : log.take (n+xs.length) = log.take n ++ xs := by
    rw [take_add,hxs,take_left]
  have hdrop : log.drop (n+xs.length) = ys := by
    rw [← drop_drop,hxs,drop_left]
  have htracks : Tracks t' (log.take (n+xs.length)) := by
    rw [htake]
    exact (hfed.tracks h.decoder (by unfold u64Max at hroom; omega)).1
  have hlen' : n+xs.length ≤ log.length := by
    rw [length_take] at hxslen
    omega
  have hrest : left ++ s.a.encoderOut.drop k = todo.flatten := by
    rw [hbuf,flatten_append,append_assoc] at hpiece
    exact append_cancel_left hpiece
  have hcomplete : s.a.encoderOut.drop k = [] → left = [] := fun hnil =>
    (hall (by rw [← hpiece,hnil,append_nil])).2
  have hnew : Receiver { s.b with decoder := t' } log (n+xs.length) s.a.encoder.first :=
    ⟨h.advertised,htracks,hlen',hroom,(htofeed.tracks htracks (by
      rw [length_take,← hdrop,length_drop]
      unfold u64Max at hroom
      omega)).2,hreceiver.behind.trans (Nat.le_add_right _ _),hreceiver.window⟩
  have hflush := Signals.flushIcc { s.b with decoder := t' } (by rw [hnew.insertCount_eq]; omega)
  have hblocked := hflush.unchanged.2.2
  obtain ⟨b',hretry,hb'⟩ := (hnew.of_signals hflush).retryBlocked_eq maxHeaderList.le_max
    (by rw [hblocked]; exact fun x hx => h.sections x (mem_append_left _ hx))
  rw [hblocked] at hretry hb'
  have hsignals := (hflush.withBlocked _).trans hb'
  obtain ⟨hdec,hcap,hstill⟩ := hsignals.unchanged
  obtain ⟨hafter,hafter_le⟩ := h.signals_after hsignals rfl rfl hnew.insertCount_eq
    (Nat.le_add_right _ _)
  have hstream : s.b.onEncoderStream (s.encoderBuf ++ s.a.encoderOut.take k) =
      .ok ({ s.b with decoder := t' }.flushIcc,left) := by
    simp only [onEncoderStream,h.advertised,hrun,bind,Except.bind,pure,Except.pure]
  have hkept : ∀ x ∈ s.undecoded, x.ready (n+xs.length) = false →
      x ∈ (s.b.blocked.filter fun x => !x.ready (n+xs.length)) ++ s.inFlight := by
    intro x hx hwait
    rcases mem_append.1 hx with hx | hx
    · exact mem_append_left _ (mem_filter.2 ⟨hx,by simp [hwait]⟩)
    · exact mem_append_right _ hx
  simp only [Link.deliverEncoder,hstream,hretry]
  refine ⟨log,n+xs.length,h.error,h.peer,h.encoder,h.capacity,hdec ▸ htracks,
    hcap.trans h.advertised,hlen',hroom,⟨todo,hrest,?_⟩,hcomplete,?_,?_,?_,hafter,
    hafter_le,?_⟩
  · rw [hdrop,hdec]
    exact htofeed
  · intro x hx
    rw [undecoded,hstill] at hx
    refine h.sections x ?_
    rcases mem_append.1 hx with hx | hx
    · exact mem_append_left _ (mem_of_mem_filter hx)
    · exact mem_append_right _ hx
  · intro i hi hlt
    obtain ⟨x,hx,hmem⟩ := h.needed i (by omega) hlt
    refine ⟨x,?_,hmem⟩
    rw [undecoded,hstill]
    refine hkept x hx ?_
    by_contra hready
    have := FieldSection.ready_iff.1 (Bool.not_eq_false _ ▸ hready) i hmem
    omega
  · intro x hx
    rw [hstill] at hx
    simpa using (mem_filter.1 hx).2
  · rw [undecoded,hstill]
    refine h.history.trans ?_
    rw [undecoded,map_map,append_assoc]
    refine List.Perm.append_left _ ?_
    simp only [map_append,← append_assoc]
    refine List.Perm.append_right _ ?_
    rw [show (((fun x : FieldSection × List FieldLine => (x.1.streamId,x.2)) ∘
      fun s : FieldSection => (s,s.fields.map Field.line))) = meant from rfl,← map_append]
    exact ((filter_append_perm _ _).symm).map _

theorem Holds.deliverSection (h : s.Holds maxHeaderList log n) (i : ℕ)
    (hlimits : s.WithinLimits maxHeaderList (.deliverSection i)) :
    Inv maxHeaderList (s.deliverSection maxHeaderList i) := by
  unfold Link.deliverSection
  cases hx : s.inFlight[i]? with
  | none => exact ⟨log,n,h⟩
  | some x =>
    simp only
    split_ifs
    · exact ⟨log,n,h⟩
    have hreceiver := h.receiver
    have hlimits := hlimits x hx
    rw [hreceiver.insertCount_eq] at hlimits
    obtain ⟨hi,rfl⟩ := List.getElem?_eq_some_iff.1 hx
    have hperm := getElem_cons_eraseIdx_perm hi
    generalize s.inFlight[i] = x at *
    have hmem : x ∈ s.undecoded := mem_append_right _ (hperm.subset (by simp))
    obtain ⟨⟨hsection⟩,hrefs⟩ := h.sections x hmem
    have hmax := hsection.block_le
    have hsub : ∀ y ∈ s.inFlight.eraseIdx i, y ∈ s.undecoded := fun y hy =>
      mem_append_right _ (hperm.subset (by simp [hy]))
    cases hready : x.ready n with
    | true =>
      obtain ⟨b,htry,hb⟩ := hreceiver.tryDecode_ready hsection hrefs maxHeaderList.le_max hready
      obtain ⟨hdec,hcap,hblocked⟩ := hb.unchanged
      obtain ⟨hafter,hafter_le⟩ := h.signals_after hb rfl rfl hreceiver.insertCount_eq le_rfl
      have hdecode : s.b.decode x maxHeaderList = .ok (some (x.fields.map Field.line),b) := by
        simp only [QpackConnection.decode,htry,bind,Except.bind,pure,Except.pure,
          if_neg (not_lt.2 hmax)]
      simp only [hdecode]
      refine ⟨log,n,h.error,h.peer,h.encoder,h.capacity,hdec ▸ h.decoder,hcap.trans h.advertised,
        h.le_length,h.room,hdec ▸ h.stream,h.complete,?_,?_,hblocked ▸ h.waiting,hafter,hafter_le,?_⟩
      · intro y hy
        rw [undecoded,hblocked] at hy
        rcases mem_append.1 hy with hy | hy
        · exact h.sections y (mem_append_left _ hy)
        · exact h.sections y (hsub y hy)
      · -- A decoded section needs no insert that `b` lacks.
        intro j hj hlt
        obtain ⟨y,hy,hyj⟩ := h.needed j hj hlt
        refine ⟨y,?_,hyj⟩
        rw [undecoded,hblocked]
        rcases mem_append.1 hy with hy | hy
        · exact mem_append_left _ hy
        · rcases mem_cons.1 (hperm.symm.subset hy) with rfl | hy
          · have := FieldSection.ready_iff.1 hready j hyj
            omega
          · exact mem_append_right _ hy
      · rw [undecoded,hblocked]
        refine h.history.trans ?_
        rw [undecoded,append_assoc]
        refine List.Perm.append_left _ ?_
        exact ((List.Perm.append_left _ hperm.symm).trans perm_middle).map _
    | false =>
      have hroom : s.b.blocked.length < s.b.blockedLimit := by
        rcases hlimits with hbad | hroom
        · rw [hready] at hbad
          cases hbad
        · exact hroom
      have hdecode : s.b.decode x maxHeaderList =
          .ok (none,{ s.b with blocked := s.b.blocked ++ [x] }) := by
        simp only [QpackConnection.decode,hreceiver.tryDecode_waiting hsection hrefs hready,bind,
          Except.bind,pure,Except.pure,if_neg (not_lt.2 hmax),if_neg (not_le.2 hroom)]
      have hsame : (s.b.blocked ++ [x] ++ s.inFlight.eraseIdx i).Perm s.undecoded := by
        rw [append_assoc]
        exact List.Perm.append_left _ hperm
      simp only [hdecode]
      refine ⟨log,n,h.error,h.peer,h.encoder,h.capacity,h.decoder,h.advertised,h.le_length,
        h.room,h.stream,h.complete,fun y hy => h.sections y (hsame.subset hy),fun j hj hlt => ?_,?_,h.signals,
        h.signaled_le,?_⟩
      · obtain ⟨y,hy,hyj⟩ := h.needed j hj hlt
        exact ⟨y,hsame.symm.subset hy,hyj⟩
      · intro y hy
        rcases mem_append.1 hy with hy | hy
        · exact h.waiting y hy
        · rw [mem_singleton.1 hy]
          exact hready
      · exact h.history.trans (List.Perm.append_left _ (hsame.symm.map _))

theorem script_decoderInstructions (c : QpackConnection) (is : List DecoderInstruction)
    (hwritten : ∀ i ∈ is, i.Written)
    (hle : c.knownReceived+increments is ≤ c.encoder.insertCount)
    (hmax : c.encoder.insertCount ≤ u64Max) :
    Reader.Script Error.eof readDecoderInstruction c (is.map encodeDecoderInstruction)
      { c with knownReceived := c.knownReceived+increments is } := by
  induction is generalizing c with
  | nil => exact .nil c
  | cons i is ih =>
    have hread := (hwritten i (by simp)).reads
    simp only [increments,map_cons,sum_cons] at hle ⊢
    have happly : c.applyDecoderInstruction i =
        .ok { c with knownReceived := c.knownReceived+i.increment } := by
      cases i with
      | sectionAck | streamCancellation => rfl
      | insertCountIncrement m =>
        simp only [DecoderInstruction.increment] at hle
        simp only [applyDecoderInstruction,checkedAdd,DecoderInstruction.increment]
        rw [if_pos (by omega)]
        simp only
        rw [if_neg (by omega)]
    have hstep := hread.map happly
    refine .cons (hread.ne_nil rfl) hstep ?_
    have hrest := ih { c with knownReceived := c.knownReceived+i.increment }
      (fun j hj => hwritten j (by simp [hj])) (by simp only [increments]; omega) hmax
    simpa only [increments,Nat.add_assoc] using hrest

theorem Holds.deliverDecoder
    (h : s.Holds maxHeaderList log n) (k : ℕ) : Inv maxHeaderList (s.deliverDecoder k) := by
  have hroom := h.room
  have hle := h.le_length
  have hcount := h.encoder.count
  have hsignaled := h.signaled_le
  obtain ⟨is,hwritten,howed,hsum⟩ := h.signals
  have hscript := script_decoderInstructions s.a is hwritten (by omega) (by omega)
  have hpiece : (s.decoderBuf ++ s.b.decoderOut.take k) ++ s.b.decoderOut.drop k =
      (is.map encodeDecoderInstruction).flatten := by
    rw [append_assoc,take_append_drop,howed]
  obtain ⟨done,todo,c,left,hsplit,hbuf,hdone,-,-,hrun,-⟩ :=
    Reader.consume_piece hscript ⟨_,hpiece⟩ _ le_rfl
  obtain ⟨js,ks,rfl,rfl,rfl⟩ := map_eq_append_iff.1 hsplit
  rw [increments_append] at hsum
  obtain rfl := (script_decoderInstructions s.a js (fun i hi => hwritten i (by simp [hi])) (by omega)
    (by omega)).functional hdone
  have hrest : left ++ s.b.decoderOut.drop k = (ks.map encodeDecoderInstruction).flatten := by
    rw [hbuf,map_append,flatten_append,append_assoc] at hpiece
    exact append_cancel_left hpiece
  have hstream : s.a.onDecoderStream (s.decoderBuf ++ s.b.decoderOut.take k) =
      .ok ({ s.a with knownReceived := s.a.knownReceived+increments js },left) := hrun
  simp only [Link.deliverDecoder,hstream]
  exact ⟨log,n,h.error,h.peer,h.encoder,h.capacity,h.decoder,h.advertised,hle,hroom,h.stream,
    h.complete,h.sections,h.needed,h.waiting,
    ⟨ks,fun i hi => hwritten i (by simp [hi]),hrest,by simp only; omega⟩,hsignaled,h.history⟩

theorem Inv.step (h : Inv maxHeaderList s) (op : LinkOp)
    (hlimits : s.WithinLimits maxHeaderList op) (hkeeps : s.KeepsReferenced op) :
    Inv maxHeaderList (s.step maxHeaderList op) := by
  obtain ⟨log,n,h⟩ := h
  unfold Link.step
  rw [if_neg (by simp [h.error])]
  cases op with
  | encode streamId fields => exact h.encode streamId fields hlimits hkeeps
  | deliverEncoder k => exact h.deliverEncoder k
  | deliverSection i => exact h.deliverSection i hlimits
  | deliverDecoder k => exact h.deliverDecoder k

theorem Holds.blocked_nil
    (h : s.Holds maxHeaderList log n) (hout : s.a.encoderOut = []) : s.b.blocked = [] := by
  have hroom := h.room
  obtain ⟨ws,hws,hfeeds⟩ := h.stream
  have hlen : (log.take n).length+(log.drop n).length = log.length := by
    rw [← length_append,take_append_drop]
  rw [hout,h.complete hout] at hws
  obtain rfl := (hfeeds.script (Nat.zero_le isizeMax) h.decoder (by omega)).eq_nil hws.symm
  have hall : log.length ≤ n := drop_eq_nil_iff.1 hfeeds.eq_nil
  refine eq_nil_iff_forall_not_mem.2 fun x hx => ?_
  obtain ⟨⟨hsection⟩,-⟩ := h.sections x (mem_append_left _ hx)
  have hready : x.ready n = true := FieldSection.ready_iff.2 fun r hr =>
    (hsection.refs_lt r hr).2.trans_le hall
  rw [h.waiting x hx] at hready
  cases hready

end Link

/-! ### Agreement -/

/-- **Agreement under any delivery order.** In a run within the limits whose sections keep
    what is referred to, neither endpoint reports an error, what was sent is what was
    decoded and what is still on its way, and once the streams have been delivered every
    section has been decoded to the names and values it was made from. -/
theorem qpack_endpoints_agree (maxHeaderList : Usize) (ops : List LinkOp)
    (h : Along (Link.step maxHeaderList)
      (fun s op => s.WithinLimits maxHeaderList op ∧ s.KeepsReferenced op) Link.init ops) :
    let s := run (Link.step maxHeaderList) Link.init ops
    let sent := s.sent.map fun (id, fields) => (id, fields.map Field.line)
    s.error = none ∧ sent.Perm (s.decoded ++ s.undecoded.map Link.meant) ∧
      (s.a.encoderOut = [] → s.inFlight = [] → sent.Perm s.decoded) := by
  obtain ⟨log,n,hholds⟩ := invariant
    (fun s op hs hop => hs.step op hop.1 hop.2) (Link.inv_init maxHeaderList) h
  refine ⟨hholds.error,hholds.history,fun hout hflight => ?_⟩
  have hhistory := hholds.history
  rw [Link.undecoded,hholds.blocked_nil hout,hflight] at hhistory
  simpa using hhistory

/-- A section that arrives before its insert, the insert in two pieces, the acknowledgement,
    and a second section that refers to the entry. -/
theorem qpack_endpoints_agree_two_sections :
    let ops : List LinkOp := [.encode 0 [⟨[97], [98]⟩], .deliverSection 0, .deliverEncoder 4,
      .deliverEncoder 100, .deliverDecoder 100, .encode 4 [⟨[97], [98]⟩], .deliverSection 0]
    (run (Link.step 65536) Link.init ops).decoded =
        [(0, [⟨[97], [98], false⟩]), (4, [⟨[97], [98], false⟩])] ∧
      (run (Link.step 65536) Link.init ops).error = none :=
  ⟨by decide,(qpack_endpoints_agree 65536 _ (by decide)).1⟩

/-- One section of 125 fields, each inserted at 33 octets: the last insert evicts the
    first entry, which a line of the same section refers to. -/
theorem qpack_evicts_own_reference :
    let ops : List LinkOp := [.encode 0 (replicate 125 ⟨[97], []⟩), .deliverEncoder 1000,
      .deliverSection 0]
    Along (Link.step 65536) (Link.WithinLimits 65536) Link.init ops ∧
      (run (Link.step 65536) Link.init ops).error =
        some (Error.protocol "QPACK post-base index out of range") := by
  decide +kernel

end Courierust.Qpack
