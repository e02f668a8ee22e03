import Courierust.Qpack.Section

/-!
# Receiving field sections

What `decode` and `retry_blocked` do with a section whose lines are known, on a table
that holds a stretch of the encoder's log. A section is ready when every entry it
refers to has been inserted; a ready section is decoded to the fields it was made from,
and any other one waits.
-/

namespace Courierust.Qpack

open List
open QpackConnection

/-- A section whose lines read as its fields, over a log with the entries it refers to. -/
structure SectionFor (maxHeaderList : ℕ) (log : List DynEntry) (s : FieldSection) where
  base : ℕ
  required : ℕ
  words : List (List UInt8)
  block_eq : s.block = encodeFieldSectionPrefix required base QPACK_MAX_TABLE_CAPACITY ++ words.flatten
  lines : List.Forall₂ (LineFor log base s.refs) words s.fields
  base_le : base ≤ u64Max
  refs_lt : ∀ r ∈ s.refs, r < required ∧ r < log.length
  required_mem : 0 < required → required - 1 ∈ s.refs
  block_le : s.block.length ≤ maxHeaderList
  size_le : fieldsSize s.fields ≤ maxHeaderList
  count_le : s.fields.length ≤ 256

def SectionFor.mono {maxHeaderList : ℕ} {log : List DynEntry} {s : FieldSection}
    (h : SectionFor maxHeaderList log s) (xs : List DynEntry) :
    SectionFor maxHeaderList (log ++ xs) s :=
  { h with
    lines := h.lines.imp fun w f hline => by
      simpa using hline.mono (fun r hr => (h.refs_lt r hr).2) xs []
    refs_lt := fun r hr => ⟨(h.refs_lt r hr).1, by
      have := (h.refs_lt r hr).2
      simp only [List.length_append]
      omega⟩ }

/-- All the entries a section refers to are among the first `n` of the log. -/
def FieldSection.ready (n : ℕ) (s : FieldSection) : Bool := s.refs.all (· < n)

theorem FieldSection.ready_iff {n : ℕ} {s : FieldSection} :
    s.ready n = true ↔ ∀ r ∈ s.refs, r < n := by
  simp [FieldSection.ready]

/-! ### The decoder stream -/

def DecoderInstruction.increment : DecoderInstruction → ℕ
  | .insertCountIncrement n => n
  | _ => 0

def DecoderInstruction.Written : DecoderInstruction → Prop
  | .insertCountIncrement n => n ≤ u64Max
  | .sectionAck id => id ≤ u64Max
  | .streamCancellation _ => False

theorem DecoderInstruction.Written.reads {i : DecoderInstruction} (h : i.Written) :
    Reader.Reads Error.eof decodeDecoderInstruction (encodeDecoderInstruction i) i := by
  cases i with
  | sectionAck id => exact reads_sectionAck id h
  | streamCancellation id => exact h.elim
  | insertCountIncrement n => exact reads_insertCountIncrement n h

def increments (is : List DecoderInstruction) : ℕ := (is.map DecoderInstruction.increment).sum

@[simp] theorem increments_append (is js : List DecoderInstruction) :
    increments (is ++ js) = increments is+increments js := by simp [increments]

/-- `b'` is `b` after writing instructions that signal inserts it has. -/
def Signals (b b' : QpackConnection) : Prop :=
  ∃ is : List DecoderInstruction, (∀ i ∈ is, i.Written) ∧
    b' = { b with
      signaled := b.signaled + increments is
      decoderOut := b.decoderOut ++ (is.map encodeDecoderInstruction).flatten } ∧
    (b.signaled ≤ b.decoder.insertCount → b.signaled + increments is ≤ b.decoder.insertCount)

theorem Signals.refl (b : QpackConnection) : Signals b b :=
  ⟨[],by simp,by simp [increments],fun h => h⟩

theorem Signals.trans {a b c : QpackConnection} (h : Signals a b) (h' : Signals b c) :
    Signals a c := by
  obtain ⟨is,hw,rfl,hle⟩ := h
  obtain ⟨js,hw',rfl,hle'⟩ := h'
  refine ⟨is ++ js,?_,by simp [Nat.add_assoc],fun h => ?_⟩
  · intro i hi
    rcases mem_append.1 hi with hi | hi
    · exact hw i hi
    · exact hw' i hi
  · have := hle' (hle h)
    simp only [increments_append] at this ⊢
    omega

theorem Signals.unchanged {b b' : QpackConnection} (h : Signals b b') :
    b'.decoder = b.decoder ∧ b'.capacity = b.capacity ∧ b'.blocked = b.blocked := by
  obtain ⟨is,-,rfl,-⟩ := h
  exact ⟨rfl,rfl,rfl⟩

theorem Signals.withBlocked {b b' : QpackConnection} (h : Signals b b') (ss : List FieldSection) :
    Signals { b with blocked := ss } { b' with blocked := ss } := by
  obtain ⟨is,hw,rfl,hle⟩ := h
  exact ⟨is,hw,rfl,hle⟩

theorem Signals.flushIcc (b : QpackConnection) (h : b.decoder.insertCount ≤ u64Max) :
    Signals b b.flushIcc := by
  simp only [QpackConnection.flushIcc]
  split_ifs with hlt
  · refine ⟨[.insertCountIncrement (b.decoder.insertCount-b.signaled)],?_,?_,fun _ => ?_⟩
    · intro i hi
      rw [mem_singleton.1 hi]
      change _ ≤ _
      omega
    · simp only [increments,DecoderInstruction.increment,map_cons,map_nil,sum_cons,
        sum_nil,flatten_cons,flatten_nil,append_nil]
      congr 1
      omega
    · simp only [increments,DecoderInstruction.increment,map_cons,map_nil,sum_cons,
        sum_nil]
      omega
  · exact Signals.refl b

theorem Signals.sectionAck (b : QpackConnection) (id : Usize) :
    Signals b { b with
      decoderOut := b.decoderOut ++ encodeDecoderInstruction (.sectionAck id) } :=
  ⟨[.sectionAck id],by
    intro i hi
    rw [mem_singleton.mp hi]
    exact id.le_max,by simp [increments,DecoderInstruction.increment],fun h => by
    simpa [increments,DecoderInstruction.increment] using h⟩

/-! ### One section -/

/-- A decoder table with the first `n` inserts of the log, for an encoder whose oldest
    entry is `first`: it has not fallen behind what the encoder still holds. -/
structure Receiver (b : QpackConnection) (log : List DynEntry) (n first : ℕ) : Prop where
  capacity : b.capacity = QPACK_MAX_TABLE_CAPACITY
  tracks : Tracks b.decoder (log.take n)
  le_length : n ≤ log.length
  room : log.length + 512 ≤ u64Max
  first_le : b.decoder.first ≤ first
  behind : first ≤ n
  window : log.length ≤ first + 128

namespace Receiver

variable {b : QpackConnection} {log : List DynEntry} {n first maxHeaderList : ℕ} {s : FieldSection}

theorem insertCount_eq (h : Receiver b log n first) : b.decoder.insertCount = n := by
  rw [h.tracks.count,length_take]
  exact min_eq_left h.le_length

theorem prefix_eq (h : Receiver b log n first) (hs : SectionFor maxHeaderList log s)
    (hrefs : ∀ r ∈ s.refs, first ≤ r) :
    decodeFieldSectionPrefix b.decoder.insertCount b.capacity s.block =
      .ok ((hs.required,hs.base),hs.words.flatten) := by
  have hroom := h.room
  have hle := h.le_length
  have hbehind := h.behind
  have hwindow := h.window
  have hbounds : 0 < hs.required → first < hs.required ∧ hs.required ≤ log.length := by
    intro hpos
    have hmem := hs.required_mem hpos
    have := hrefs _ hmem
    have := (hs.refs_lt _ hmem).2
    omega
  rw [h.insertCount_eq,h.capacity,hs.block_eq]
  have hmax : max (QPACK_MAX_TABLE_CAPACITY/32) 1 = 128 := by decide
  have hrequired : hs.required ≤ u64Max := by
    rcases Nat.eq_zero_or_pos hs.required with hzero | hpos
    · omega
    · omega
  refine decodeFieldSectionPrefix_encode hrequired hs.base_le (by decide) ?_
    (fun count heq => (Except.ok.inj heq).symm) _
  split_ifs with hzero
  · simp [requiredInsertCount,hzero]
  · rw [requiredInsertCount_encode (by omega) (by omega) (by omega),hmax,if_neg (by omega),
      if_neg (by omega)]

theorem required_le_iff (hs : SectionFor maxHeaderList log s) :
    hs.required ≤ n ↔ s.ready n = true := by
  rw [FieldSection.ready_iff]
  constructor
  · intro hle r hr
    have := (hs.refs_lt r hr).1
    omega
  · intro hall
    rcases Nat.eq_zero_or_pos hs.required with hzero | hpos
    · omega
    · have := hall _ (hs.required_mem hpos)
      omega

section

variable (h : Receiver b log n first)
include h

theorem tryDecode_waiting (hs : SectionFor maxHeaderList log s)
    (hrefs : ∀ r ∈ s.refs, first ≤ r) (hwait : s.ready n = false) :
    b.tryDecode s maxHeaderList = .ok (none,b) := by
  have hlt : n < hs.required := by
    by_contra hge
    rw [(required_le_iff hs).1 (not_lt.1 hge)] at hwait
    cases hwait
  unfold QpackConnection.tryDecode
  simp only [h.prefix_eq hs hrefs,bind,Except.bind]
  rw [h.insertCount_eq,if_pos hlt]
  rfl

theorem tryDecode_ready (hs : SectionFor maxHeaderList log s)
    (hrefs : ∀ r ∈ s.refs, first ≤ r) (hmax : maxHeaderList ≤ u64Max) (hready : s.ready n = true) :
    ∃ b', b.tryDecode s maxHeaderList = .ok (some (s.fields.map Field.line),b') ∧ Signals b b' := by
  have hle := (required_le_iff hs).2 hready
  have hreads : decodeLines (min s.block.length isizeMax) b.decoder hs.base maxHeaderList
      hs.words.flatten.length hs.words.flatten 0 [] = .ok (s.fields.map Field.line) := by
    refine decodeLines_of_forall₂ (hs.lines.imp fun w f hline => hline b.decoder (fun r hr => ?_) _
      ((min_le_right _ _).trans (by decide))) hmax _ 0 [] le_rfl
      (by have := hs.size_le; omega) (by have := hs.count_le; simpa using this)
    have hlt := FieldSection.ready_iff.1 hready r hr
    have := h.le_length
    rw [h.tracks.get (h.first_le.trans (hrefs r hr)) (by rw [length_take]; omega),
      getElem?_take,if_pos hlt]
  have hflush : Signals b b.flushIcc := Signals.flushIcc b (by
    have := h.room
    have := h.le_length
    rw [h.insertCount_eq]
    omega)
  unfold QpackConnection.tryDecode
  simp only [h.prefix_eq hs hrefs,bind,Except.bind,hreads]
  rw [h.insertCount_eq,if_neg (by omega)]
  split_ifs with hpos
  · exact ⟨_,rfl,hflush.trans (Signals.sectionAck _ _)⟩
  · exact ⟨b,rfl,Signals.refl b⟩

theorem of_signals {b' : QpackConnection} (hb : Signals b b') :
    Receiver b' log n first := by
  obtain ⟨is,-,rfl,-⟩ := hb
  exact ⟨h.capacity,h.tracks,h.le_length,h.room,h.first_le,h.behind,h.window⟩

/-- The loop of `retry_blocked`: what is ready is handed out, and the others are kept. -/
theorem retryFrom_eq (hmax : maxHeaderList ≤ u64Max)
    (ss : List FieldSection)
    (hss : ∀ s ∈ ss, Nonempty (SectionFor maxHeaderList log s) ∧ ∀ r ∈ s.refs, first ≤ r) :
    ∃ b', retryFrom maxHeaderList ss b =
        .ok ((ss.filter (·.ready n)).map fun s => (s,s.fields.map Field.line),
          ss.filter fun s => !s.ready n,b') ∧ Signals b b' := by
  induction ss generalizing b with
  | nil => exact ⟨b,rfl,Signals.refl b⟩
  | cons s ss ih =>
    obtain ⟨⟨hs⟩,hrefs⟩ := hss s (by simp)
    have hrest : ∀ s ∈ ss, Nonempty (SectionFor maxHeaderList log s) ∧ ∀ r ∈ s.refs, first ≤ r :=
      fun s hs => hss s (by simp [hs])
    unfold QpackConnection.retryFrom
    cases hready : s.ready n with
    | true =>
      obtain ⟨b₁,htry,hb₁⟩ := h.tryDecode_ready hs hrefs hmax hready
      obtain ⟨b₂,hretry,hb₂⟩ := ih (h.of_signals hb₁) hrest
      refine ⟨b₂,?_,hb₁.trans hb₂⟩
      simp [htry,hretry,hready,bind,Except.bind,pure,Except.pure]
    | false =>
      obtain ⟨b₂,hretry,hb₂⟩ := ih h hrest
      refine ⟨b₂,?_,hb₂⟩
      simp [h.tryDecode_waiting hs hrefs hready,hretry,hready,bind,Except.bind,pure,Except.pure]

theorem retryBlocked_eq (hmax : maxHeaderList ≤ u64Max)
    (hss : ∀ s ∈ b.blocked, Nonempty (SectionFor maxHeaderList log s) ∧ ∀ r ∈ s.refs, first ≤ r) :
    ∃ b', b.retryBlocked maxHeaderList =
        .ok ((b.blocked.filter (·.ready n)).map fun s => (s,s.fields.map Field.line),b') ∧
      Signals { b with blocked := b.blocked.filter fun s => !s.ready n } b' := by
  have hempty : Receiver { b with blocked := [] } log n first :=
    ⟨h.capacity,h.tracks,h.le_length,h.room,h.first_le,h.behind,h.window⟩
  obtain ⟨b',hretry,hb'⟩ := hempty.retryFrom_eq hmax b.blocked hss
  refine ⟨_,?_,hb'.withBlocked _⟩
  simp [QpackConnection.retryBlocked,hretry,bind,Except.bind,pure,Except.pure]

end

end Receiver

end Courierust.Qpack
