import Courierust.Ws.Writer

/-!
# Several writers on one connection

Writers that share a sink and the flag of the connection. A call of one of them is three steps:
it looks at the flag and encodes its frame, it writes the frame, and `send_close` then sets the
flag. Between these steps the other writers take theirs.
-/

namespace Courierust.Ws

inductive Call where
  | text (text : List UInt8)
  | binary (data : List UInt8)
  | ping (payload : List UInt8)
  | pong (payload : List UInt8)
  | close (code : ℕ) (reason : List UInt8)

inductive Running where
  | ready (frame : Frame)
  | marking

/-- Writers over one sink and one flag. `wire` lists the frames the sink has taken. -/
structure Shared (S : Type) where
  sink : S
  closeFlag : Bool := false
  encoder : ℕ → Encoder
  running : ℕ → Option Running := fun _ => none
  wire : List Frame := []

variable {S : Type}

def Encoder.encode (enc : Encoder) : Call → Except Error (Frame × Encoder)
  | .text text => .ok (enc.message .text text)
  | .binary data => .ok (enc.message .binary data)
  | .ping payload =>
    match FrameWriter.checkControl payload with
    | .error e => .error e
    | .ok () => .ok (enc.frame .ping payload true false)
  | .pong payload =>
    match FrameWriter.checkControl payload with
    | .error e => .error e
    | .ok () => .ok (enc.frame .pong payload true false)
  | .close code reason => .ok (enc.frame .close (closePayload code reason) true false)

namespace Shared

def start (s : Shared S) (i : ℕ) (call : Call) : Shared S :=
  if s.closeFlag then s
  else
    match (s.encoder i).encode call with
    | .error _ => s
    | .ok (frame, enc) =>
      { s with
        encoder := Function.update s.encoder i enc
        running := Function.update s.running i (some (.ready frame)) }

def write [FrameSink S] (s : Shared S) (i : ℕ) (f : Frame) : Shared S :=
  match FrameSink.writeFrame s.sink f.header.write f.payload f.mask with
  | (.error _, sink) => { s with sink, running := Function.update s.running i none }
  | (.ok (), sink) =>
    { s with
      sink
      wire := s.wire ++ [f]
      running := Function.update s.running i
        (if f.header.opcode = .close then some .marking else none) }

/-- The third step of `send_close`: the flag is set. -/
def mark (s : Shared S) (i : ℕ) : Shared S :=
  { s with closeFlag := true, running := Function.update s.running i none }

end Shared

inductive Action where
  | start (i : ℕ) (call : Call)
  | write (i : ℕ)
  | mark (i : ℕ)

namespace Shared

variable [FrameSink S]

def step (s : Shared S) : Action → Shared S
  | .start i call =>
    match s.running i with
    | none => s.start i call
    | some _ => s
  | .write i =>
    match s.running i with
    | some (.ready f) => s.write i f
    | _ => s
  | .mark i =>
    match s.running i with
    | some .marking => s.mark i
    | _ => s

def run (s : Shared S) (actions : List Action) : Shared S := actions.foldl step s

end Shared

def CloseLast (wire : List Frame) : Prop := ∀ f ∈ wire.dropLast, f.header.opcode ≠ .close

def FrameWriter.call [FrameSink S] (w : FrameWriter S) : Call → Except Error Unit × FrameWriter S
  | .text text => w.sendText text
  | .binary data => w.sendBinary data
  | .ping payload => w.sendPing payload
  | .pong payload => w.sendPong payload
  | .close code reason => w.sendClose code reason

/-! ### One call -/

def Call.opcode : Call → OpCode
  | .text _ => .text
  | .binary _ => .binary
  | .ping _ => .ping
  | .pong _ => .pong
  | .close _ _ => .close

theorem Encoder.opcode_message (enc : Encoder) (opcode : OpCode) (data : List UInt8) :
    (enc.message opcode data).1.header.opcode = opcode := by
  rw [message]
  cases enc.deflater with
  | none => rfl
  | some deflater =>
    dsimp only
    rcases deflater.deflateMessage data with ⟨_ | comp,deflater⟩ <;> rfl

theorem Encoder.opcode_encode {enc enc' : Encoder} {call : Call} {f : Frame}
    (h : enc.encode call = .ok (f,enc')) : f.header.opcode = call.opcode := by
  cases call with
  | text text =>
    have hf : (enc.message .text text).1 = f := congrArg Prod.fst (Except.ok.inj h)
    rw [← hf]
    exact enc.opcode_message .text text
  | binary data =>
    have hf : (enc.message .binary data).1 = f := congrArg Prod.fst (Except.ok.inj h)
    rw [← hf]
    exact enc.opcode_message .binary data
  | ping payload | pong payload =>
    rw [encode] at h
    cases hcheck : FrameWriter.checkControl payload with
    | error e =>
      rw [hcheck] at h
      cases h
    | ok u =>
      rw [hcheck] at h
      cases h
      rfl
  | close code reason =>
    cases h
    rfl

/-- A call of a writer alone: what is encoded is written, and a Close frame that was written
sets the flag. -/
theorem FrameWriter.call_eq [FrameSink S] (w : FrameWriter S) (call : Call) :
    (w.call call).2 =
      if w.closeFlag then w
      else match w.encoder.encode call with
        | .error _ => w
        | .ok encoded =>
          let w' := (w.writeEncoded encoded).2
          match (w.writeEncoded encoded).1 with
          | .error _ => w'
          | .ok () => if call.opcode = .close then { w' with closeFlag := true } else w' := by
  have hwrite : ∀ (encoded : Frame × Encoder), (w.writeEncoded encoded).2 =
      match (w.writeEncoded encoded).1 with
      | .error _ => (w.writeEncoded encoded).2
      | .ok () => (w.writeEncoded encoded).2 := by
    intro encoded
    cases (w.writeEncoded encoded).1 <;> rfl
  cases hflag : w.closeFlag with
  | true =>
    cases call <;> simp [call,sendText,sendBinary,sendPing,sendPong,sendControl,sendMessage,
      sendClose,checkOpen,hflag]
  | false =>
    cases call with
    | text data | binary data =>
      simp only [call,sendText,sendBinary,sendMessage,checkOpen,hflag,Encoder.encode,
        Call.opcode]
      exact hwrite _
    | ping payload | pong payload =>
      simp only [call,sendPing,sendPong,sendControl,checkOpen,hflag,Encoder.encode,Call.opcode]
      cases checkControl payload with
      | error e => rfl
      | ok u => exact hwrite _
    | close code reason =>
      simp only [call,sendClose,hflag,Encoder.encode,Call.opcode,writeFrame]
      rcases w.writeEncoded _ with ⟨_ | u,w'⟩ <;> rfl

/-! ### Interleavings -/

namespace Shared

def Idle (s : Shared S) : Prop := ∀ i, s.running i = none

def NoCloseRunning (s : Shared S) : Prop :=
  ∀ i r, s.running i = some r → ∃ f, r = .ready f ∧ f.header.opcode ≠ .close

/-- A call that starts finds no `send_close` at work; a `send_close` finds no call at all. -/
def Exclusive (s : Shared S) : Action → Prop
  | .start _ call => s.NoCloseRunning ∧ (call.opcode = .close → s.Idle)
  | _ => True

def AllExclusive [FrameSink S] (s : Shared S) : List Action → Prop
  | [] => True
  | a :: actions => s.Exclusive a ∧ (s.step a).AllExclusive actions

/-- Before, during and after the one call that sends the Close frame. -/
inductive Inv (s : Shared S) : Prop
  | opened (hwire : ∀ f ∈ s.wire, f.header.opcode ≠ .close) (hflag : s.closeFlag = false)
      (hrunning : s.NoCloseRunning)
  | ready (hwire : ∀ f ∈ s.wire, f.header.opcode ≠ .close) (hflag : s.closeFlag = false)
      (i : ℕ) (f : Frame) (hi : s.running i = some (.ready f)) (hclose : f.header.opcode = .close)
      (hrest : ∀ j ≠ i, s.running j = none)
  | written (hwire : CloseLast s.wire) (i : ℕ) (hi : s.running i = some .marking)
      (hrest : ∀ j ≠ i, s.running j = none)
  | closed (hwire : CloseLast s.wire) (hflag : s.closeFlag = true) (hidle : s.Idle)

variable {s : Shared S} {i : ℕ}

theorem Inv.closeLast (h : s.Inv) : CloseLast s.wire := by
  cases h with
  | opened hwire | ready hwire => exact fun f hf => hwire f (List.mem_of_mem_dropLast hf)
  | written hwire | closed hwire => exact hwire

theorem NoCloseRunning.update (h : s.NoCloseRunning) (i : ℕ) {r : Option Running}
    (hr : ∀ r', r = some r' → ∃ f, r' = .ready f ∧ f.header.opcode ≠ .close) (j : ℕ)
    (r' : Running) (hj : Function.update s.running i r j = some r') :
    ∃ f, r' = .ready f ∧ f.header.opcode ≠ .close := by
  by_cases hij : j = i
  · subst hij
    rw [Function.update_self] at hj
    exact hr r' hj
  · rw [Function.update_of_ne hij] at hj
    exact h j r' hj

theorem Inv.start (h : s.Inv) (call : Call) (hex : s.Exclusive (.start i call)) :
    (s.start i call).Inv := by
  obtain ⟨hnone,hidle⟩ := hex
  rw [Shared.start]
  cases hflag : s.closeFlag with
  | true =>
    exact h
  | false =>
    cases hencode : (s.encoder i).encode call with
    | error e => exact h
    | ok encoded =>
      obtain ⟨f,enc⟩ := encoded
      have hopcode := Encoder.opcode_encode hencode
      have hwire : ∀ f ∈ s.wire, f.header.opcode ≠ .close := by
        cases h with
        | opened hwire | ready hwire => exact hwire
        | written _ j hj =>
          obtain ⟨f,hf,-⟩ := hnone j _ hj
          cases hf
        | closed _ hset => cases hset.symm.trans hflag
      by_cases hclose : call.opcode = .close
      · refine .ready hwire rfl i f (Function.update_self _ _ _) (hopcode.trans hclose) ?_
        intro j hj
        exact (Function.update_of_ne hj _ _).trans (hidle hclose j)
      · refine .opened hwire rfl (hnone.update i ?_)
        rintro r' ⟨⟩
        exact ⟨f,rfl,by rwa [hopcode]⟩

theorem eq_of_only {r : Running} {j : ℕ} (hrest : ∀ k ≠ j, s.running k = none)
    (hi : s.running i = some r) : i = j := by
  by_contra hne
  cases (hrest i hne).symm.trans hi

/-- Where a frame is ready nothing is closed yet; a Close frame has no other call beside it. -/
theorem Inv.of_ready {f : Frame} (h : s.Inv) (hi : s.running i = some (.ready f)) :
    (∀ f ∈ s.wire, f.header.opcode ≠ .close) ∧ s.closeFlag = false ∧
      (s.NoCloseRunning ∧ f.header.opcode ≠ .close ∨
        f.header.opcode = .close ∧ ∀ j ≠ i, s.running j = none) := by
  cases h with
  | opened hwire hflag hrunning =>
    obtain ⟨g,hg,hopen⟩ := hrunning i _ hi
    cases hg
    exact ⟨hwire,hflag,.inl ⟨hrunning,hopen⟩⟩
  | ready hwire hflag j g hj hclose hrest =>
    obtain rfl := eq_of_only hrest hi
    cases hi.symm.trans hj
    exact ⟨hwire,hflag,.inr ⟨hclose,hrest⟩⟩
  | written hwire j hj hrest =>
    obtain rfl := eq_of_only hrest hi
    cases hi.symm.trans hj
  | closed hwire hflag hidle => cases (hidle i).symm.trans hi

theorem Inv.write [FrameSink S] (h : s.Inv) {f : Frame} (hi : s.running i = some (.ready f)) :
    (s.write i f).Inv := by
  obtain ⟨hwire,hflag,hf⟩ := h.of_ready hi
  rw [Shared.write]
  rcases FrameSink.writeFrame s.sink f.header.write f.payload f.mask with ⟨e | u,sink⟩
  · refine .opened hwire hflag ?_
    rcases hf with ⟨hrunning,-⟩ | ⟨-,hrest⟩
    · refine hrunning.update i ?_
      rintro r' ⟨⟩
    intro k r' hk
    by_cases hki : k = i
    · subst hki
      cases (Function.update_self k none s.running).symm.trans hk
    · cases ((Function.update_of_ne hki none s.running).trans (hrest k hki)).symm.trans hk
  · rcases hf with ⟨hrunning,hopen⟩ | ⟨hclose,hrest⟩
    · refine .opened ?_ hflag (hrunning.update i ?_)
      · intro g hg
        rcases List.mem_append.1 hg with hg | hg
        · exact hwire g hg
        · rw [List.mem_singleton.1 hg]
          exact hopen
      · intro r' hr'
        rw [if_neg hopen] at hr'
        cases hr'
    · refine .written (fun g hg => hwire g (by rwa [List.dropLast_concat] at hg)) i ?_ ?_
      · exact (Function.update_self _ _ _).trans (if_pos hclose)
      · intro k hk
        exact (Function.update_of_ne hk _ _).trans (hrest k hk)

theorem Inv.mark (h : s.Inv) (hi : s.running i = some .marking) : (s.mark i).Inv := by
  cases h with
  | opened hwire hflag hrunning =>
    obtain ⟨f,hf,-⟩ := hrunning i _ hi
    cases hf
  | ready hwire hflag j g hj hclose hrest =>
    obtain rfl := eq_of_only hrest hi
    cases hi.symm.trans hj
  | written hwire j hj hrest =>
    obtain rfl := eq_of_only hrest hi
    refine .closed hwire rfl ?_
    intro k
    by_cases hki : k = i
    · subst hki
      exact Function.update_self _ _ _
    · exact (Function.update_of_ne hki _ _).trans (hrest k hki)
  | closed hwire hflag hidle => cases (hidle i).symm.trans hi

theorem Inv.step [FrameSink S] (h : s.Inv) {a : Action} (hex : s.Exclusive a) : (s.step a).Inv := by
  cases a with
  | start i call =>
    rw [Shared.step]
    cases hi : s.running i with
    | none => exact h.start call hex
    | some r => exact h
  | write i =>
    rw [Shared.step]
    rcases hi : s.running i with _ | f | _
    · exact h
    · exact h.write hi
    · exact h
  | mark i =>
    rw [Shared.step]
    rcases hi : s.running i with _ | f | _
    · exact h
    · exact h
    · exact h.mark hi

theorem Inv.run [FrameSink S] (h : s.Inv) {actions : List Action} (hex : s.AllExclusive actions) :
    (s.run actions).Inv := by
  induction actions generalizing s with
  | nil => exact h
  | cons a actions ih => exact ih (h.step hex.1) hex.2

end Shared

/-- Nothing follows a Close frame when calls of `send_close` run beside no other call. -/
theorem close_is_last [FrameSink S] (sink : S) (encoder : ℕ → Encoder) {actions : List Action}
    (hex : ({ sink, encoder } : Shared S).AllExclusive actions) :
    CloseLast (({ sink, encoder } : Shared S).run actions).wire := by
  refine (Shared.Inv.run ?_ hex).closeLast
  refine .opened ?_ rfl ?_
  · intro f hf
    cases hf
  · intro i r hi
    cases hi

/-- A writer sends a ping and then closes, and another one is refused. -/
theorem close_is_last_in_turn :
    CloseLast (({ sink := {}, encoder := fun _ => {} } : Shared VecSink).run
      [.start 0 (.ping []), .write 0, .start 1 (.close 1000 []), .write 1, .mark 1,
        .start 0 (.ping []), .write 0]).wire := by
  refine close_is_last _ _ ⟨⟨?_,nofun⟩,trivial,⟨?_,?_⟩,trivial,trivial,⟨?_,nofun⟩,
    trivial,trivial⟩
  · intro i r hi
    cases hi
  · intro i r hi
    rcases i with _ | i <;> cases hi
  · intro _ i
    rcases i with _ | i <;> rfl
  · intro i r hi
    rcases i with _ | _ | i <;> cases hi

/-- Both writers look at the flag before either has written: a ping follows the Close frame. -/
theorem ping_follows_close :
    ¬ CloseLast (({ sink := {}, encoder := fun _ => {} } : Shared VecSink).run
      [.start 0 (.close 1000 []), .start 1 (.ping []), .write 0, .write 1, .mark 0]).wire := by
  intro h
  exact h _ (List.mem_singleton_self _) rfl

end Courierust.Ws
