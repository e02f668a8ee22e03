import Courierust.H2.Refine

/-!
# Header blocks on the wire

A peer's decoder sees the header blocks of all streams as one sequence: it must get them
whole, unmixed, and in the order in which the encoder produced them. `reassemble` is the
peer's side: it fails on a block that is interrupted, and returns the blocks otherwise.
-/

namespace Courierust.H2

open List
open Hpack (HeaderField)

/-! ### Reassembly -/

/-- The header blocks of a sequence of frames. A block that is open, with its stream and
    what has come of it, must go on with CONTINUATION of the same stream. -/
def reassemble : Option (ℕ × List UInt8) → List Frame → Option (List (List UInt8))
  | none, [] => some []
  | some _, [] => none
  | none, .headers id block _ endHeaders _ :: fs =>
    if endHeaders then (reassemble none fs).map (block :: ·) else reassemble (some (id, block)) fs
  | none, .continuation .. :: _ => none
  | none, _ :: fs => reassemble none fs
  | some (id, acc), .continuation id' endHeaders block :: fs =>
    if id' ≠ id then none
    else if endHeaders then (reassemble none fs).map ((acc ++ block) :: ·)
    else reassemble (some (id, acc ++ block)) fs
  | some _, _ :: _ => none

variable {fs : List Frame} {blocks : List (List UInt8)} {f : Frame} {block : List UInt8} {max : ℕ}

theorem reassemble_append {open_ : Option (ℕ × List UInt8)} (h : reassemble open_ fs = some blocks)
    (gs : List Frame) :
    reassemble open_ (fs ++ gs) = (reassemble none gs).map (blocks ++ ·) := by
  induction fs generalizing open_ blocks with
  | nil =>
    cases open_ with
    | none =>
      cases h
      simp
    | some => cases h
  | cons f fs ih =>
    have hmap : ∀ block : List UInt8, (reassemble none fs).map (block :: ·) = some blocks →
        (reassemble none (fs ++ gs)).map (block :: ·) =
          (reassemble none gs).map (blocks ++ ·) := by
      intro block h
      obtain ⟨rest,hrest,rfl⟩ := Option.map_eq_some_iff.1 h
      rw [ih hrest,Option.map_map]
      rfl
    cases open_ with
    | none =>
      cases f with
      | headers id block endStream endHeaders priority =>
        simp only [cons_append,reassemble] at h ⊢
        split_ifs at h ⊢ with hend
        · exact hmap block h
        · exact ih h
      | continuation => cases h
      | _ => exact ih h
    | some opened =>
      obtain ⟨id,acc⟩ := opened
      cases f with
      | continuation id' endHeaders block =>
        simp only [cons_append,reassemble] at h ⊢
        split_ifs at h ⊢ with hid hend
        · exact hmap (acc ++ block) h
        · exact ih h
      | _ => cases h

theorem reassemble_singleton (h : f.isBlock = false) :
    reassemble none [f] = some [] := by
  cases f <;> first | rfl | cases h

theorem reassemble_of_not_isBlock (h : ∀ f ∈ fs, f.isBlock = false) :
    reassemble none fs = some [] := by
  induction fs with
  | nil => rfl
  | cons f fs ih =>
    have hcons := reassemble_append (reassemble_singleton (h f (by simp))) fs
    rwa [ih fun g hg => h g (by simp [hg])] at hcons

theorem reassemble_continuations (hmax : 0 < max) (id : ℕ) {fuel : ℕ} (hne : block ≠ [])
    (hfuel : block.length ≤ fuel) (acc : List UInt8) :
    reassemble (some (id,acc)) (continuations id max fuel block) = some [acc ++ block] := by
  induction fuel generalizing block acc with
  | zero => exact absurd (length_eq_zero_iff.1 (Nat.le_zero.1 hfuel)) hne
  | succ fuel ih =>
    rw [continuations,if_neg (by simpa using hne)]
    by_cases hend : block.length ≤ max
    · have hrest : continuations id max fuel (block.drop max) = [] := by
        rw [drop_eq_nil_of_le hend]
        cases fuel <;> simp [continuations]
      simp [reassemble,hend,hrest,take_of_length_le hend]
    have hdrop : block.drop max ≠ [] := by
      rw [ne_eq,drop_eq_nil_iff]
      exact hend
    have hlen : (block.drop max).length ≤ fuel := by
      rw [length_drop]
      omega
    simp only [reassemble,hend,decide_false,Bool.false_eq_true,if_false,ne_eq,
      not_true_eq_false]
    rw [ih hdrop hlen,append_assoc,take_append_drop]

theorem reassemble_headerFrames (hmax : 0 < max) (id : ℕ) (block : List UInt8)
    (endStream : Bool) : reassemble none (headerFrames id block endStream max) = some [block] := by
  unfold headerFrames
  split_ifs with hshort
  · rfl
  have hdrop : block.drop max ≠ [] := by
    rw [ne_eq,drop_eq_nil_iff]
    exact hshort
  have hlen : (block.drop max).length ≤ block.length := by
    rw [length_drop]
    omega
  simp only [reassemble,Bool.false_eq_true,if_false]
  rw [reassemble_continuations hmax id hdrop hlen,take_append_drop]

/-! ### The blocks of an endpoint -/

def Frame.fragment : Frame → List UInt8
  | .headers _ block _ _ _ => block
  | .continuation _ _ block => block
  | _ => []

theorem fragment_of_not_isBlock (h : f.isBlock = false) : f.fragment = [] := by
  cases f <;> first | rfl | cases h

theorem fragment_headerFrames {id : ℕ} {endStream : Bool} :
    ∀ f ∈ headerFrames id block endStream max, f.fragment.length ≤ max :=
  forall_headerFrames (fun _ _ h => h) fun _ _ h => h

theorem isBlock_of_isControl (h : f.isControl = true) : f.isBlock = false := by
  cases f <;> first | rfl | cases h

namespace Endpoint

variable {P : Permits} {e e' : Endpoint}

/-- The blocks that were encoded are on the wire or queued, whole and in order. -/
structure Framed (e : Endpoint) : Prop where
  peer : e.peer.Checked
  blocks : ∃ sent unsent, reassemble none e.written = some sent ∧
    reassemble none e.pending = some unsent ∧ e.encoded = sent ++ unsent

theorem Framed.push (h : e.Framed)
    (hfs : reassemble none fs = some blocks) (hpending : e'.pending = e.pending ++ fs)
    (hencoded : e'.encoded = e.encoded ++ blocks) (hwritten : e'.written = e.written)
    (hpeer : e'.peer = e.peer) : e'.Framed := by
  obtain ⟨sent,unsent,hsent,hunsent,heq⟩ := h.blocks
  refine ⟨hpeer ▸ h.peer,sent,unsent ++ blocks,hwritten ▸ hsent,?_,?_⟩
  · rw [hpending,reassemble_append hunsent,hfs,Option.map_some]
  · rw [hencoded,heq,append_assoc]

theorem Framed.of_eq (h : e.Framed) (hpending : e'.pending = e.pending)
    (hencoded : e'.encoded = e.encoded) (hwritten : e'.written = e.written)
    (hpeer : e'.peer = e.peer) : e'.Framed :=
  h.push (show reassemble none [] = some [] from rfl) (by simp [hpending]) (by simp [hencoded])
    hwritten hpeer

theorem Framed.sendBlock (h : e.Framed) (id : ℕ) (fields : List HeaderField) (endStream : Bool) :
    (e.sendBlock id fields endStream).Framed := by
  have hmax : 0 < e.peer.maxFrameSize := lt_of_lt_of_le (by decide) h.peer.frame
  exact h.push (reassemble_headerFrames hmax id (e.encoder.encode fields).1 endStream) rfl rfl rfl
    rfl

theorem Framed.change (h : e.Framed) (hchange : Change P e e') : e'.Framed := by
  cases hchange with
  | frame hf =>
    exact h.push (reassemble_singleton (isBlock_of_isControl hf)) rfl (by simp [Endpoint.push]) rfl
      rfl
  | goaway => exact h.push (reassemble_singleton rfl) rfl (by simp [Endpoint.push]) rfl rfl
  | flushed =>
    obtain ⟨sent,unsent,hsent,hunsent,heq⟩ := h.blocks
    refine ⟨h.peer,sent ++ unsent,[],?_,rfl,by simpa using heq⟩
    rw [reassemble_append hsent,hunsent,Option.map_some]
  | @head id v fields endStream =>
    have hset : (e.set id { v with
        state := v.state.sendHead endStream, sendDone := endStream }).Framed :=
      h.of_eq rfl rfl rfl rfl
    exact hset.sendBlock id fields endStream
  | @headClosed id v fields endStream fs _ _ _ hfs =>
    have hpush : (((e.deliver (.streamClosed id)).drop id).push fs).Framed :=
      h.push (reassemble_of_not_isBlock fun f hf => isBlock_of_isControl (hfs f hf)) rfl
        (by simp [Endpoint.push,Endpoint.drop,Endpoint.deliver]) rfl rfl
    exact hpush.sendBlock id fields endStream
  | @emit id v chunk rest =>
    generalize Conn.take (e.sendable v) chunk rest = t
    have hpaid : { e.set id (v.pay t.payload.length) with
        queue := Function.update e.queue id t.queue
        window := e.window.consume t.payload.length }.Framed := h.of_eq rfl rfl rfl rfl
    unfold Endpoint.emit
    simp only
    cases t.trailers with
    | none => exact hpaid.push (reassemble_singleton rfl) rfl (by simp [Endpoint.push]) rfl rfl
    | some fields => exact hpaid.sendBlock id fields true
  | settings happly => exact ⟨h.peer.apply happly,h.blocks⟩
  | _ => exact h.of_eq rfl rfl rfl rfl

/-- Whatever is queued without a change of the settings respects the frame size in force. -/
theorem fragment_change (hP : ¬ P.settings) (h : Change P e e') : e'.peer = e.peer ∧
    ∃ fs, e'.queued = e.queued ++ fs ∧ ∀ f ∈ fs, f.fragment.length ≤ e.peer.maxFrameSize := by
  have hnone : ∃ fs, e.queued = e.queued ++ fs ∧
      ∀ f ∈ fs, f.fragment.length ≤ e.peer.maxFrameSize := ⟨[],by simp,by simp⟩
  have hplain : ∀ {f : Frame}, f.isBlock = false → f.fragment.length ≤ e.peer.maxFrameSize := by
    intro f hf
    simp [fragment_of_not_isBlock hf]
  cases h with
  | @frame f hf =>
    refine ⟨rfl,[f],rfl,fun g hg => ?_⟩
    rw [mem_singleton.1 hg]
    exact hplain (isBlock_of_isControl hf)
  | goaway hsent code debug =>
    refine ⟨rfl,[.goAway e.last code debug],rfl,fun g hg => ?_⟩
    rw [mem_singleton.1 hg]
    exact hplain rfl
  | head => exact ⟨rfl,_,rfl,fragment_headerFrames⟩
  | @headClosed id v fields endStream fs _ _ _ hfs =>
    refine ⟨rfl,fs ++ headerFrames id (e.encoder.encode fields).1 endStream e.peer.maxFrameSize,
      (append_assoc _ _ _),fun f hf => ?_⟩
    rcases mem_append.1 hf with hf | hf
    · exact hplain (isBlock_of_isControl (hfs f hf))
    · exact fragment_headerFrames f hf
  | @emit id v chunk rest =>
    generalize Conn.take (e.sendable v) chunk rest = t
    unfold Endpoint.emit
    simp only
    cases t.trailers with
    | none =>
      refine ⟨rfl,[.data id t.payload t.endStream 0],rfl,fun g hg => ?_⟩
      rw [mem_singleton.1 hg]
      exact hplain rfl
    | some fields => exact ⟨rfl,_,rfl,fragment_headerFrames⟩
  | settings _ _ hsettings => exact absurd hsettings hP
  | _ => exact ⟨rfl,hnone⟩

theorem plain_change (hhead : ∀ e id endStream, ¬ P.head e id endStream) (hemit : ¬ P.emit)
    (h : Change P e e') : ∃ fs, e'.queued = e.queued ++ fs ∧ ∀ f ∈ fs, f.fragment = [] := by
  have hnone : ∃ fs, e.queued = e.queued ++ fs ∧ ∀ f ∈ fs, f.fragment = [] :=
    ⟨[],by simp,by simp⟩
  cases h with
  | @frame f hf =>
    refine ⟨[f],rfl,fun g hg => ?_⟩
    rw [mem_singleton.1 hg]
    exact fragment_of_not_isBlock (isBlock_of_isControl hf)
  | goaway hsent code debug =>
    refine ⟨[.goAway e.last code debug],rfl,fun g hg => ?_⟩
    rw [mem_singleton.1 hg]
    rfl
  | head _ _ h | headClosed _ _ h => exact absurd h (hhead _ _ _)
  | emit _ _ _ h => exact absurd h hemit
  | _ => exact hnone

end Endpoint

namespace Conn

theorem fragment_step (c : Conn) (op : Op) : ∃ fs,
    (c.step op).hist.queued = c.hist.queued ++ fs ∧
      ∀ f ∈ fs, f.fragment.length ≤ c.peer.maxFrameSize := by
  by_cases hop : ∃ r, op = .receive r
  · obtain ⟨r,rfl⟩ := hop
    -- A frame that is received makes us send no header block.
    let P : Permits := { head := fun _ _ _ => False, emit := False }
    have hallows : P.allows c (.receive r) :=
      ⟨nofun,fun _ _ _ _ _ _ => trivial,fun _ _ _ _ _ => trivial,nofun,fun _ _ => trivial⟩
    have hqueued : ∃ fs, (c.step (.receive r)).endpoint.queued = c.endpoint.queued ++ fs ∧
        ∀ f ∈ fs, f.fragment = [] := by
      refine (changes_step hallows).related
        (fun e => ⟨[],by simp,by simp⟩) ?_
        (Endpoint.plain_change (fun _ _ _ h => h) fun h => h)
      rintro e₁ e₂ e₃ ⟨fs,hfs,hall⟩ ⟨gs,hgs,hall'⟩
      refine ⟨fs ++ gs,by rw [hgs,hfs,append_assoc],fun f hf => ?_⟩
      rcases mem_append.1 hf with hf | hf
      · exact hall f hf
      · exact hall' f hf
    obtain ⟨fs,hfs,hall⟩ := hqueued
    exact ⟨fs,hfs,fun f hf => by simp [hall f hf]⟩
  · -- Everything else leaves the peer's settings alone.
    let P : Permits := { settings := False }
    have hallows : P.allows c op :=
      ⟨fun _ _ _ _ => trivial,fun _ _ _ _ _ _ => trivial,fun _ _ _ _ _ => trivial,
        fun _ => trivial,fun r hr => hop ⟨r,hr⟩⟩
    have hqueued := (changes_step hallows).related
      (R := fun e e' => e'.peer = e.peer ∧ ∃ fs, e'.queued = e.queued ++ fs ∧
        ∀ f ∈ fs, f.fragment.length ≤ e.peer.maxFrameSize)
      (fun e => ⟨rfl,[],by simp,by simp⟩) ?_ (Endpoint.fragment_change fun h => h)
    · exact hqueued.2
    rintro e₁ e₂ e₃ ⟨hpeer,fs,hfs,hall⟩ ⟨hpeer',gs,hgs,hall'⟩
    refine ⟨hpeer'.trans hpeer,fs ++ gs,by rw [hgs,hfs,append_assoc],fun f hf => ?_⟩
    rcases mem_append.1 hf with hf | hf
    · exact hall f hf
    · exact hpeer ▸ hall' f hf

end Conn

open Conn in
/-- In every run the frames written to the transport carry whole header blocks, which are the
    first of those the encoder produced, in its order; the rest is queued. A fragment fits the
    peer's frame size, and a call that fails leaves encoder and queue as they were. -/
theorem header_blocks_whole_and_in_order (config : Config) (upgrade : Bool) (ops : List Op) :
    let c := Run.run Conn.step (start config upgrade) ops
    (∃ sent unsent, reassemble none c.hist.written = some sent ∧
      reassemble none c.pendingFrames = some unsent ∧ c.hist.encoded = sent ++ unsent) ∧
    (∀ op, ∃ fs, (c.step op).hist.queued = c.hist.queued ++ fs ∧
      ∀ f ∈ fs, f.fragment.length ≤ c.peer.maxFrameSize) ∧
    (∀ id fields endStream err, (c.sendHeaders id fields endStream).1 = .error err →
      (c.sendHeaders id fields endStream).2.encoder = c.encoder ∧
        (c.sendHeaders id fields endStream).2.pendingFrames = c.pendingFrames) ∧
    ∀ id fields err, (c.sendTrailers id fields).1 = .error err →
      (c.sendTrailers id fields).2.encoder = c.encoder ∧
        (c.sendTrailers id fields).2.pendingFrames = c.pendingFrames := by
  intro c
  refine ⟨?_,c.fragment_step,fun id fields endStream err h => ?_,fun id fields err h => ?_⟩
  · have hframed : c.endpoint.Framed := by
      refine invariant_run Endpoint.Framed.change
        (Run.along_of_forall Permits.any_allows _ ops) ⟨?_,[],[],?_⟩
      · cases upgrade <;> exact Settings.checked_default
      · cases upgrade <;> exact ⟨rfl,rfl,rfl⟩
    exact hframed.blocks
  · rcases c.sendHeaders_cases id fields endStream with ⟨e,heq⟩ | ⟨s,-,heq⟩ <;> rw [heq] at h ⊢
    · exact ⟨rfl,rfl⟩
    · cases h
  · rcases c.sendTrailers_cases id fields with ⟨e,heq⟩ | ⟨s,-,-,heq⟩ <;> rw [heq] at h ⊢
    · exact ⟨rfl,rfl⟩
    · cases h

end Courierust.H2
