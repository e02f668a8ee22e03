import Courierust.H2.Moves

/-!
# Stream ids are used once

A stream joins the table in two ways only: a client allocates the next id, and a server
accepts one above every id the peer used. Everything else keeps the table or shrinks it.
-/

namespace Courierust.H2

open StreamMap

/-- The table after a step has the streams from before it, and on a server perhaps one whose
    id was never used. A closed connection stays closed. -/
structure Grows (c c' : Conn) : Prop where
  config : c'.config = c.config
  live : c'.closed = false → c.closed = false
  next : c'.streams.nextClientId = c.streams.nextClientId
  last : c.streams.lastPeerId ≤ c'.streams.lastPeerId
  known : ∀ id, (c'.streams.get id).isSome = true → (c.streams.get id).isSome = true ∨
    c.config.client = false ∧ c.streams.lastPeerId < id ∧ id ≤ c'.streams.lastPeerId

namespace StreamMap

theorem ids_update (m : StreamMap) (id : ℕ) (f : Stream → Stream) :
    (m.update id f).nextClientId = m.nextClientId ∧ (m.update id f).lastPeerId = m.lastPeerId := by
  unfold update
  split <;> exact ⟨rfl,rfl⟩

theorem ids_remove (m : StreamMap) (id : ℕ) :
    (m.remove id).nextClientId = m.nextClientId ∧ (m.remove id).lastPeerId = m.lastPeerId := by
  unfold remove
  split_ifs <;> exact ⟨rfl,rfl⟩

end StreamMap

namespace Grows

variable {c c' c'' : Conn}

theorem trans (h : Grows c c') (h' : Grows c' c'') : Grows c c'' where
  config := h'.config.trans h.config
  live hlive := h.live (h'.live hlive)
  next := h'.next.trans h.next
  last := h.last.trans h'.last
  known id hid := by
    rcases h'.known id hid with hid | ⟨hserver,hlow,hhigh⟩
    · rcases h.known id hid with hid | ⟨hserver,hlow,hhigh⟩
      · exact .inl hid
      · exact .inr ⟨hserver,hlow,hhigh.trans h'.last⟩
    · exact .inr ⟨h.config ▸ hserver,h.last.trans_lt hlow,hhigh⟩

theorem of_streams (hstreams : c'.streams = c.streams) (hconfig : c'.config = c.config)
    (hlive : c'.closed = false → c.closed = false) :
    Grows c c' where
  config := hconfig
  live := hlive
  next := by rw [hstreams]
  last := by rw [hstreams]
  known id hid := .inl (by rwa [hstreams] at hid)

theorem postcomp (h : Grows c c') (hstreams : c''.streams = c'.streams)
    (hconfig : c''.config = c'.config)
    (hlive : c''.closed = false → c'.closed = false) :
    Grows c c'' := h.trans (of_streams hstreams hconfig hlive)

theorem precomp (h : Grows c' c'') (hstreams : c'.streams = c.streams)
    (hconfig : c'.config = c.config)
    (hlive : c'.closed = false → c.closed = false) :
    Grows c c'' := (of_streams hstreams hconfig hlive).trans h

end Grows

namespace Conn

variable {c c₁ : Conn} {id : ℕ}

theorem grows_updateStream (c : Conn) (id : ℕ) (f : Stream → Stream) :
    Grows c (c.updateStream id f) where
  config := rfl
  live h := h
  next := (ids_update _ _ _).1
  last := (ids_update _ _ _).2.ge
  known x hx := by
    refine .inl ?_
    simp only [updateStream,get_update] at hx
    split_ifs at hx with heq
    · rw [heq]
      simpa using hx
    · exact hx

theorem grows_forget (c : Conn) (id : ℕ) : Grows c (c.forget id) where
  config := rfl
  live h := h
  next := (ids_remove _ _).1
  last := (ids_remove _ _).2.ge
  known x hx := by
    refine .inl ?_
    simp only [forget,unschedule,get_remove] at hx
    split_ifs at hx
    · cases hx
    · exact hx

theorem grows_closeStream (c : Conn) (id : ℕ) : Grows c (c.closeStream id) := by
  obtain ⟨window,pending,fs,-,heq⟩ := c.closeStream_shape id
  rw [heq]
  exact ((grows_forget (c.pushFrames fs) id).precomp (c := c) rfl rfl fun h => h).postcomp rfl rfl
    fun h => h

theorem grows_of_alike (h : Alike c c₁) : Grows c c₁ := by
  obtain ⟨pendingPriority,streams,rfl,hget,hlast,hnext,-⟩ := h
  exact ⟨rfl,fun hlive => hlive,hnext,hlast,fun id hid => .inl (by rwa [← hget])⟩

theorem grows_enroll (h : Alike c c₁) {s : Stream} (hfresh : Fresh c c₁ s.id) :
    Grows c (c₁.enroll s) := by
  have hgrows := grows_of_alike h
  refine ⟨hgrows.config,hgrows.live,hgrows.next,hgrows.last,fun id hid => ?_⟩
  simp only [enroll,get_insert] at hid
  split_ifs at hid with heq
  · rw [heq]
    exact .inr ⟨hfresh.server,hfresh.above,hfresh.last.ge⟩
  · exact hgrows.known id hid

theorem grows_serve (c : Conn) (id : ℕ) : Grows c (c.serve id) := by
  rcases c.serve_cases id with ⟨heq,-⟩ | ⟨s,chunk,rest,-,-,-,heq⟩
  · rw [heq]
    exact .of_streams rfl rfl fun h => h
  rw [heq]
  generalize take (c.sendable s) chunk rest = t
  have hemit : Grows c ({ c with scheduled := c.scheduled.erase id }.emit id t) := by
    obtain ⟨fs,encoder,encoded,-,heq⟩ := emit_shape { c with scheduled := c.scheduled.erase id } id t
    rw [heq]
    refine .trans (grows_updateStream c id (·.pay t.payload.length)) ?_
    exact .of_streams rfl rfl fun h => h
  refine hemit.trans ?_
  rcases settle_cases ({ c with scheduled := c.scheduled.erase id }.emit id t) id s t.endStream with
    ⟨-,-,hsettle⟩ | ⟨f,hsettle,-⟩
  · rw [hsettle]
    exact (grows_closeStream _ _).precomp rfl rfl fun h => h
  rw [hsettle]
  obtain ⟨scheduler,scheduled,hshape⟩ := reschedule_shape
    (({ c with scheduled := c.scheduled.erase id }.emit id t).updateStream id f) id
  rw [hshape]
  exact (grows_updateStream _ id f).trans (Grows.of_streams rfl rfl fun h => h)

theorem grows_move {R : Rules} {c' : Conn} (h : Move R c c') : Grows c c' := by
  cases h with
  | quiet hplan hlive =>
    exact .of_streams (congrArg Plan.streams hplan) (congrArg Plan.config hplan) hlive
  | write | rewrite => exact grows_updateStream _ _ _
  | respond h => exact (grows_of_alike h).trans (grows_updateStream _ _ _)
  | setPriority =>
    unfold setPriority
    split
    · exact (grows_updateStream _ _ _).postcomp rfl rfl fun h => h
    · split_ifs <;> exact .of_streams rfl rfl fun h => h
  | forget => exact grows_forget _ _
  | alike h => exact grows_of_alike h
  | enroll h hfresh => exact grows_enroll h hfresh
  | schedule id =>
    obtain ⟨scheduler,scheduled,heq⟩ := c.maybeSchedule_shape id
    rw [heq]
    exact .of_streams rfl rfl fun h => h
  | round =>
    simp only [emitLoop]
    split
    · exact .of_streams rfl rfl fun h => h
    · exact (grows_serve _ _).precomp rfl rfl fun h => h

theorem grows_step {op : Op} (hop : ∀ priority, op ≠ .openRequest priority) :
    Grows c (c.step op) := by
  have hmoves := moves_step hop (show Rules.any.Admits c op by
    cases op <;> simp [Rules.Admits,Rules.any])
  generalize c.step op = c' at hmoves ⊢
  induction hmoves with
  | refl => exact .of_streams rfl rfl id
  | tail _ hmove ih => exact ih.trans (grows_move hmove)

def ClientIds (c : Conn) : Prop :=
  c.config.client = true → ∀ id, (c.streams.get id).isSome = true → id < c.streams.nextClientId

theorem live_step {op : Op} (h : (c.step op).closed = false) : c.closed = false := by
  by_cases hop : ∃ priority, op = .openRequest priority
  · obtain ⟨priority,rfl⟩ := hop
    change (c.openRequest priority).2.closed = false at h
    rcases c.openRequest_cases priority with heq | ⟨-,-,heq⟩
    · rwa [heq] at h
    · rwa [heq] at h
  · have hgrows : Grows c (c.step op) := grows_step fun priority heq => hop ⟨priority,heq⟩
    exact hgrows.live h

theorem ClientIds.step (h : c.ClientIds) (op : Op) : (c.step op).ClientIds := by
  by_cases hop : ∃ priority, op = .openRequest priority
  · obtain ⟨priority,rfl⟩ := hop
    change (c.openRequest priority).2.ClientIds
    rcases c.openRequest_cases priority with heq | ⟨hclient,-,heq⟩
    · rw [heq]
      exact h
    rw [heq]
    intro _ id hid
    change id < c.streams.nextClientId+2
    rw [get_insert] at hid
    split_ifs at hid with hnew
    · change id = c.streams.nextClientId at hnew
      omega
    · have := h hclient id hid
      omega
  · have hgrows : Grows c (c.step op) := grows_step fun priority heq => hop ⟨priority,heq⟩
    intro hclient id hid
    rw [hgrows.next]
    rw [hgrows.config] at hclient
    rcases hgrows.known id hid with hid | ⟨hserver,-⟩
    · exact h hclient id hid
    · rw [hclient] at hserver
      cases hserver

def start (config : Config) (upgrade : Bool) : Conn :=
  if upgrade then (new config).registerUpgradeStream.2 else new config

theorem get_start (config : Config) (upgrade : Bool) {id : ℕ} {s : Stream}
    (h : (start config upgrade).streams.get id = some s) :
    id = 1 ∧ upgrade = true ∧ s.recvUnreleased = 0 := by
  cases upgrade with
  | false =>
    cases h
  | true =>
    change ((StreamMap.new config.client).reserveUpgradeStream.insert _).get id = some s at h
    rw [get_insert,get_reserveUpgradeStream,get_new] at h
    split_ifs at h with hclient hid hid
    · cases h
      exact ⟨hid,rfl,rfl⟩
    · cases h
      exact ⟨hid,rfl,rfl⟩

theorem clientIds_start (config : Config) (upgrade : Bool) : (start config upgrade).ClientIds := by
  intro hclient id hid
  obtain ⟨s,hs⟩ := Option.isSome_iff_exists.1 hid
  obtain ⟨rfl,rfl,-⟩ := get_start config upgrade hs
  change config.client = true at hclient
  change 1 < (StreamMap.new config.client).reserveUpgradeStream.nextClientId
  rw [hclient]
  decide

end Conn

end Courierust.H2
