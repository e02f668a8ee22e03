import Courierust.Ws.Session

/-!
# Polling a session

What reading a header or a payload can come to, from any state and for any delivery, and
`poll_message`, which repeats rounds until one returns.
-/

namespace Courierust.Ws

open List

variable {S : Type}

/-! ### Collecting a header -/

variable {head : List UInt8}

variable {got need : ℕ} {s' : Session S} {piece more : List UInt8} {r : Io.BufReader}
variable {rx' : Receiver S}

theorem two_le_hint (h : headerLenHint head = some need) :
    2 ≤ need ∧ 2 ≤ head.length := by
  match head, h with
  | _ :: b1 :: rest, h =>
    cases h
    exact ⟨Nat.le_add_right _ _,by simp⟩

theorem hint_of_two_le (h : 2 ≤ head.length) : ∃ need, headerLenHint head = some need := by
  match head, h with
  | _ :: b1 :: rest, _ => exact ⟨_,rfl⟩

theorem hint_append (h : 2 ≤ head.length) (more : List UInt8) :
    headerLenHint (head ++ more) = headerLenHint head := by
  match head, h with
  | _ :: b1 :: rest, _ => rfl

theorem hint_take {n : ℕ} (hn : 2 ≤ n) : headerLenHint (head.take n) = headerLenHint head := by
  match head with
  | [] => rw [take_nil]
  | [b] => rw [take_of_length_le (by rw [length_singleton]; omega)]
  | _ :: b1 :: rest =>
    obtain ⟨n,rfl⟩ := Nat.exists_eq_add_of_le' hn
    rfl

/-- A header of which all octets are there is read. -/
theorem parse_take (hhint : headerLenHint head = some need) (hle : need ≤ head.length) :
    (∃ e, FrameHeader.parse (head.take need) = .error e) ∨
      ∃ header, FrameHeader.parse (head.take need) = .ok (some header) := by
  have hspec := FrameHeader.parse_spec (head.take need)
  rcases hparse : FrameHeader.parse (head.take need) with e | _ | header
  · exact .inl ⟨e,rfl⟩
  · rw [hparse] at hspec
    have hless := hspec need (by rw [hint_take (two_le_hint hhint).1,hhint])
    rw [length_take] at hless
    omega
  · exact .inr ⟨header,rfl⟩

def Partial (head : List UInt8) : Prop := head.length < (headerLenHint head).getD 2

def Completes (head more : List UInt8) (need : ℕ) : Prop :=
  headerLenHint (head ++ more) = some need ∧ (head ++ more).length = max head.length need

theorem Partial.completes (hhead : Partial head)
    (h : Completes head more need) : headerLenHint (head ++ more) = some (head ++ more).length ∧
      (head ++ more).length = need ∧ more ≠ [] := by
  obtain ⟨hhint,hlen⟩ := h
  have hless : head.length < need := by
    by_cases htwo : 2 ≤ head.length
    · rw [hint_append htwo] at hhint
      rwa [Partial,hhint] at hhead
    · have := (two_le_hint hhint).1
      omega
  have hneed : (head ++ more).length = need := by omega
  refine ⟨by rw [hhint,hneed],hneed,?_⟩
  rintro rfl
  rw [append_nil] at hneed
  omega

theorem Partial.of_short (h : head.length < 2) : Partial head := by
  rw [Partial]
  cases hhint : headerLenHint head with
  | none => exact h
  | some need => exact absurd (two_le_hint hhint).2 (by omega)

theorem Partial.of_prefix (h : Partial (head ++ more)) : Partial head := by
  by_cases htwo : 2 ≤ head.length
  · rw [Partial,hint_append htwo,length_append] at h
    rw [Partial]
    omega
  · exact .of_short (Nat.lt_of_not_le htwo)

namespace Session

inductive HeaderFails (s s' : Session S) (head : List UInt8) (e : Error) : Prop
  | ended (he : e = Error.eof) (hrx : s'.rx = s.rx)
      (htook : Io.BufReader.Took s.reader.remaining s.reader s'.reader) (hended : s'.reader.Ended)
      (hopen : Partial (head ++ s.reader.remaining))
  | timedOut (he : e = Error.new .timeout) (hlate : ¬ s.reader.transport.Timely)
      (hrx : s'.rx = s.rx)
  | buffered (need : ℕ) (hhead : head = []) (hrx : s'.rx = s.rx)
      (htook : Io.BufReader.Took [] s.reader s'.reader)
      (hbuffer : s.reader.fillBuf = (.ok s'.reader.buffered, s'.reader))
      (hhint : headerLenHint s'.reader.buffered = some need)
      (hneed : need ≤ s'.reader.buffered.length)
      (hparse : FrameHeader.parse (s'.reader.buffered.take need) = .error e)
  | collected (more : List UInt8) (need : ℕ) (hrx : s'.rx = s.rx)
      (htook : Io.BufReader.Took more s.reader s'.reader) (hcomplete : Completes head more need)
      (hparse : FrameHeader.parse ((head ++ more).take need) = .error e)
      (hslow : head ≠ [] ∨ ∀ need', headerLenHint s.reader.fillBuf.2.buffered = some need' →
        s.reader.fillBuf.2.buffered.length < need')

def HeaderRead (s : Session S) (head : List UInt8) :
    Except Error (Option FrameHeader) × Session S → Prop
  | (.ok (some header), s') => ∃ more need, Io.BufReader.Took more s.reader s'.reader ∧
      Completes head more need ∧ FrameHeader.parse ((head ++ more).take need) = .ok (some header) ∧
      s'.rx = { s.rx with phase := .header [] }
  | (.ok none, s') => ∃ more, Io.BufReader.Took more s.reader s'.reader ∧
      s'.rx = { s.rx with phase := .header (head ++ more) } ∧ Partial (head ++ more) ∧
      (s'.reader.transport.arrivals.length < s.reader.transport.arrivals.length ∨
        s'.reader.remaining = [] ∧ s'.reader.transport.closed = false)
  | (.error e, s') => s.HeaderFails s' head e

theorem collectHeader_spec (s : Session S) (head : List UInt8)
    (hslow : head ≠ [] ∨ ∀ need', headerLenHint s.reader.fillBuf.2.buffered = some need' →
        s.reader.fillBuf.2.buffered.length < need') :
    s.HeaderRead head (s.collectHeader head) := by
  have hfirst := s.reader.readMore_spec (2-head.length)
  rw [collectHeader]
  generalize s.reader.readMore (2-head.length) = first at hfirst ⊢
  obtain ⟨e | more,r₁⟩ := first
  · obtain ⟨rfl,hshort,hall,hended⟩ := hfirst
    refine .ended rfl rfl hall hended (.of_short ?_)
    rw [length_append]
    omega
  obtain ⟨htook,hlen⟩ := hfirst
  dsimp only
  split_ifs with htwo
  · refine ⟨more,htook,rfl,.of_short htwo,?_⟩
    rw [length_append] at htwo
    rcases hlen with hlen | ⟨-,-,hprogress⟩
    · omega
    · exact hprogress
  obtain ⟨need,hhint⟩ := hint_of_two_le (Nat.le_of_not_lt htwo)
  have hmax : (head ++ more).length = max head.length 2 := by
    rw [length_append] at htwo ⊢
    rcases hlen with hlen | hlen <;> omega
  rw [hint_take le_rfl,hhint]
  dsimp only
  have hsecond := r₁.readMore_spec (need-(head ++ more).length)
  generalize r₁.readMore (need-(head ++ more).length) = second at hsecond ⊢
  have happend : ∀ more', headerLenHint (head ++ (more ++ more')) = some need := by
    intro more'
    rw [← append_assoc,hint_append (Nat.le_of_not_lt htwo),hhint]
  obtain ⟨e | more',r₂⟩ := second
  · obtain ⟨rfl,hshort,hall,hended⟩ := hsecond
    refine .ended rfl rfl (by rw [htook.remaining]; exact htook.trans hall) hended ?_
    rw [Partial,htook.remaining,happend,← append_assoc,length_append,
      Option.getD_some]
    omega
  obtain ⟨htook',hlen'⟩ := hsecond
  have hall := htook.trans htook'
  dsimp only
  split_ifs with hless
  · refine ⟨more ++ more',hall,?_,?_,?_⟩
    · rw [← append_assoc]
      rfl
    · rw [Partial,happend,← append_assoc]
      exact hless
    · rw [length_append] at hless
      rcases hlen' with hlen' | ⟨-,-,hprogress⟩
      · omega
      · exact hprogress.imp_left fun h => h.trans_le htook.arrivals
  · have hcomplete : Completes head (more ++ more') need := by
      refine ⟨happend more',?_⟩
      have hneed := (two_le_hint hhint).1
      rw [← append_assoc]
      rw [length_append] at hless ⊢
      rcases hlen' with hlen' | hlen' <;> omega
    rw [append_assoc] at hless ⊢
    rcases parse_take (happend more') (Nat.le_of_not_lt hless) with ⟨e,hparse⟩ | ⟨header,hparse⟩
    · rw [hparse]
      exact .collected (more ++ more') need rfl hall hcomplete hparse hslow
    · rw [hparse]
      exact ⟨more ++ more',need,hall,hcomplete,hparse,rfl⟩

theorem readHeader_spec (s : Session S) (hphase : s.rx.phase = .header head) :
    s.HeaderRead head (s.readHeader head) := by
  rw [readHeader]
  by_cases hhead : head = []
  · subst hhead
    rw [if_neg (not_not.2 rfl)]
    have hfill := s.reader.fillBuf_spec
    rcases hresult : s.reader.fillBuf with ⟨result,reader⟩
    rw [hresult] at hfill
    have hrx : s.rx = { s.rx with phase := .header [] } := by rw [← hphase]
    cases result with
    | error e =>
      dsimp only at hfill ⊢
      rcases hfill.kind with rfl | ⟨rfl,hlate⟩
      · rw [if_pos (show (Error.new .wouldBlock).kind = .wouldBlock from rfl)]
        exact ⟨[],hfill.toTook,hrx,Nat.zero_lt_two,hfill.idle⟩
      · rw [if_neg (by decide)]
        exact .timedOut rfl hlate rfl
    | ok buf =>
      cases buf with
      | nil =>
        obtain ⟨rfl,hended⟩ := hfill
        refine .ended rfl rfl ?_ hended ?_
        · rw [hended.1]
          exact Io.BufReader.Took.refl s.reader
        · rw [hended.1]
          exact Nat.zero_lt_two
      | cons b bs =>
        obtain ⟨hbuffered,htook⟩ := hfill
        -- the accumulating path starts from the filled buffer
        have hrefill : reader.fillBuf = (.ok reader.buffered,reader) := by
          rw [Io.BufReader.fillBuf,if_neg (by rw [hbuffered]; exact cons_ne_nil _ _)]
        have hcollect : (∀ need', headerLenHint (b :: bs) = some need' →
            (b :: bs).length < need') →
            s.HeaderRead [] (({ s with reader } : Session S).collectHeader []) := by
          intro hshort
          have hspec := ({ s with reader } : Session S).collectHeader_spec [] (.inr (by
            rw [hrefill,hbuffered]
            exact hshort))
          generalize ({ s with reader } : Session S).collectHeader [] = r at hspec ⊢
          obtain ⟨e | header,s'⟩ := r
          · cases hspec with
            | ended he hrx hall hended hopen =>
              rw [nil_append] at hopen
              refine .ended he hrx ?_ hended ?_
              · rw [htook.remaining]
                exact htook.trans hall
              · rw [htook.remaining]
                exact hopen
            | timedOut he hlate hrx => exact .timedOut he (fun h => hlate (htook.timely h)) hrx
            | buffered need _ hrx htook' hbuffer hhint hneed hparse =>
              rw [hrefill] at hbuffer
              obtain ⟨-,hsame⟩ := Prod.mk.inj hbuffer
              rw [← hsame,hbuffered] at hhint hneed
              exact absurd hneed (Nat.not_le.2 (hshort need hhint))
            | collected more need hrx htook' hcomplete hparse _ =>
              refine .collected more need hrx (htook.trans htook') hcomplete hparse (.inr ?_)
              rw [hresult,hbuffered]
              exact hshort
          · cases header with
            | none =>
              obtain ⟨more,htook',hrx',hcollect,hprogress⟩ := hspec
              exact ⟨more,htook.trans htook',hrx',hcollect,
                hprogress.imp_left fun h => h.trans_le htook.arrivals⟩
            | some header =>
              obtain ⟨more,need,htook',hcomplete,hparse,hrx'⟩ := hspec
              exact ⟨more,need,htook.trans htook',hcomplete,hparse,hrx'⟩
        dsimp only
        cases hhint : headerLenHint (b :: bs) with
        | none =>
          refine hcollect fun need' hneed' => ?_
          cases hhint.symm.trans hneed'
        | some need =>
          dsimp only
          split_ifs with hshort
          · refine hcollect fun need' hneed' => ?_
            cases hhint.symm.trans hneed'
            exact hshort
          have hle := Nat.le_of_not_lt hshort
          rcases parse_take hhint hle with ⟨e,hparse⟩ | ⟨header,hparse⟩
          · rw [hparse]
            rw [← hbuffered] at hhint hle hparse
            exact .buffered need rfl rfl htook (by rw [hresult,hbuffered]) hhint hle hparse
          rw [hparse]
          refine ⟨(b :: bs).take need,need,.of_fillBuf hresult need,⟨?_,?_⟩,?_,hrx⟩
          · rw [nil_append,hint_take (two_le_hint hhint).1,hhint]
          · rw [nil_append,length_take,min_eq_left hle,length_nil,
              Nat.zero_max]
          · rw [nil_append,take_take,min_self,hparse]
  · rw [if_pos hhead]
    exact s.collectHeader_spec head (.inl hhead)

end Session

/-! ### Reading a payload -/

namespace Receiver

/-- The receiver is at the end of a frame. -/
def Between (rx : Receiver S) : Prop := rx.phase = .header [] ∨ rx.phase = .finished

variable {header : FrameHeader}

/-- A piece that is accepted leaves everything alone but the payload and the validator. -/
theorem acceptPayload_ok {rx : Receiver S} (h : rx.acceptPayload header got piece = (.ok (),rx')) :
    rx' = { rx with msg := rx'.msg, ctl := rx'.ctl, utf8 := rx'.utf8 } := by
  rw [acceptPayload] at h
  split_ifs at h with hmask hcontrol htext hcontrol htext
  all_goals
    first
      | (cases h; rfl)
      | (split at h
         · cases h
         · cases h; rfl)

theorem acceptPayload_nil (rx : Receiver S) (header : FrameHeader) (got : ℕ) :
    rx.acceptPayload header got [] = (.ok (),rx) := by
  have hnil : (if header.masked then header.maskKey.apply got [] else []) = [] := by
    split_ifs
    · rw [MaskKey.apply_eq]
      rfl
    · rfl
  rw [acceptPayload,hnil]
  rw [feed_eq,append_nil,append_nil,feedAll]
  split_ifs <;> rfl

theorem acceptPayload_append {rx rx₂ : Receiver S}
    {a b : List UInt8} : rx.acceptPayload header got (a ++ b) = (.ok (),rx₂) ↔
      ∃ rx₁, rx.acceptPayload header got a = (.ok (),rx₁) ∧
        rx₁.acceptPayload header (got+a.length) b = (.ok (),rx₂) := by
  have hdata : (if header.masked then header.maskKey.apply got (a ++ b) else a ++ b) =
      (if header.masked then header.maskKey.apply got a else a) ++
        (if header.masked then header.maskKey.apply (got+a.length) b else b) := by
    split_ifs
    · exact header.maskKey.apply_append got a b
    · rfl
  simp only [acceptPayload,hdata]
  generalize (if header.masked then header.maskKey.apply got a else a) = x
  generalize (if header.masked then header.maskKey.apply (got+a.length) b else b) = y
  by_cases hcontrol : header.opcode.isControl = true
  · simp [hcontrol]
  simp only [if_neg hcontrol]
  by_cases htext : rx.msgOpcode = some .text ∧ rx.msgCompressed = false
  · simp only [if_pos htext,feed_eq,feedAll_append]
    cases feedAll rx.utf8 0 x with
    | error bad => simp [fatal]
    | ok utf8 =>
      simp only [Prod.mk.injEq,true_and,exists_eq_left',if_pos htext]
      cases hy : feedAll utf8 0 y with
      | error bad =>
        obtain ⟨at',hat⟩ := feedAll_error hy (0+x.length)
        rw [hat]
        simp [fatal]
      | ok utf8' => simp [feedAll_ok_offset hy]
  · simp [htext]

end Receiver

namespace Session

def Parked (s s' : Session S) (header : FrameHeader) (got : ℕ) : Prop :=
  ∃ piece rx, Io.BufReader.Took piece s.reader s'.reader ∧
    s.rx.acceptPayload header got piece = (.ok (), rx) ∧
    s'.rx = { rx with phase := .payload header (got + piece.length) } ∧
    got + piece.length < header.payloadLen

inductive PayloadFails (s s' : Session S) (header : FrameHeader) (got : ℕ) (e : Error) : Prop
  | ended (he : e = Error.eof)
      (htook : Io.BufReader.Took s.reader.remaining s.reader s'.reader) (hended : s'.reader.Ended)
      (rx : Receiver S)
      (haccept : s.rx.acceptPayload header got s.reader.remaining = (.ok (), rx))
      (hopen : got + s.reader.remaining.length < header.payloadLen)
      (hphase : s'.rx.phase = s.rx.phase ∨
        ∃ got', got' < header.payloadLen ∧ s'.rx.phase = .payload header got')
  | timedOut (he : e = Error.new .timeout) (hlate : ¬ s.reader.transport.Timely)
      (hparked : s.Parked s' header got)
  | rejected (a b rest : List UInt8) (hremaining : s.reader.remaining = a ++ (b ++ rest))
      (rx : Receiver S) (ha : s.rx.acceptPayload header got a = (.ok (), rx))
      (hb : rx.acceptPayload header (got + a.length) b = (.error e, s'.rx))
      (hle : got + (a.length + b.length) ≤ header.payloadLen)

/-- The result of reading a payload that starts with its `got`-th octet. -/
def PayloadRead (s : Session S) (header : FrameHeader) (got : ℕ) :
    Except Error Bool × Session S → Prop
  | (.ok true, s') => ∃ piece rx, Io.BufReader.Took piece s.reader s'.reader ∧
      s.rx.acceptPayload header got piece = (.ok (), rx) ∧
      s'.rx = { rx with phase := .payload header (got + piece.length) } ∧
      got + piece.length = max got header.payloadLen
  | (.ok false, s') => s.Parked s' header got ∧
      (s'.reader.transport.arrivals.length < s.reader.transport.arrivals.length ∨
        s'.reader.remaining = [] ∧ s'.reader.transport.closed = false)
  | (.error e, s') => s.PayloadFails s' header got e

theorem nextPiece_spec {s : Session S} {header : FrameHeader}
    (hgot : ¬ header.payloadLen ≤ got) {r : Except Error (List UInt8) × Bool × Io.BufReader} :
    s.nextPiece header (header.payloadLen-got) = r → match r with
    | (.error e,_,reader) =>
      (e = Error.eof ∧ reader = s.reader ∧ s.reader.Ended) ∨ Io.BufReader.Waits e s.reader reader
    | (.ok [],_,reader) => reader = s.reader ∧ s.reader.Ended
    | (.ok (b :: bs),buffered,reader) => (b :: bs).length ≤ header.payloadLen-got ∧
        Io.BufReader.Took (b :: bs) s.reader
          (if buffered then reader.consume (bs.length+1) else reader) := by
  rintro rfl
  have hrest := Nat.sub_pos_of_lt (Nat.lt_of_not_le hgot)
  generalize header.payloadLen-got = rest at hrest ⊢
  rw [nextPiece]
  split_ifs with hdirect
  · have hspec := s.reader.readDirect_spec hrest hdirect.2.2
    generalize s.reader.readDirect rest = r at hspec ⊢
    obtain ⟨e | got,reader⟩ := r
    · exact hspec
    · obtain ⟨hne,hlen,htook⟩ := hspec
      cases got with
      | nil => exact absurd rfl hne
      | cons b bs => exact ⟨hlen,htook⟩
  have hspec := s.reader.fillBuf_spec
  generalize s.reader.fillBuf = r at hspec ⊢
  obtain ⟨e | buf,reader⟩ := r
  · exact .inr hspec
  cases buf with
  | nil =>
    dsimp only
    rw [take_nil]
    exact hspec
  | cons b bs =>
    obtain ⟨hbuffered,htook⟩ := hspec
    obtain ⟨rest,rfl⟩ := Nat.exists_eq_add_one_of_ne_zero hrest.ne'
    have hconsume := Io.BufReader.Took.consume reader ((bs.take rest).length+1)
    have htake : (b :: bs).take ((bs.take rest).length+1) = b :: bs.take rest := by
      rw [take_succ_cons,length_take,← take_eq_take_min]
    rw [hbuffered,htake] at hconsume
    dsimp only
    rw [take_succ_cons]
    refine ⟨?_,htook.trans hconsume⟩
    rw [length_cons,length_take]
    omega

variable {header : FrameHeader} {s : Session S} {rx : Receiver S}

theorem Parked.after (htook : Io.BufReader.Took piece s.reader r)
    (haccept : s.rx.acceptPayload header got piece = (.ok (),rx))
    (h : Parked ⟨r,rx⟩ s' header (got+piece.length)) : s.Parked s' header got := by
  obtain ⟨more,rx',htook',haccept',hrx,hless⟩ := h
  have hsum : got+(piece ++ more).length = got+piece.length+more.length := by
    rw [length_append,Nat.add_assoc]
  refine ⟨piece ++ more,rx',htook.trans htook',Receiver.acceptPayload_append.2 ⟨_,haccept,haccept'⟩,
    ?_,?_⟩
  · rw [hsum]
    exact hrx
  · rw [hsum]
    exact hless

theorem Parked.of_waits {e : Error}
    (hwaits : Io.BufReader.Waits e s.reader r) (hgot : got < header.payloadLen) :
    s.Parked (({ s with reader := r } : Session S).park (.payload header got)) header got :=
  ⟨[],s.rx,hwaits.toTook,s.rx.acceptPayload_nil header got,rfl,hgot⟩

theorem PayloadFails.of_ended (hended : s.reader.Ended)
    (hgot : got < header.payloadLen) (hreader : s'.reader = s.reader)
    (hphase : s'.rx.phase = s.rx.phase ∨
      ∃ got', got' < header.payloadLen ∧ s'.rx.phase = .payload header got') :
    s.PayloadFails s' header got Error.eof := by
  refine .ended rfl ?_ (hreader ▸ hended) s.rx ?_ ?_ hphase
  · rw [hended.1,hreader]
    exact Io.BufReader.Took.refl s.reader
  · rw [hended.1]
    exact s.rx.acceptPayload_nil header got
  · rw [hended.1]
    exact hgot

theorem readPayload_spec (s : Session S) (header : FrameHeader) (got : ℕ) :
    s.PayloadRead header got (s.readPayload header got) := by
  fun_induction readPayload s header got with
  | case1 s got hgot =>
    refine ⟨[],s.rx,Io.BufReader.Took.refl _,s.rx.acceptPayload_nil header got,rfl,?_⟩
    rw [length_nil]
    omega
  | case2 s got hgot e buffered reader hpiece s' hkind =>
    rcases nextPiece_spec hgot hpiece with ⟨rfl,-⟩ | hwaits
    · cases hkind
    · exact ⟨Parked.of_waits hwaits (Nat.lt_of_not_le hgot),hwaits.idle⟩
  | case3 s got hgot e buffered reader hpiece s' hkind =>
    rcases nextPiece_spec hgot hpiece with ⟨rfl,rfl,hended⟩ | hwaits
    · exact .of_ended hended (Nat.lt_of_not_le hgot) rfl (.inr ⟨got,Nat.lt_of_not_le hgot,rfl⟩)
    · rcases hwaits.kind with rfl | ⟨rfl,hlate⟩
      · exact absurd rfl hkind
      · exact .timedOut rfl hlate (Parked.of_waits hwaits (Nat.lt_of_not_le hgot))
  | case4 s got hgot buffered reader hpiece =>
    obtain ⟨rfl,hended⟩ := nextPiece_spec hgot hpiece
    exact .of_ended hended (Nat.lt_of_not_le hgot) rfl (.inl rfl)
  | case5 s got hgot b bs buffered reader hpiece e rx haccept =>
    obtain ⟨hlen,htook⟩ := nextPiece_spec hgot hpiece
    refine .rejected [] (b :: bs) _ htook.remaining s.rx (s.rx.acceptPayload_nil header got)
      haccept ?_
    rw [length_nil]
    omega
  | case6 s got hgot b bs buffered reader hpiece rx haccept reader' _ ih =>
    obtain ⟨hlen,htook⟩ := nextPiece_spec hgot hpiece
    rw [length_cons] at hlen
    have hphase : rx.phase = s.rx.phase := by rw [Receiver.acceptPayload_ok haccept]
    generalize readPayload ⟨reader',rx⟩ header (got+(bs.length+1)) = r at ih ⊢
    obtain ⟨e | _ | _,s'⟩ := r
    · cases ih with
      | ended he hall hended rx' haccept' hopen hphase' =>
        refine .ended he ?_ hended rx' ?_ ?_ ?_
        · rw [htook.remaining]
          exact htook.trans hall
        · rw [htook.remaining]
          exact Receiver.acceptPayload_append.2 ⟨_,haccept,haccept'⟩
        · rw [htook.remaining,length_append,← Nat.add_assoc]
          exact hopen
        · rwa [← hphase]
      | timedOut he hlate hparked =>
        exact .timedOut he (fun h => hlate (htook.timely h)) (Parked.after htook haccept hparked)
      | rejected x y rest hremaining rx' hx hy hle =>
        refine .rejected ((b :: bs) ++ x) y rest ?_ rx' (Receiver.acceptPayload_append.2 ⟨_,haccept,hx⟩)
          ?_ ?_
        · rw [htook.remaining,append_assoc]
          exact congrArg _ hremaining
        · rw [length_append,← Nat.add_assoc]
          exact hy
        · rw [length_append,length_cons]
          omega
    · exact ⟨Parked.after htook haccept ih.1,ih.2.imp_left fun h => h.trans_le htook.arrivals⟩
    · obtain ⟨piece,rx',htook',haccept',hrx,hend⟩ := ih
      have hsum : got+(b :: bs ++ piece).length = got+(bs.length+1)+piece.length := by
        rw [length_append,length_cons]
        omega
      refine ⟨b :: bs ++ piece,rx',htook.trans htook',
        Receiver.acceptPayload_append.2 ⟨_,haccept,haccept'⟩,?_,?_⟩
      · rw [hsum]
        exact hrx
      · rw [hsum]
        omega

/-! ### The loop -/

def rank : Phase → ℕ
  | .header [] => 0
  | .payload _ _ => 1
  | .header (_ :: _) => 2
  | .finished => 0

def weight (s : Session S) : ℕ := 3 * s.reader.remaining.length + rank s.rx.phase

theorem beginFrame_phase (h : rx.beginFrame header = (.ok (),rx')) :
    rx'.phase = .payload header 0 := by
  rw [Receiver.beginFrame] at h
  generalize header.checkReserved rx.cfg.compression.isSome = reserved,
    Receiver.checkMask rx.cfg.role header = mask at h ⊢
  rcases reserved with e | u
  · cases h
  rcases mask with e | u
  · cases h
  split_ifs at h
  · cases h
  · cases h
    rfl
  generalize rx.openMessage header = opened at h ⊢
  rcases opened with e | rx₁
  · cases h
  · dsimp only [Receiver.acceptData] at h
    split_ifs at h
    all_goals first | (cases h; rfl) | cases h

variable [FrameSink S]

theorem finishFrame_phase (rx : Receiver S) (header : FrameHeader) :
    (rx.finishFrame header).2.Between := by
  have hmessage : ∀ (rx : Receiver S) (opcode : OpCode) (compressed : Bool) (bytes : List UInt8),
      rx.phase = .header [] → (rx.finishMessage opcode compressed bytes).2.Between := by
    intro rx opcode compressed bytes hrx
    cases opcode with
    | text =>
      simp only [Receiver.finishMessage]
      split_ifs
      · exact .inr rfl
      · exact .inr rfl
      · exact .inl hrx
      · exact .inl hrx
    | _ => exact .inl hrx
  have hdata : ∀ (rx : Receiver S) (fin : Bool), rx.phase = .header [] →
      (rx.finishData fin).2.Between := by
    intro rx fin hrx
    rw [Receiver.finishData]
    split_ifs
    · exact .inl hrx
    cases rx.msgOpcode with
    | none => exact .inl hrx
    | some opcode =>
      dsimp only
      split_ifs
      · cases rx.inflater with
        | none => exact .inl hrx
        | some inflater =>
          dsimp only
          rcases inflater.inflateMessage rx.msg rx.cfg.maxMessage with ⟨e | bytes,inflater⟩
          · exact .inr rfl
          · exact hmessage _ _ _ _ hrx
      · exact hmessage _ _ _ _ hrx
  rw [Receiver.finishFrame]
  cases header.opcode with
  | ping =>
    simp only [Receiver.finishPing]
    split_ifs
    · rcases rx.writer.sendPong rx.ctl with ⟨e | u,writer⟩ <;> exact .inl rfl
    · exact .inl rfl
  | pong => exact .inl rfl
  | close =>
    simp only [Receiver.finishClose]
    cases Close.parse rx.ctl with
    | error e => exact .inr rfl
    | ok frame =>
      dsimp only [Receiver.close]
      split_ifs with hsent hreceived
      · exact .inr rfl
      · rcases rx.writer.sendClose _ _ with ⟨e | u,writer⟩
        · exact .inl rfl
        · exact .inr rfl
      · exact absurd rfl hreceived
  | continuation | text | binary => exact hdata _ _ rfl

theorem rank_finishFrame (rx : Receiver S) (header : FrameHeader) :
    rank (rx.finishFrame header).2.phase = 0 := by
  rcases finishFrame_phase rx header with h | h
  · rw [h,rank]
  · rw [h,rank]

theorem iterate_lt (h : s.iterate = (none,s')) : s'.weight < s.weight := by
  rw [iterate] at h
  cases hphase : s.rx.phase with
  | finished =>
    rw [hphase] at h
    cases h
  | header head =>
    rw [hphase] at h
    dsimp only at h
    have hspec := s.readHeader_spec hphase
    generalize s.readHeader head = r at h hspec ⊢
    obtain ⟨e | _ | header,s₁⟩ := r
    · cases h
    · cases h
    obtain ⟨more,need,htook,hcomplete,-,-⟩ := hspec
    dsimp only at h
    rcases hbegin : s₁.rx.beginFrame header with ⟨result,rx⟩
    rw [hbegin] at h
    rcases result with e | u
    · cases h
    cases h
    have hremaining := congrArg length htook.remaining
    rw [length_append] at hremaining
    simp only [weight,beginFrame_phase hbegin,hphase,rank]
    cases head with
    | nil =>
      have hneed := (two_le_hint hcomplete.1).2
      rw [nil_append] at hneed
      omega
    | cons b bs =>
      dsimp only
      omega
  | payload header got =>
    rw [hphase] at h
    dsimp only at h
    have hspec := s.readPayload_spec header got
    generalize s.readPayload header got = r at h hspec ⊢
    obtain ⟨e | _ | _,s₁⟩ := r
    · cases h
    · cases h
    obtain ⟨piece,rx,htook,-,-,-⟩ := hspec
    dsimp only at h
    rcases hfinish : s₁.rx.finishFrame header with ⟨result,rx⟩
    rw [hfinish] at h
    rcases result with e | _ | event
    · cases h
    · cases h
      have hremaining := congrArg length htook.remaining
      rw [length_append] at hremaining
      have hrank := rank_finishFrame s₁.rx header
      rw [hfinish] at hrank
      rw [weight,weight,hphase,rank,hrank]
      dsimp only
      omega
    · cases h

def pollMessage (s : Session S) : Except Error (Option Event) × Session S :=
  match h : s.iterate with
  | (some result, s') => (result, s')
  | (none, s') =>
    have := iterate_lt h
    pollMessage s'
termination_by s.weight

end Session

end Courierust.Ws
