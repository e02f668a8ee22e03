import Courierust.Error
import Mathlib.Tactic

/-!
# The buffered reader

`BufReader` over a transport that can also end: `fill_buf`, `consume`, `read_more` and
`read_direct` hand on what arrives, in order and without loss, and stop where nothing more has
arrived or where the peer has closed.
-/

namespace Courierust.Io

open List

/-- What a read of the transport returns: at least one octet, or that there is none now. -/
inductive Arrival where
  | bytes (b : UInt8) (bs : List UInt8)
  | wouldBlock
  | timeout

namespace Arrival

def octets : Arrival → List UInt8
  | .bytes b bs => b :: bs
  | _ => []

end Arrival

/-- A transport: what arrives read by read, and whether the peer closes it afterwards. -/
structure Transport where
  arrivals : List Arrival
  closed : Bool

namespace Transport

/-- `Read::read` into a buffer of `cap` octets: no octets mean the end of the stream. -/
def read (t : Transport) (cap : ℕ) : Except Error (List UInt8) × Transport :=
  match t.arrivals with
  | [] => if t.closed then (.ok [], t) else (.error (Error.new .wouldBlock), t)
  | .bytes b bs :: rest =>
    match (b :: bs).drop cap with
    | [] => (.ok (b :: bs), { t with arrivals := rest })
    | c :: cs => (.ok ((b :: bs).take cap), { t with arrivals := .bytes c cs :: rest })
  | .wouldBlock :: rest => (.error (Error.new .wouldBlock), { t with arrivals := rest })
  | .timeout :: rest => (.error (Error.new .timeout), { t with arrivals := rest })

def octets (t : Transport) : List UInt8 := t.arrivals.flatMap Arrival.octets

def Timely (t : Transport) : Prop := ∀ a ∈ t.arrivals, a ≠ .timeout

end Transport

structure BufReader where
  buffered : List UInt8
  capacity : ℕ
  room : 0 < capacity
  transport : Transport

namespace BufReader

/-- `fill_buf`: the buffered octets; none at the end of the stream. -/
def fillBuf (r : BufReader) : Except Error (List UInt8) × BufReader :=
  if r.buffered = [] then
    match r.transport.read r.capacity with
    | (.ok got, transport) => (.ok got, { r with buffered := got, transport })
    | (.error e, transport) => (.error e, { r with transport })
  else (.ok r.buffered, r)

def consume (r : BufReader) (n : ℕ) : BufReader := { r with buffered := r.buffered.drop n }

/-- `read_more` for `n` octets: it stops early when there is nothing more now. -/
def readMore (n : ℕ) (r : BufReader) : Except Error (List UInt8) × BufReader :=
  if hn : n = 0 then (.ok [], r)
  else
    match r.fillBuf with
    | (.ok [], r) => (.error Error.eof, r)
    | (.ok (b :: bs), r) =>
      let take := min n (bs.length + 1)
      have : n - take < n := by omega
      match readMore (n - take) (r.consume take) with
      | (.ok more, r) => (.ok ((b :: bs).take take ++ more), r)
      | (.error e, r) => (.error e, r)
    | (.error e, r) =>
      if e.kind = .timeout ∨ e.kind = .wouldBlock then (.ok [], r) else (.error e, r)
termination_by n

/-- `read_direct` for up to `n` octets, past the buffer when it is empty. -/
def readDirect (n : ℕ) (r : BufReader) : Except Error (List UInt8) × BufReader :=
  if n = 0 then (.ok [], r)
  else if r.buffered ≠ [] then (.ok (r.buffered.take n), r.consume n)
  else
    match r.transport.read n with
    | (.ok [], transport) => (.error Error.eof, { r with transport })
    | (.ok (b :: bs), transport) => (.ok (b :: bs), { r with transport })
    | (.error e, transport) => (.error e, { r with transport })

def remaining (r : BufReader) : List UInt8 := r.buffered ++ r.transport.octets

def weight (r : BufReader) : ℕ := r.remaining.length + r.transport.arrivals.length

def Ended (r : BufReader) : Prop := r.remaining = [] ∧ r.transport.arrivals = [] ∧
  r.transport.closed = true

end BufReader

/-! ### One read of the transport -/

/-- Nothing has arrived: with a time-out, or while the arrivals become fewer, or because there
is nothing more to come. -/
structure Stalled (e : Error) (before after : Transport) : Prop where
  octets : after.octets = before.octets
  closed : after.closed = before.closed
  timely : before.Timely → after.Timely
  kind : e = Error.new .wouldBlock ∨ e = Error.new .timeout ∧ ¬ before.Timely
  progress : after.arrivals.length < before.arrivals.length ∨
    before.arrivals = [] ∧ before.closed = false ∧ after = before

structure Delivered (got : List UInt8) (before after : Transport) : Prop where
  octets : before.octets = got ++ after.octets
  closed : after.closed = before.closed
  timely : before.Timely → after.Timely
  arrivals : after.arrivals.length ≤ before.arrivals.length

theorem Transport.read_spec (t : Transport) {cap : ℕ} (hcap : 0 < cap) :
    match t.read cap with
    | (.ok [],t') => t' = t ∧ t.arrivals = [] ∧ t.closed = true
    | (.ok got,t') => got.length ≤ cap ∧ Delivered got t t'
    | (.error e,t') => Stalled e t t' := by
  obtain ⟨arrivals,closed⟩ := t
  cases arrivals with
  | nil =>
    cases closed with
    | true => exact ⟨rfl,rfl,rfl⟩
    | false => exact ⟨rfl,rfl,id,.inl rfl,.inr ⟨rfl,rfl,rfl⟩⟩
  | cons a rest =>
    have htail : (⟨a :: rest,closed⟩ : Transport).Timely → (⟨rest,closed⟩ : Transport).Timely :=
      fun h b hb => h b (mem_cons_of_mem _ hb)
    cases a with
    | bytes b bs =>
      simp only [Transport.read]
      have hsplit := take_append_drop cap (b :: bs)
      cases hdrop : (b :: bs).drop cap with
      | nil =>
        have hlen := congrArg length hdrop
        rw [length_drop,length_nil] at hlen
        exact ⟨by omega,rfl,rfl,htail,Nat.le_succ _⟩
      | cons c cs =>
        obtain ⟨cap,rfl⟩ := Nat.exists_eq_add_one_of_ne_zero hcap.ne'
        rw [hdrop] at hsplit
        refine ⟨length_take_le _ _,?_,rfl,?_,le_rfl⟩
        · simp only [Transport.octets,flatMap_cons,Arrival.octets]
          rw [← append_assoc]
          exact congrArg (· ++ _) hsplit.symm
        · intro h a ha
          rcases mem_cons.1 ha with rfl | ha
          · intro htimeout
            cases htimeout
          · exact h a (mem_cons_of_mem _ ha)
    | wouldBlock => exact ⟨rfl,rfl,htail,.inl rfl,.inl (Nat.lt_succ_self _)⟩
    | timeout =>
      refine ⟨rfl,rfl,htail,.inr ⟨rfl,?_⟩,.inl (Nat.lt_succ_self _)⟩
      intro h
      exact h .timeout mem_cons_self rfl

/-! ### The reader -/

namespace BufReader

/-- A reader after `got` was handed on: the rest follows, and nothing has been added. -/
structure Took (got : List UInt8) (before after : BufReader) : Prop where
  remaining : before.remaining = got ++ after.remaining
  closed : after.transport.closed = before.transport.closed
  timely : before.transport.Timely → after.transport.Timely
  arrivals : after.transport.arrivals.length ≤ before.transport.arrivals.length

theorem Took.refl (r : BufReader) : Took [] r r := ⟨rfl,rfl,id,le_rfl⟩

theorem Took.trans {a b : List UInt8} {r r' r'' : BufReader} (h : Took a r r') (h' : Took b r' r'') :
    Took (a ++ b) r r'' := by
  refine ⟨?_,h'.closed.trans h.closed,h'.timely ∘ h.timely,h'.arrivals.trans h.arrivals⟩
  rw [h.remaining,h'.remaining,append_assoc]

theorem Took.consume (r : BufReader) (n : ℕ) : Took (r.buffered.take n) r (r.consume n) := by
  refine ⟨?_,rfl,id,le_rfl⟩
  rw [BufReader.remaining,BufReader.remaining,BufReader.consume,← append_assoc,take_append_drop]

structure Waits (e : Error) (before after : BufReader) : Prop extends Took [] before after where
  empty : before.buffered = [] ∧ after.buffered = []
  kind : e = Error.new .wouldBlock ∨ e = Error.new .timeout ∧ ¬ before.transport.Timely
  progress : after.transport.arrivals.length < before.transport.arrivals.length ∨
    before.remaining = [] ∧ before.transport.closed = false

theorem Waits.idle {e : Error} {r r' : BufReader} (h : Waits e r r') :
    r'.transport.arrivals.length < r.transport.arrivals.length ∨
      r'.remaining = [] ∧ r'.transport.closed = false :=
  h.progress.imp_right fun hnone => ⟨h.remaining.symm.trans hnone.1,h.closed.trans hnone.2⟩

theorem remaining_eq_nil {r : BufReader} (hr : r.buffered = []) (hnone : r.transport.arrivals = []) :
    r.remaining = [] := by
  rw [remaining,hr,Transport.octets,hnone]
  rfl

theorem Waits.of_stalled {r : BufReader} (hr : r.buffered = []) {e : Error} {t : Transport}
    (h : Stalled e r.transport t) : Waits e r { r with transport := t } := by
  refine ⟨⟨?_,h.closed,h.timely,?_⟩,⟨hr,hr⟩,h.kind,?_⟩
  · rw [BufReader.remaining,BufReader.remaining,h.octets,nil_append]
  · rcases h.progress with hless | ⟨-,-,hsame⟩
    · exact hless.le
    · rw [hsame]
  · rcases h.progress with hless | ⟨hnone,hopen,-⟩
    · exact .inl hless
    · exact .inr ⟨remaining_eq_nil hr hnone,hopen⟩

theorem fillBuf_spec (r : BufReader) :
    match r.fillBuf with
    | (.ok [],r') => r' = r ∧ r.Ended
    | (.ok got,r') => r'.buffered = got ∧ Took [] r r'
    | (.error e,r') => Waits e r r' := by
  by_cases hr : r.buffered = []
  · have hspec := r.transport.read_spec r.room
    rw [fillBuf,if_pos hr]
    generalize r.transport.read r.capacity = result at hspec ⊢
    obtain ⟨e | got,t⟩ := result
    · exact Waits.of_stalled hr hspec
    cases got with
    | nil =>
      obtain ⟨rfl,hnone,hclosed⟩ := hspec
      exact ⟨by rw [← hr],remaining_eq_nil hr hnone,hnone,hclosed⟩
    | cons b bs =>
      obtain ⟨-,hd⟩ := hspec
      refine ⟨rfl,?_,hd.closed,hd.timely,hd.arrivals⟩
      rw [remaining,remaining,hr,hd.octets,nil_append]
  · rw [fillBuf,if_neg hr]
    cases hb : r.buffered with
    | nil => exact absurd hb hr
    | cons b bs => exact ⟨hb,Took.refl r⟩

theorem Took.of_fillBuf {r r' : BufReader} {b : UInt8} {bs : List UInt8}
    (h : r.fillBuf = (.ok (b :: bs),r')) (n : ℕ) : Took ((b :: bs).take n) r (r'.consume n) := by
  have hspec := r.fillBuf_spec
  rw [h] at hspec
  rw [← hspec.1]
  exact hspec.2.trans (Took.consume r' n)

theorem readDirect_spec (r : BufReader) {n : ℕ} (hn : 0 < n) (hr : r.buffered = []) :
    match r.readDirect n with
    | (.ok got,r') => got ≠ [] ∧ got.length ≤ n ∧ Took got r r'
    | (.error e,r') => (e = Error.eof ∧ r' = r ∧ r.Ended) ∨ Waits e r r' := by
  have hspec := r.transport.read_spec hn
  rw [readDirect,if_neg hn.ne',if_neg (not_not.2 hr)]
  generalize r.transport.read n = result at hspec ⊢
  obtain ⟨e | got,t⟩ := result
  · exact .inr (Waits.of_stalled hr hspec)
  cases got with
  | nil =>
    obtain ⟨rfl,hnone,hclosed⟩ := hspec
    exact .inl ⟨rfl,rfl,remaining_eq_nil hr hnone,hnone,hclosed⟩
  | cons b bs =>
    obtain ⟨hlen,hd⟩ := hspec
    refine ⟨cons_ne_nil _ _,hlen,?_,hd.closed,hd.timely,hd.arrivals⟩
    rw [remaining,remaining,hr,nil_append,nil_append,hd.octets]

/-- `read_more` hands on all it was asked for, or what there is until the reader has to wait, or
it meets the end of the stream. -/
theorem readMore_spec (n : ℕ) (r : BufReader) :
    match r.readMore n with
    | (.ok got,r') => Took got r r' ∧ (got.length = n ∨ got.length < n ∧ r'.buffered = [] ∧
        (r'.transport.arrivals.length < r.transport.arrivals.length ∨
          r'.remaining = [] ∧ r'.transport.closed = false))
    | (.error e,r') =>
      e = Error.eof ∧ r.remaining.length < n ∧ Took r.remaining r r' ∧ r'.Ended := by
  fun_induction readMore n r with
  | case1 r => exact ⟨Took.refl r,.inl rfl⟩
  | case2 n r hn r' hfill =>
    have hspec := r.fillBuf_spec
    rw [hfill] at hspec
    obtain ⟨rfl,hended⟩ := hspec
    rw [hended.1]
    exact ⟨rfl,Nat.pos_of_ne_zero hn,Took.refl r',hended⟩
  | case3 n r hn b bs r₁ hfill take _ more r₂ hmore ih =>
    have htook := Took.of_fillBuf hfill take
    rw [hmore] at ih
    obtain ⟨hmoreTook,hend⟩ := ih
    have hlen : ((b :: bs).take take).length = take := by
      rw [length_take,length_cons]
      omega
    refine ⟨htook.trans hmoreTook,?_⟩
    rw [length_append,hlen]
    rcases hend with hall | ⟨hless,hempty,hprogress⟩
    · exact .inl (by omega)
    · exact .inr ⟨by omega,hempty,hprogress.imp_left fun h => h.trans_le htook.arrivals⟩
  | case4 n r hn b bs r₁ hfill take _ e r₂ hmore ih =>
    have htook := Took.of_fillBuf hfill take
    rw [hmore] at ih
    obtain ⟨rfl,hshort,hrest,hended⟩ := ih
    refine ⟨rfl,?_,?_,hended⟩
    · have hremaining := congrArg length htook.remaining
      rw [length_append,length_take,length_cons] at hremaining
      omega
    · rw [htook.remaining]
      exact htook.trans hrest
  | case5 n r hn e r' hfill hkind =>
    have hspec := r.fillBuf_spec
    rw [hfill] at hspec
    exact ⟨hspec.toTook,.inr ⟨Nat.pos_of_ne_zero hn,hspec.empty.2,hspec.idle⟩⟩
  | case6 n r hn e r' hfill hkind =>
    have hspec := r.fillBuf_spec
    rw [hfill] at hspec
    rcases hspec.kind with rfl | ⟨rfl,-⟩
    · exact absurd (.inr rfl) hkind
    · exact absurd (.inl rfl) hkind

/-- What is left of a reader after some reads. -/
structure Uses (r r' : BufReader) : Prop where
  suffix : r'.remaining <:+ r.remaining
  weight : r'.weight ≤ r.weight

theorem Uses.refl (r : BufReader) : Uses r r := ⟨suffix_refl _,le_rfl⟩

theorem Uses.trans {r r' r'' : BufReader} (h : Uses r r') (h' : Uses r' r'') : Uses r r'' :=
  ⟨h'.suffix.trans h.suffix,h'.weight.trans h.weight⟩

theorem Took.weight {got : List UInt8} {r r' : BufReader} (h : Took got r r') :
    got.length+r'.weight ≤ r.weight := by
  have hlen := congrArg length h.remaining
  have harrivals := h.arrivals
  rw [length_append] at hlen
  unfold BufReader.weight
  omega

theorem uses_readMore (r : BufReader) (n : ℕ) : Uses r (r.readMore n).2 := by
  have hspec := r.readMore_spec n
  obtain ⟨got,htook⟩ : ∃ got, Took got r (r.readMore n).2 := by
    generalize r.readMore n = result at hspec ⊢
    obtain ⟨e | got,r'⟩ := result
    · exact ⟨_,hspec.2.2.1⟩
    · exact ⟨got,hspec.1⟩
  have hweight := htook.weight
  exact ⟨⟨got,htook.remaining.symm⟩,by omega⟩

theorem weight_readMore_lt {n : ℕ} (hn : 0 < n) {r : BufReader} (hr : r.remaining ≠ []) :
    (r.readMore n).2.weight < r.weight := by
  have hspec := r.readMore_spec n
  have hpos := length_pos_iff.2 hr
  generalize r.readMore n = result at hspec ⊢
  obtain ⟨e | got,r'⟩ := result
  · have hweight := hspec.2.2.1.weight
    dsimp only
    omega
  obtain ⟨htook,hend⟩ := hspec
  have hweight := htook.weight
  have hlen := congrArg length htook.remaining
  rw [length_append] at hlen
  unfold weight at hweight ⊢
  dsimp only
  rcases hend with hall | ⟨-,-,hless | ⟨hnone,-⟩⟩
  · omega
  · omega
  · rw [hnone,length_nil] at hlen hweight ⊢
    omega

/-- While the peer keeps the stream open, `read_more` does not fail. -/
theorem readMore_open {r : BufReader} (hopen : r.transport.closed = false) (n : ℕ) :
    ∃ got r', r.readMore n = (.ok got,r') ∧ r.remaining = got ++ r'.remaining ∧
      got.length ≤ n ∧ r'.transport.closed = false := by
  have hspec := r.readMore_spec n
  generalize r.readMore n = result at hspec ⊢
  obtain ⟨e | got,r'⟩ := result
  · obtain ⟨-,-,htook,hended⟩ := hspec
    cases hended.2.2.symm.trans (htook.closed.trans hopen)
  · obtain ⟨htook,hend⟩ := hspec
    refine ⟨got,r',rfl,htook.remaining,?_,htook.closed.trans hopen⟩
    rcases hend with hall | ⟨hless,-⟩ <;> omega

end BufReader

end Courierust.Io
