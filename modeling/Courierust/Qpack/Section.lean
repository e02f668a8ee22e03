import Courierust.Qpack.Wire

/-!
# Encoding a field section

What one call of `encode` puts on the wire, in terms of the table it started from. Its
inserts may evict entries while it runs, so the decisions for later fields are taken on
another table. As long as no entry from an index `k` on is evicted, and every field
that refers to an entry refers to one from `k` on, those decisions are the ones the
first table would have given.
-/

namespace Courierust.Qpack

open List
open Http (isUtf8)
open Reader (Reads Script)
open QpackConnection (insertInstruction acknowledged Encoding literalLine validName checkField
  decodeLines)

/-! ### The encoder stream -/

/-- The encoder-stream words that take a table to another one, and what they insert. -/
inductive Feeds : DynamicTable → List DynEntry → List (List UInt8) → DynamicTable → Prop where
  | nil (t : DynamicTable) : Feeds t [] [] t
  | capacity {t : DynamicTable} {xs : List DynEntry} {ws : List (List UInt8)}
      (h : Feeds (DynamicTable.new QPACK_MAX_TABLE_CAPACITY) xs ws t) :
      Feeds (DynamicTable.new 0) xs
        (encodeEncoderInstruction (.setCapacity QPACK_MAX_TABLE_CAPACITY) :: ws) t
  | insert {t t₁ t' : DynamicTable} {xs : List DynEntry} {ws : List (List UInt8)}
      {name value : List UInt8} (hname : isUtf8 name = true) (hvalue : isUtf8 value = true)
      (hsize : DynamicTable.entrySize name value ≤ QPACK_MAX_TABLE_CAPACITY)
      (hinsert : t.insert name value = some t₁) (h : Feeds t₁ xs ws t') :
      Feeds t (⟨name, value⟩ :: xs)
        (encodeEncoderInstruction (insertInstruction t name value) :: ws) t'

variable {name : List UInt8}

namespace Feeds

variable {t t' t'' : DynamicTable} {log xs : List DynEntry} {ws : List (List UInt8)}

theorem snoc {value : List UInt8} (h : Feeds t xs ws t') (hname : isUtf8 name = true)
    (hvalue : isUtf8 value = true)
    (hsize : DynamicTable.entrySize name value ≤ QPACK_MAX_TABLE_CAPACITY)
    (hinsert : t'.insert name value = some t'') :
    Feeds t (xs ++ [⟨name,value⟩])
      (ws ++ [encodeEncoderInstruction (insertInstruction t' name value)]) t'' := by
  induction h with
  | nil t => exact .insert hname hvalue hsize hinsert (.nil _)
  | capacity _ ih => exact .capacity (ih hinsert)
  | insert hn hv hs hi _ ih => exact .insert hn hv hs hi (ih hinsert)

theorem trans {ys : List DynEntry} {us : List (List UInt8)} (h : Feeds t xs ws t')
    (h' : Feeds t' ys us t'') : Feeds t (xs ++ ys) (ws ++ us) t'' := by
  induction h with
  | nil t => exact h'
  | capacity _ ih => exact .capacity (ih h')
  | insert hn hv hs hi _ ih => exact .insert hn hv hs hi (ih h')

theorem eq_nil (h : Feeds t xs [] t') : xs = [] := by
  cases h
  rfl

theorem split {done todo : List (List UInt8)} (h : Feeds t xs (done ++ todo) t') :
    ∃ t₁ xs₁ xs₂, xs = xs₁ ++ xs₂ ∧ Feeds t xs₁ done t₁ ∧ Feeds t₁ xs₂ todo t' := by
  induction done generalizing t xs with
  | nil => exact ⟨t,[],xs,rfl,.nil t,h⟩
  | cons w done ih =>
    cases h with
    | capacity h =>
      obtain ⟨t₁,xs₁,xs₂,rfl,h₁,h₂⟩ := ih h
      exact ⟨t₁,xs₁,xs₂,rfl,.capacity h₁,h₂⟩
    | insert hn hv hs hi h =>
      obtain ⟨t₁,xs₁,xs₂,rfl,h₁,h₂⟩ := ih h
      exact ⟨t₁,_ :: xs₁,xs₂,rfl,.insert hn hv hs hi h₁,h₂⟩

/-- Reading the words extends the log by what they insert, and the window only moves up. -/
theorem tracks (h : Feeds t xs ws t') (ht : Tracks t log) (hroom : log.length+xs.length < 2^64) :
    Tracks t' (log ++ xs) ∧ t.first ≤ t'.first := by
  induction h generalizing log with
  | nil t => exact ⟨by simpa using ht,le_rfl⟩
  | capacity h ih =>
    have hnil : log = [] := eq_nil_of_length_eq_zero ht.count.symm
    subst hnil
    exact ih (Tracks.new _ (by decide)) hroom
  | @insert t t₁ t' xs ws name value _ _ _ hinsert h ih =>
    simp only [length_cons] at hroom
    have hsize : DynamicTable.entrySize name value ≤ t.capacity := by
      by_contra hbig
      simp [DynamicTable.insert,not_le.1 hbig] at hinsert
    obtain ⟨t₂,hinsert',h₁,-,hle,-⟩ := ht.insert hsize (by omega)
    obtain rfl := Option.some.inj (hinsert'.symm.trans hinsert)
    obtain ⟨h₂,hle'⟩ := ih h₁ (by simp only [length_append,length_singleton]; omega)
    exact ⟨by simpa using h₂,hle.trans hle'⟩

theorem script {size : ℕ} (hsize : size ≤ isizeMax) (h : Feeds t xs ws t') (ht : Tracks t log)
    (hroom : log.length+xs.length ≤ u64Max) :
    Script Error.eof (decodeEncoderInstruction size QPACK_MAX_TABLE_CAPACITY) t ws t' := by
  induction h generalizing log with
  | nil t => exact .nil t
  | capacity h ih =>
    have hnil : log = [] := eq_nil_of_length_eq_zero ht.count.symm
    subst hnil
    have hread := reads_setCapacity size (DynamicTable.new 0)
      (by decide : QPACK_MAX_TABLE_CAPACITY ≤ u64Max) le_rfl
    exact .cons (hread.ne_nil rfl) hread (ih (Tracks.new _ (by decide)) hroom)
  | @insert t t₁ t' xs ws name value hn hv hs hinsert h ih =>
    simp only [length_cons] at hroom
    have hlen : size+name.length+value.length ≤ u64Max := by
      unfold DynamicTable.entrySize satAdd QPACK_MAX_TABLE_CAPACITY at hs
      unfold isizeMax at hsize
      unfold u64Max at *
      omega
    have hread := reads_insertInstruction QPACK_MAX_TABLE_CAPACITY ht (by omega) hn hv
      (by omega : size+_ ≤ u64Max) (by omega) hinsert
    have hone := (Feeds.insert hn hv hs hinsert (.nil t₁)).tracks ht (by
      simp only [length_singleton]
      unfold u64Max at hroom
      omega)
    exact .cons (hread.ne_nil rfl) hread
      (ih hone.1 (by simp only [length_append,length_singleton]; omega))

end Feeds

/-! ### What the table before a section says about a field -/

def refersTo (t : DynamicTable) (known : ℕ) (f : Field) : Option ℕ :=
  if isUtf8 f.value ∧ staticIndex f.name f.value = none then
    (acknowledged known t.insertCount (t.find f.name f.value)).or
      (acknowledged known t.insertCount (t.findName f.name))
  else none

/-- A field that `encode` inserts when nothing else is inserted before it. -/
def mayInsert (t : DynamicTable) (known : ℕ) (f : Field) : Bool :=
  isUtf8 f.value && (staticIndex f.name f.value).isNone && (refersTo t known f).isNone &&
    indexable f.name f.value t.capacity

def insertSize (t : DynamicTable) (known : ℕ) (fields : List Field) : ℕ :=
  ((fields.filter (mayInsert t known)).map fun f => DynamicTable.entrySize f.name f.value).sum

variable {w : List UInt8} {absolute : ℕ}

/-- Inserts do not change what an acknowledged search finds, unless they evict it or
    insert a match. -/
theorem acknowledged_search {t₀ t : DynamicTable} {log xs : List DynEntry} (known : ℕ)
    (p : DynEntry → Bool) (h₀ : Tracks t₀ log) (h : Tracks t (log ++ xs)) (hle : t₀.first ≤ t.first)
    (hkeep : ∀ a, acknowledged known log.length
      ((DynamicTable.rposition p t₀.entries).map (t₀.first + ·)) = some a → t.first ≤ a)
    (hown : (∃ x ∈ xs, p x = true) → acknowledged known log.length
      ((DynamicTable.rposition p t₀.entries).map (t₀.first + ·)) = none) :
    acknowledged known log.length ((DynamicTable.rposition p t.entries).map (t.first + ·)) =
      acknowledged known log.length ((DynamicTable.rposition p t₀.entries).map (t₀.first + ·)) := by
  obtain ⟨hfound₀,hnewest₀⟩ := h₀.search p
  obtain ⟨hfound,hnewest⟩ := h.search p
  generalize (DynamicTable.rposition p t₀.entries).map (t₀.first + ·) = s₀ at *
  generalize (DynamicTable.rposition p t.entries).map (t.first + ·) = s at *
  -- An answer below the Base is an entry of the first table, and then its newest match.
  have hold : ∀ a, s = some a → a < log.length → s₀ = some a := by
    intro a ha hlt
    obtain ⟨hfirst,e,he,hp⟩ := hfound a ha
    rw [getElem?_append_left hlt] at he
    obtain ⟨b,hb,hab⟩ := hnewest₀ a e (hle.trans hfirst) he hp
    obtain ⟨-,e',he',hp'⟩ := hfound₀ b hb
    obtain ⟨hblt,-⟩ := List.getElem?_eq_some_iff.1 he'
    obtain ⟨c,hc,hbc⟩ := hnewest b e' (hfirst.trans hab)
      (by rw [getElem?_append_left hblt]; exact he') hp'
    obtain rfl := Option.some.inj (hc.symm.trans ha)
    rw [hb,show b = c by omega]
  cases hack : acknowledged known log.length s₀ with
  | none =>
    cases hs : acknowledged known log.length s with
    | none => rfl
    | some a =>
      obtain ⟨ha,hlt⟩ := Option.filter_eq_some_iff.1 hs
      simp only [decide_eq_true_eq] at hlt
      rw [hold a ha hlt.2] at hack
      simp [acknowledged,Option.filter,hlt.1,hlt.2] at hack
  | some a =>
    obtain ⟨ha,hlt⟩ := Option.filter_eq_some_iff.1 hack
    simp only [decide_eq_true_eq] at hlt
    obtain ⟨-,e,he,hp⟩ := hfound₀ a ha
    obtain ⟨b,hb,hab⟩ := hnewest a e (hkeep a hack)
      (by rw [getElem?_append_left hlt.2]; exact he) hp
    -- A newer match would be an insert of the section's own.
    have hblt : b < log.length := by
      by_contra hge
      obtain ⟨-,e',he',hp'⟩ := hfound b hb
      rw [getElem?_append_right (not_lt.1 hge)] at he'
      rw [hown ⟨e',mem_of_getElem? he',hp'⟩] at hack
      cases hack
    have hsame := hold b hb hblt
    rw [ha,Option.some_inj] at hsame
    subst hsame
    simp [acknowledged,Option.filter,hb,hlt.1,hlt.2]

/-! ### Lines -/

def Field.line (f : Field) : FieldLine := ⟨f.name, f.value, false⟩

/-- `w` is a line for `f`: every table that has the entries `refs` of the log reads it so. -/
def LineFor (log : List DynEntry) (base : ℕ) (refs : List ℕ) (w : List UInt8) (f : Field) : Prop :=
  ∀ t : DynamicTable, (∀ r ∈ refs, t.get r = log[r]?) →
    ∀ size ≤ u64Max, ∀ rest, decodeFieldLine size t base (w ++ rest) = .ok (f.line, rest)

theorem LineFor.mono {log : List DynEntry} {base : ℕ} {refs : List ℕ} {f : Field}
    (h : LineFor log base refs w f) (hrefs : ∀ r ∈ refs, r < log.length) (xs : List DynEntry)
    (more : List ℕ) :
    LineFor (log ++ xs) base (refs ++ more) w f := by
  intro t ht size hsize rest
  refine h t (fun r hr => ?_) size hsize rest
  rw [ht r (mem_append_left _ hr),getElem?_append_left (hrefs r hr)]

def fieldsSize (fields : List Field) : ℕ :=
  (fields.map fun f => f.name.length + f.value.length).sum

theorem decodeLines_of_forall₂ {t : DynamicTable} {size base maxHeaderList : ℕ}
    {ws : List (List UInt8)} {fields : List Field}
    (h : List.Forall₂ (fun w f => ∀ rest, decodeFieldLine size t base (w ++ rest) =
      .ok (f.line,rest)) ws fields) (hmax : maxHeaderList ≤ u64Max) (fuel total : ℕ) (acc : List FieldLine)
    (hfuel : ws.flatten.length ≤ fuel) (htotal : total+fieldsSize fields ≤ maxHeaderList)
    (hcount : acc.length+fields.length ≤ 256) :
    decodeLines size t base maxHeaderList fuel ws.flatten total acc =
      .ok (acc ++ fields.map Field.line) := by
  induction h generalizing fuel total acc with
  | nil => cases fuel <;> simp [decodeLines]
  | @cons w f ws fields hw _ ih =>
    have hne : w ≠ [] := by
      rintro rfl
      have := hw []
      simp [decodeFieldLine] at this
    obtain ⟨b,w,rfl⟩ := exists_cons_of_ne_nil hne
    simp only [flatten_cons,length_append,length_cons] at hfuel
    simp only [fieldsSize,map_cons,sum_cons,length_cons] at htotal hcount
    obtain ⟨fuel,rfl⟩ : ∃ n, fuel = n+1 := ⟨fuel-1,by omega⟩
    have hread := hw ws.flatten
    simp only [cons_append] at hread
    have hrest := ih fuel (total+f.name.length+f.value.length) (acc ++ [f.line]) (by omega)
      (by unfold fieldsSize; omega) (by simp only [length_append,length_singleton]; omega)
    simp only [flatten_cons,cons_append,decodeLines,hread,bind,Except.bind,Field.line,
      checkedAdd]
    rw [if_pos (by omega),Option.bind_some,if_pos (by omega)]
    simp only [length_append,length_singleton]
    rw [if_neg (by omega),if_neg (by omega)]
    simpa [Field.line] using hrest

/-! ### A section in the making -/

section Decisions

variable {t : DynamicTable} {known : ℕ} {f : Field}

theorem mayInsert_iff : mayInsert t known f = true ↔
    isUtf8 f.value = true ∧ staticIndex f.name f.value = none ∧
      acknowledged known t.insertCount (t.find f.name f.value) = none ∧
      acknowledged known t.insertCount (t.findName f.name) = none ∧
      indexable f.name f.value t.capacity = true := by
  simp only [mayInsert,refersTo,Bool.and_eq_true,Option.isNone_iff_eq_none]
  constructor
  · rintro ⟨⟨⟨hutf8,hstatic⟩,href⟩,hindexable⟩
    rw [if_pos ⟨hutf8,hstatic⟩,Option.or_eq_none_iff] at href
    exact ⟨hutf8,hstatic,href.1,href.2,hindexable⟩
  · rintro ⟨hutf8,hstatic,hexact,hname,hindexable⟩
    rw [if_pos ⟨hutf8,hstatic⟩,hexact,hname]
    exact ⟨⟨⟨hutf8,hstatic⟩,rfl⟩,hindexable⟩

end Decisions

/-- A section whose first fields `done` are encoded, from the table `t₀` that tracks
    `log`: what it has inserted, what its lines refer to, and that nothing from `k` on
    has been evicted. -/
structure Encoded (t₀ : DynamicTable) (log : List DynEntry) (known k : ℕ) (out : List UInt8)
    (e : Encoding) (done : List Field) (xs : List DynEntry) : Prop where
  tracks : Tracks e.encoder (log ++ xs)
  capacity : e.encoder.capacity = t₀.capacity
  first_le : e.encoder.first ≤ k
  le_first : t₀.first ≤ e.encoder.first
  fed : ∃ ws, e.encoderOut = out ++ ws.flatten ∧ Feeds t₀ xs ws e.encoder
  own : ∀ x ∈ xs, mayInsert t₀ known ⟨x.name, x.value⟩ = true
  refs : ∀ r ∈ e.refs, k ≤ r ∧ r < (log ++ xs).length
  required_gt : ∀ r ∈ e.refs, r < e.required
  required_mem : 0 < e.required → e.required - 1 ∈ e.refs
  lines : ∃ ws, e.body = ws.flatten ∧
    List.Forall₂ (LineFor (log ++ xs) log.length e.refs) ws done

namespace Encoded

variable {t₀ : DynamicTable} {log xs : List DynEntry} {known k : ℕ} {out : List UInt8}
  {e : Encoding} {done : List Field} {f : Field}

section

variable (h : Encoded t₀ log known k out e done xs)
include h

theorem plain (hw : LineFor (log ++ xs) log.length e.refs w f) :
    Encoded t₀ log known k out { e with body := e.body ++ w } (done ++ [f]) xs := by
  obtain ⟨ws,hbody,hlines⟩ := h.lines
  exact { h with
    lines := ⟨ws ++ [w],by simp [hbody],rel_append hlines (.cons hw .nil)⟩ }

theorem refer (hk : k ≤ absolute) (hlt : absolute < (log ++ xs).length)
    (hw : LineFor (log ++ xs) log.length [absolute] w f) :
    Encoded t₀ log known k out (e.line w absolute) (done ++ [f]) xs := by
  obtain ⟨ws,hbody,hlines⟩ := h.lines
  refine { h with
    refs := ?_, required_gt := ?_, required_mem := ?_
    lines := ⟨ws ++ [w],by simp [Encoding.line,hbody],?_⟩ }
  · intro r hr
    rcases mem_append.1 hr with hr | hr
    · exact h.refs r hr
    · rw [mem_singleton.1 hr]
      exact ⟨hk,hlt⟩
  · intro r hr
    simp only [Encoding.line]
    rcases mem_append.1 hr with hr | hr
    · have := h.required_gt r hr
      omega
    · rw [mem_singleton.1 hr]
      omega
  · intro hpos
    simp only [Encoding.line] at hpos ⊢
    rcases le_total e.required (absolute+1) with hle | hle
    · rw [max_eq_right hle]
      exact mem_append_right _ (by simp)
    · rw [max_eq_left hle]
      exact mem_append_left _ (h.required_mem (by omega))
  · refine rel_append (hlines.imp fun w f hline => ?_) (.cons ?_ .nil)
    · simpa [Encoding.line] using hline.mono (fun r hr => (h.refs r hr).2) [] [absolute]
    · intro t ht
      exact hw t fun r hr => ht r (mem_append_right _ hr)

theorem insert (hname : isUtf8 f.name = true)
    (hvalue : isUtf8 f.value = true) (hcapacity : t₀.capacity ≤ QPACK_MAX_TABLE_CAPACITY)
    (hmay : mayInsert t₀ known f = true)
    (hroom : (log ++ xs).length+1 < 2^64)
    (hfit : logSize ((log ++ xs).drop k)+DynamicTable.entrySize f.name f.value ≤ t₀.capacity) :
    ∃ t, e.encoder.insert f.name f.value = some t ∧
      Encoded t₀ log known k out
        { e with
          encoderOut := e.encoderOut ++
            encodeEncoderInstruction (insertInstruction e.encoder f.name f.value)
          encoder := t } done (xs ++ [⟨f.name,f.value⟩]) := by
  have hcap := h.capacity
  obtain ⟨t,hinsert,htracks,htcap,hle,hkeep⟩ :=
    h.tracks.insert (by omega : DynamicTable.entrySize f.name f.value ≤ e.encoder.capacity) hroom
  obtain ⟨ws,hout,hfeeds⟩ := h.fed
  obtain ⟨us,hbody,hlines⟩ := h.lines
  rw [append_assoc] at htracks
  refine ⟨t,hinsert,htracks,htcap.trans hcap,hkeep k h.first_le (by omega),h.le_first.trans hle,
    ⟨_,?_,hfeeds.snoc hname hvalue (by omega) hinsert⟩,?_,?_,h.required_gt,
    h.required_mem,⟨us,hbody,hlines.imp fun w g hline => ?_⟩⟩
  · simp [hout]
  · intro x hx
    rcases mem_append.1 hx with hx | hx
    · exact h.own x hx
    · rw [mem_singleton.1 hx]
      exact hmay
  · intro r hr
    have := h.refs r hr
    simp only [length_append,length_singleton] at this ⊢
    omega
  · simpa using hline.mono (fun r hr => (h.refs r hr).2) [⟨f.name,f.value⟩] []

end

theorem searches (h₀ : Tracks t₀ log) (h : Encoded t₀ log known k out e done xs)
    (hutf8 : isUtf8 f.value = true) (hstatic : staticIndex f.name f.value = none)
    (href : ∀ r, refersTo t₀ known f = some r → k ≤ r) :
    acknowledged known log.length (e.encoder.find f.name f.value) =
        acknowledged known log.length (t₀.find f.name f.value) ∧
      (acknowledged known log.length (t₀.find f.name f.value) = none →
        acknowledged known log.length (e.encoder.findName f.name) =
          acknowledged known log.length (t₀.findName f.name)) := by
  have hfirst := h.first_le
  simp only [refersTo,hutf8,hstatic,and_self,if_true,h₀.count] at href
  constructor
  · refine acknowledged_search known _ h₀ h.tracks h.le_first (fun a ha => ?_) ?_
    · exact hfirst.trans (href a (by rw [DynamicTable.find,ha]; rfl))
    rintro ⟨x,hx,hp⟩
    simp only [Bool.and_eq_true,beq_iff_eq] at hp
    have hmay := h.own x hx
    rw [mayInsert_iff,h₀.count,hp.1,hp.2] at hmay
    exact hmay.2.2.1
  · intro hnone
    refine acknowledged_search known _ h₀ h.tracks h.le_first (fun a ha => ?_) ?_
    · exact hfirst.trans (href a (by rw [hnone,DynamicTable.findName,ha]; rfl))
    · rintro ⟨x,hx,hp⟩
      have hmay := h.own x hx
      rw [mayInsert_iff,h₀.count,beq_iff_eq.1 hp] at hmay
      exact hmay.2.2.2.1

theorem entry_of_acknowledged (h₀ : Tracks t₀ log) {p : DynEntry → Bool}
    (h : acknowledged known log.length
      ((DynamicTable.rposition p t₀.entries).map (t₀.first + ·)) = some absolute) :
    absolute < log.length ∧ ∃ x, log[absolute]? = some x ∧ p x = true := by
  obtain ⟨hfound,hlt⟩ := Option.filter_eq_some_iff.1 h
  simp only [decide_eq_true_eq] at hlt
  exact ⟨hlt.2,((h₀.search p).1 absolute hfound).2⟩

/-- One field. A line that refers to an entry refers to one from `k` on, and an insert is
    referred to by its own line. -/
theorem encodeField (h₀ : Tracks t₀ log) (h : Encoded t₀ log known k out e done xs)
    (hk : k ≤ log.length) (hcapacity : t₀.capacity ≤ QPACK_MAX_TABLE_CAPACITY)
    (hname : isUtf8 f.name = true) (hnamelen : f.name.length ≤ u64Max)
    (hvaluelen : f.value.length ≤ u64Max) (href : ∀ r, refersTo t₀ known f = some r → k ≤ r)
    (hroom : (log ++ xs).length < u64Max)
    (hfit : mayInsert t₀ known f = true →
      logSize ((log ++ xs).drop k)+DynamicTable.entrySize f.name f.value ≤ t₀.capacity)
    (hpinned : ∀ i, log.length ≤ i → i < (log ++ xs).length → i ∈ e.refs) :
    ∃ ys, Encoded t₀ log known k out (QpackConnection.encodeField known log.length e f) (done ++ [f])
        (xs ++ ys) ∧
      (∀ i, log.length ≤ i → i < (log ++ (xs ++ ys)).length →
        i ∈ (QpackConnection.encodeField known log.length e f).refs) ∧
      (ys = [] ∨ mayInsert t₀ known f = true ∧ ys = [⟨f.name,f.value⟩]) := by
  have hlen : log.length ≤ (log ++ xs).length := by simp
  -- Every case but the insert leaves the log as it is.
  have hsame : ∀ e', Encoded t₀ log known k out e' (done ++ [f]) xs →
      (∀ r ∈ e.refs, r ∈ e'.refs) → ∃ ys, Encoded t₀ log known k out e' (done ++ [f]) (xs ++ ys) ∧
        (∀ i, log.length ≤ i → i < (log ++ (xs ++ ys)).length → i ∈ e'.refs) ∧
        (ys = [] ∨ mayInsert t₀ known f = true ∧ ys = [⟨f.name,f.value⟩]) := by
    intro e' he' hsub
    refine ⟨[],by simpa using he',fun i hi hlt => hsub i (hpinned i hi ?_),.inl rfl⟩
    simpa using hlt
  have hliteral := h.plain
    fun t _ size hsize rest => decodeFieldLine_literal hsize hname hnamelen hvaluelen rest
  unfold QpackConnection.encodeField
  simp only
  split
  · exact hsame _ hliteral fun r hr => hr
  · next hutf8 =>
    have hutf8 : isUtf8 f.value = true := by simpa using hutf8
    split
    · next index hindex =>
      obtain ⟨hentry,hlt⟩ := static_of_staticIndex hindex
      exact hsame _ (h.plain fun t _ _ _ rest =>
        decodeFieldLine_static hentry (by unfold u64Max; omega) rest) fun r hr => hr
    · next hstatic =>
      obtain ⟨hexact,hbyname⟩ := h.searches h₀ hutf8 hstatic href
      simp only [refersTo,hutf8,hstatic,and_self,if_true,h₀.count] at href
      rw [hexact]
      split
      · next absolute hack =>
        obtain ⟨hlt,x,hx,hp⟩ := entry_of_acknowledged h₀ hack
        simp only [Bool.and_eq_true,beq_iff_eq] at hp
        refine hsame _ (h.refer (href absolute (by rw [hack]; rfl)) (by omega) ?_)
          fun r hr => mem_append_left _ hr
        intro t ht size _ rest
        refine decodeFieldLine_relative hlt (by omega) ?_ rest
        rw [ht absolute (by simp),getElem?_append_left hlt,hx,← hp.1,← hp.2]
      · next hnone =>
        rw [hbyname hnone]
        split
        · next absolute hack =>
          obtain ⟨hlt,x,hx,hp⟩ := entry_of_acknowledged h₀ hack
          refine hsame _ (h.refer (href absolute (by rw [hnone,hack]; rfl)) (by omega) ?_)
            fun r hr => mem_append_left _ hr
          intro t ht size hsize rest
          have hget : t.get absolute = some x := by
            rw [ht absolute (by simp),getElem?_append_left hlt,hx]
          rw [decodeFieldLine_relativeName hlt (by omega) hget hsize hvaluelen,beq_iff_eq.1 hp]
          rfl
        · next hnoname =>
          split
          · next hindexable =>
            rw [h.capacity] at hindexable
            have hmay : mayInsert t₀ known f = true := by
              rw [mayInsert_iff,h₀.count]
              exact ⟨hutf8,hstatic,hnone,hnoname,hindexable⟩
            obtain ⟨t,hinsert,hnew⟩ := h.insert hname hutf8 hcapacity hmay
              (by unfold u64Max at hroom; omega) (hfit hmay)
            have hcount : t.insertCount-1 = (log ++ xs).length := by
              rw [hnew.tracks.count]
              simp only [length_append,length_singleton]
              omega
            have hlast : (log ++ (xs ++ [(⟨f.name,f.value⟩ : DynEntry)])).length =
                (log ++ xs).length+1 := by
              simp only [length_append,length_singleton]
              omega
            simp only [hinsert,hcount]
            refine ⟨[⟨f.name,f.value⟩],hnew.refer (by omega) (by omega) ?_,?_,
              .inr ⟨hmay,rfl⟩⟩
            · intro t' ht size _ rest
              refine decodeFieldLine_postBase (by omega) (by omega) ?_ rest
              rw [ht _ (by simp),← append_assoc,getElem?_append_right le_rfl]
              simp
            · intro i hi hlt
              simp only [Encoding.line]
              rcases Nat.lt_or_ge i (log ++ xs).length with hold | hnew
              · exact mem_append_left _ (hpinned i hi hold)
              · exact mem_append_right _ (by
                  rw [mem_singleton]
                  omega)
          · exact hsame _ hliteral fun r hr => hr

end Encoded

/-! ### The whole section -/

theorem isUtf8_of_validName (h : validName name = true) :
    isUtf8 name = true := by
  refine Http.isUtf8_of_ascii fun x hx => ?_
  simp only [validName,Bool.and_eq_true,all_eq_true] at h
  have hoctet := h.2 x hx
  simp only [Http.isAsciiLowercase,Http.isAsciiDigit,Bool.or_eq_true,Bool.and_eq_true,
    beq_iff_eq,decide_eq_true_eq,← UInt8.toNat_inj,UInt8.le_iff_toNat_le] at hoctet
  rw [UInt8.lt_iff_toNat_lt]
  simp at hoctet ⊢
  omega

theorem checkField_ok {maxHeaderList total total' : ℕ} {f : Field}
    (h : checkField maxHeaderList total f = .ok total') :
    total' = total+f.name.length+f.value.length ∧ total' ≤ maxHeaderList ∧
      isUtf8 f.name = true := by
  unfold checkField checkedAdd at h
  by_cases h₁ : total+f.name.length ≤ u64Max
  · rw [if_pos h₁,Option.bind_some] at h
    by_cases h₂ : total+f.name.length+f.value.length ≤ u64Max
    · rw [if_pos h₂] at h
      simp only at h
      split_ifs at h with hbad hvalue
      cases h
      simp only [not_or,not_lt,Bool.not_eq_true',Bool.not_eq_false] at hbad
      exact ⟨rfl,hbad.1,isUtf8_of_validName hbad.2⟩
    · rw [if_neg h₂] at h
      cases h
  · rw [if_neg h₁] at h
    cases h

theorem insertSize_cons (t : DynamicTable) (known : ℕ) (f : Field) (fields : List Field) :
    insertSize t known (f :: fields) =
      (if mayInsert t known f then DynamicTable.entrySize f.name f.value else 0) +
        insertSize t known fields := by
  unfold insertSize
  rw [filter_cons]
  split_ifs <;> simp

namespace Encoded

variable {t₀ : DynamicTable} {log : List DynEntry} {known k maxHeaderList : ℕ} {out : List UInt8}

theorem encodeFields (h₀ : Tracks t₀ log) (hk : k ≤ log.length)
    (hcapacity : t₀.capacity ≤ QPACK_MAX_TABLE_CAPACITY) (hmax : maxHeaderList ≤ u64Max)
    (fields : List Field) {e : Encoding} {done : List Field} {xs : List DynEntry}
    (h : Encoded t₀ log known k out e done xs)
    (href : ∀ f ∈ fields, ∀ r, refersTo t₀ known f = some r → k ≤ r)
    (hroom : (log ++ xs).length+fields.length ≤ u64Max)
    (hfit : logSize ((log ++ xs).drop k)+insertSize t₀ known fields ≤ t₀.capacity)
    (hpinned : ∀ i, log.length ≤ i → i < (log ++ xs).length → i ∈ e.refs)
    (htotal : e.total ≤ maxHeaderList)
    (hok : (QpackConnection.encodeFields known log.length maxHeaderList e fields).1 = .ok ()) :
    ∃ ys, Encoded t₀ log known k out
        (QpackConnection.encodeFields known log.length maxHeaderList e fields).2 (done ++ fields)
        (xs ++ ys) ∧
      (∀ i, log.length ≤ i → i < (log ++ (xs ++ ys)).length →
        i ∈ (QpackConnection.encodeFields known log.length maxHeaderList e fields).2.refs) ∧
      ys.length ≤ fields.length ∧ e.total+fieldsSize fields ≤ maxHeaderList := by
  induction fields generalizing e done xs with
  | nil =>
    refine ⟨[],?_,?_,le_rfl,?_⟩
    · simpa [QpackConnection.encodeFields] using h
    · simpa [QpackConnection.encodeFields] using hpinned
    · simpa [fieldsSize] using htotal
  | cons f fields ih =>
    unfold QpackConnection.encodeFields at hok ⊢
    cases hcheck : checkField maxHeaderList e.total f with
    | error err => rw [hcheck] at hok; cases hok
    | ok total =>
      rw [hcheck] at hok
      simp only at hok ⊢
      obtain ⟨rfl,hle,hname⟩ := checkField_ok hcheck
      simp only [length_cons] at hroom
      rw [insertSize_cons] at hfit
      have hsized : Encoded t₀ log known k out
          { e with total := e.total+f.name.length+f.value.length } done xs := { h with }
      obtain ⟨ys,hfield,hpinned',hys⟩ := hsized.encodeField h₀ hk hcapacity hname (by omega) (by omega)
        (href f (by simp)) (by omega) (fun hmay => by rw [if_pos hmay] at hfit; omega) hpinned
      have htot : ∀ e : Encoding, (QpackConnection.encodeField known log.length e f).total = e.total := by
        intro e
        unfold QpackConnection.encodeField Encoding.line
        simp only
        repeat' split
        all_goals rfl
      have hlen : (log ++ (xs ++ ys)).length+fields.length ≤ u64Max ∧
          logSize ((log ++ (xs ++ ys)).drop k)+insertSize t₀ known fields ≤ t₀.capacity ∧
          ys.length ≤ 1 := by
        rcases hys with rfl | ⟨hmay,rfl⟩
        · simp only [append_nil,length_nil]
          exact ⟨by omega,by omega,by omega⟩
        rw [if_pos hmay] at hfit
        rw [← append_assoc,drop_append_of_le_length (by simp; omega),logSize_append]
        simp only [length_append,length_singleton,logSize_cons,logSize_nil,
          DynEntry.size] at hroom ⊢
        exact ⟨by omega,by omega,le_rfl⟩
      obtain ⟨zs,hdone,hpinned'',hzs,hsum⟩ := ih hfield (fun g hg => href g (by simp [hg]))
        hlen.1 hlen.2.1 hpinned' (by rw [htot]; exact hle) hok
      refine ⟨ys ++ zs,by simpa using hdone,by simpa using hpinned'',?_,?_⟩
      · simp only [length_append,length_cons]
        omega
      · rw [htot] at hsum
        simp only [fieldsSize,map_cons,sum_cons] at hsum ⊢
        omega

end Encoded

end Courierust.Qpack
