import Courierust.Error
import Courierust.Lib.BigEndian
import Courierust.Lib.Faults

/-!
# Elements of DER

`read_element` takes a tag, a length in one of two forms and the content. All of its additions
and slices are checked here as the machine checks them, so that a hostile length shows.
-/

namespace Courierust.Tls

open List
open Faults BigEndian

structure Element where
  tag : UInt8
  content : List UInt8
  deriving DecidableEq

def readOctets (der : List UInt8) : ℕ → ℕ → ℕ → Except Fault (ℕ × ℕ)
  | 0, len, pos => .ok (len, pos)
  | n + 1, len, pos => do
    let octet ← index der pos
    let pos ← add pos 1
    readOctets der n (len * 256 + octet.toNat) pos

/-- The length behind a long-form octet for `n` octets. -/
def readLength (der : List UInt8) (n pos : ℕ) : Except Fault (Option ℕ × ℕ) :=
  if n = 0 ∨ 8 < n then .ok (none, pos)
  else do
    let stop ← add pos n
    if der.length < stop then .ok (none, pos)
    else do
      let (len, pos) ← readOctets der n 0 pos
      .ok (some len, pos)

def readContent (der : List UInt8) (tag : UInt8) (len pos : ℕ) :
    Except Fault (Option Element × ℕ) := do
  let stop ← add pos len
  if der.length < stop then .ok (none, pos)
  else do
    let content ← slice der pos stop
    .ok (some ⟨tag, content⟩, stop)

def readTagged (der : List UInt8) (tag : UInt8) (pos : ℕ) : Except Fault (Option Element × ℕ) :=
  if der.length ≤ pos then .ok (none, pos)
  else do
    let lenByte ← index der pos
    let pos ← add pos 1
    if lenByte &&& 0x80 = 0 then readContent der tag lenByte.toNat pos
    else do
      let (len, pos) ← readLength der (lenByte &&& 0x7f).toNat pos
      match len with
      | some len => readContent der tag len pos
      | none => .ok (none, pos)

def readElement (der : List UInt8) (pos : ℕ) : Except Fault (Option Element × ℕ) :=
  if der.length ≤ pos then .ok (none, pos)
  else do
    let tag ← index der pos
    let pos ← add pos 1
    readTagged der tag pos

def expectSequence (der : List UInt8) (pos : ℕ) : Except Fault (Option (List UInt8) × ℕ) := do
  let (e, pos) ← readElement der pos
  .ok (e.bind fun e => if e.tag ≠ 0x30 then none else some e.content, pos)

/-! ### Progress -/

variable {der : List UInt8} {pos n : ℕ}

variable {r : Option Element × ℕ} {tag : UInt8} {len : ℕ}

theorem add_eq_ok {a b : ℕ} (h : add a b = .ok n) : n = a+b := by
  rw [add] at h
  split_ifs at h
  exact (Except.ok.inj h).symm

theorem le_readOctets {r : ℕ × ℕ} (h : readOctets der n len pos = .ok r) : pos ≤ r.2 := by
  induction n generalizing len pos with
  | zero => exact (congrArg Prod.snd (Except.ok.inj h)).le
  | succ n ih =>
    obtain ⟨octet,-,h⟩ := Except.bind_eq_ok.1 h
    obtain ⟨next,hadd,h⟩ := Except.bind_eq_ok.1 h
    exact (Nat.le_of_lt (by rw [add_eq_ok hadd]; omega)).trans (ih h)

theorem le_readLength {r : Option ℕ × ℕ} (h : readLength der n pos = .ok r) : pos ≤ r.2 := by
  rw [readLength] at h
  split_ifs at h
  · exact (congrArg Prod.snd (Except.ok.inj h)).le
  obtain ⟨stop,-,h⟩ := Except.bind_eq_ok.1 h
  split_ifs at h
  · exact (congrArg Prod.snd (Except.ok.inj h)).le
  · obtain ⟨p,hoctets,h⟩ := Except.bind_eq_ok.1 h
    exact (le_readOctets hoctets).trans (congrArg Prod.snd (Except.ok.inj h)).le

theorem readContent_eq (der : List UInt8) (tag : UInt8) (len pos : ℕ) :
    readContent der tag len pos =
      if pos+len < 2^64 then
        if pos+len ≤ der.length then
          .ok (some ⟨tag,(der.drop pos).take len⟩,pos+len)
        else .ok (none,pos)
      else .error .overflow := by
  rw [readContent,add]
  split_ifs with hword hend
  · change (if der.length < pos+len then _ else _) = _
    rw [if_neg (by omega),slice,if_pos ⟨by omega,hend⟩,Nat.add_sub_cancel_left]
    rfl
  · change (if der.length < pos+len then _ else _) = _
    rw [if_pos (by omega)]
  · rfl

theorem le_readContent
    (h : readContent der tag len pos = .ok r) : pos ≤ r.2 ∧ (r.1.isSome → r.2 ≤ der.length) := by
  rw [readContent_eq] at h
  split_ifs at h with _ hend
  · cases h
    exact ⟨Nat.le_add_right _ _,fun _ => hend⟩
  · cases h
    exact ⟨le_rfl,fun h => by cases h⟩

theorem le_readTagged (h : readTagged der tag pos = .ok r) :
    pos ≤ r.2 ∧ (r.1.isSome → r.2 ≤ der.length) := by
  rw [readTagged] at h
  split_ifs at h
  · cases h
    exact ⟨le_rfl,fun h => by cases h⟩
  obtain ⟨lenByte,-,h⟩ := Except.bind_eq_ok.1 h
  obtain ⟨next,hadd,h⟩ := Except.bind_eq_ok.1 h
  have hnext := add_eq_ok hadd
  split_ifs at h
  · obtain ⟨hle,hend⟩ := le_readContent h
    exact ⟨by omega,hend⟩
  obtain ⟨⟨len,start⟩,hlength,h⟩ := Except.bind_eq_ok.1 h
  have hstart := le_readLength hlength
  cases len with
  | none =>
    cases h
    exact ⟨by dsimp only at hstart ⊢; omega,fun h => by cases h⟩
  | some len =>
    obtain ⟨hle,hend⟩ := le_readContent h
    exact ⟨by dsimp only at hstart hle; omega,hend⟩

/-- Every call that is made inside the input moves on, and an element ends inside the input. -/
theorem lt_readElement {pos' : ℕ} {e : Option Element} (h : readElement der pos = .ok (e,pos')) :
    (pos < der.length → pos < pos') ∧ (e.isSome → pos < pos' ∧ pos' ≤ der.length) := by
  rw [readElement] at h
  split_ifs at h with hend
  · cases h
    exact ⟨fun hlt => absurd hlt hend.not_gt,fun h => by cases h⟩
  obtain ⟨tag,-,h⟩ := Except.bind_eq_ok.1 h
  obtain ⟨next,hadd,h⟩ := Except.bind_eq_ok.1 h
  have hnext := add_eq_ok hadd
  obtain ⟨hle,hinside⟩ := le_readTagged h
  exact ⟨fun _ => by dsimp only at hle; omega,
    fun hsome => ⟨by dsimp only at hle; omega,hinside hsome⟩⟩

/-! ### What is announced -/

def statedLength : List UInt8 → Option (ℕ × ℕ)
  | [] => none
  | lenByte :: rest =>
    if lenByte &&& 0x80 = 0 then some (1, lenByte.toNat)
    else
      let n := (lenByte &&& 0x7f).toNat
      if n = 0 ∨ 8 < n ∨ rest.length < n then none else some (1 + n, beNat (rest.take n))

def announced (der : List UInt8) (pos : ℕ) : Option (ℕ × ℕ) :=
  (statedLength (der.drop (pos + 1))).map fun p => (pos + 1 + p.1, p.2)

def Fits (der : List UInt8) (pos : ℕ) : Prop :=
  ∀ start len, announced der pos = some (start, len) → start + len < 2 ^ 64

theorem readOctets_eq (hlen : der.length < 2^63) (n acc pos : ℕ) (h : pos+n ≤ der.length) :
    readOctets der n acc pos =
      .ok (((der.drop pos).take n).foldl (fun n b => n*256+b.toNat) acc,pos+n) := by
  induction n generalizing acc pos with
  | zero => rfl
  | succ n ih =>
    have hpos : pos < der.length := by omega
    rw [readOctets,index,getElem?_eq_getElem hpos,add,if_pos (by omega)]
    change readOctets der n _ (pos+1) = _
    rw [ih _ _ (by omega),drop_eq_getElem_cons hpos,take_succ_cons,foldl_cons]
    congr 2
    omega

theorem readLength_eq (hlen : der.length < 2^63) (hpos : pos ≤ der.length) :
    readLength der n pos =
      if n = 0 ∨ 8 < n ∨ (der.drop pos).length < n then .ok (none,pos)
      else .ok (some (beNat ((der.drop pos).take n)),pos+n) := by
  rw [readLength,length_drop]
  by_cases hform : n = 0 ∨ 8 < n
  · rw [if_pos hform,if_pos (by omega)]
  rw [if_neg hform,add,if_pos (by omega)]
  change (if der.length < pos+n then _ else _) = _
  by_cases hend : der.length < pos+n
  · rw [if_pos hend,if_pos (by omega)]
  · rw [if_neg hend,if_neg (by omega),readOctets_eq hlen n 0 pos (by omega)]
    rfl

theorem readTagged_cases (hlen : der.length < 2^63) (tag : UInt8) (pos : ℕ) :
    (statedLength (der.drop pos) = none ∧
      ∃ pos', pos ≤ pos' ∧ readTagged der tag pos = .ok (none,pos')) ∨
    ∃ width len, statedLength (der.drop pos) = some (width,len) ∧ pos+width ≤ der.length ∧
      readTagged der tag pos = readContent der tag len (pos+width) := by
  by_cases hend : der.length ≤ pos
  · refine .inl ⟨?_,pos,le_rfl,if_pos hend⟩
    rw [drop_of_length_le hend]
    rfl
  have hlt : pos < der.length := by omega
  have hread : readTagged der tag pos = if der[pos] &&& 0x80 = 0 then
      readContent der tag der[pos].toNat (pos+1)
      else readLength der (der[pos] &&& 0x7f).toNat (pos+1) >>= fun r =>
        match r.1 with
        | some len => readContent der tag len r.2
        | none => .ok (none,r.2) := by
    rw [readTagged,if_neg hend,index,getElem?_eq_getElem hlt,add,if_pos (by omega)]
    rfl
  rw [hread,drop_eq_getElem_cons hlt,statedLength]
  by_cases hshort : der[pos] &&& 0x80 = 0
  · rw [if_pos hshort,if_pos hshort]
    exact .inr ⟨1,_,rfl,hlt,rfl⟩
  rw [if_neg hshort,if_neg hshort,readLength_eq hlen (show pos+1 ≤ der.length from hlt)]
  split_ifs with hform
  · rw [if_pos hform]
    exact .inl ⟨rfl,pos+1,Nat.le_succ pos,rfl⟩
  rw [if_neg hform]
  refine .inr ⟨_,_,rfl,?_,?_⟩
  · rw [length_drop] at hform
    omega
  · rw [← Nat.add_assoc]
    rfl

/-- An element is read by what is announced: nothing, or a content that is taken if it is there.
Whatever happens, the position moves on. -/
theorem readElement_cases (hlen : der.length < 2^63) (pos : ℕ) :
    (announced der pos = none ∧
      ∃ pos', (pos < der.length → pos < pos') ∧ readElement der pos = .ok (none,pos')) ∨
    ∃ tag start len, announced der pos = some (start,len) ∧ pos < start ∧ start ≤ der.length ∧
      readElement der pos = readContent der tag len start := by
  by_cases hpos : der.length ≤ pos
  · refine .inl ⟨?_,pos,fun h => absurd h hpos.not_gt,if_pos hpos⟩
    rw [announced,drop_of_length_le (by omega)]
    rfl
  have hlt : pos < der.length := by omega
  have hread : readElement der pos = readTagged der der[pos] (pos+1) := by
    rw [readElement,if_neg hpos,index,getElem?_eq_getElem hlt,add,if_pos (by omega)]
    rfl
  rw [hread,announced]
  rcases readTagged_cases hlen der[pos] (pos+1) with
    ⟨hstated,pos',hle,hnone⟩ | ⟨width,len,hstated,hend,hsome⟩
  · exact .inl ⟨by rw [hstated]; rfl,pos',fun _ => hle,hnone⟩
  · exact .inr ⟨der[pos],pos+1+width,len,by rw [hstated]; rfl,by omega,hend,hsome⟩

/-! ### Octets without huge lengths -/

/-- Octets that fit into memory, in which no length reaches past a machine word. -/
structure Tame (der : List UInt8) : Prop where
  length : der.length < 2 ^ 63
  fits : ∀ pos, Fits der pos

theorem statedLength_append {octets : List UInt8} {p : ℕ × ℕ} (h : statedLength octets = some p)
    (more : List UInt8) : statedLength (octets ++ more) = some p := by
  cases octets with
  | nil => cases h
  | cons lenByte rest =>
    rw [cons_append,statedLength]
    rw [statedLength] at h
    split_ifs at h ⊢ with hshort
    · exact h
    · dsimp only at h ⊢
      split_ifs at h with hform
      rw [if_neg (by rw [length_append]; omega),take_append_of_le_length (by omega)]
      exact h

theorem Tame.part {front part back : List UInt8} (h : Tame (front ++ (part ++ back))) :
    Tame part := by
  refine ⟨?_,?_⟩
  · have := h.length
    simp only [length_append] at this
    omega
  · intro pos start len hannounced
    rw [announced,Option.map_eq_some_iff] at hannounced
    obtain ⟨⟨width,len'⟩,hstated,hp⟩ := hannounced
    cases hp
    have hinside : pos+1 ≤ part.length := by
      by_contra hpast
      rw [drop_of_length_le (by omega)] at hstated
      cases hstated
    have hwhole : announced (front ++ (part ++ back)) (front.length+pos) =
        some (front.length+pos+1+width,len') := by
      rw [announced,Nat.add_assoc front.length pos 1,drop_length_add_append,
        drop_append_of_le_length hinside,statedLength_append hstated]
      rfl
    have := h.fits _ _ _ hwhole
    omega

theorem Tame.slice (h : Tame der) (start len : ℕ) : Tame ((der.drop start).take len) := by
  have hsplit : der = der.take start ++ ((der.drop start).take len ++ (der.drop start).drop len) := by
    rw [take_append_drop,take_append_drop]
  rw [hsplit] at h
  exact h.part

theorem returns_readElement (h : Tame der) (pos : ℕ) :
    Returns (readElement der pos) fun r => (pos < der.length → pos < r.2) ∧
      ∀ e, r.1 = some e → Tame e.content ∧ pos < r.2 ∧ r.2 ≤ der.length := by
  rcases readElement_cases h.length pos with
    ⟨-,pos',hle,hnone⟩ | ⟨tag,start,len,hannounced,hlt,hstart,hsome⟩
  · exact ⟨_,hnone,hle,fun e he => by cases he⟩
  rw [hsome,readContent_eq,if_pos (h.fits pos start len hannounced)]
  split_ifs with hend
  · refine ⟨_,rfl,fun _ => by dsimp only; omega,?_⟩
    rintro _ ⟨⟩
    exact ⟨h.slice start len,by dsimp only; omega,hend⟩
  · exact ⟨_,rfl,fun _ => hlt,fun e he => by cases he⟩

theorem returns_expectSequence (h : Tame der) (pos : ℕ) :
    Returns (expectSequence der pos) fun r => ∀ content, r.1 = some content →
      Tame content ∧ pos < r.2 ∧ r.2 ≤ der.length := by
  refine (returns_readElement h pos).bind ?_
  rintro ⟨e,pos'⟩ ⟨-,hsome⟩
  refine Returns.pure ?_
  intro content hcontent
  rw [Option.bind_eq_some_iff] at hcontent
  obtain ⟨element,rfl,htag⟩ := hcontent
  split_ifs at htag
  cases htag
  exact hsome element rfl

end Courierust.Tls
