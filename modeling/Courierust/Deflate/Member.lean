import Courierust.Deflate.Cut
import Courierust.Deflate.Gzip

/-!
# Members of a gzip file

`gunzip` finds the blocks from the front of its input and the trailer from the end, and does not
compare the two places: octets between them are accepted.
-/

namespace Courierust.Deflate

open List
open BigEndian

/-! ### The header -/

def Then (P Q : List UInt8 → Prop) (l : List UInt8) : Prop := ∃ a b, P a ∧ Q b ∧ l = a ++ b

def Flagged (flag : Prop) (P : List UInt8 → Prop) (l : List UInt8) : Prop :=
  flag ∧ P l ∨ ¬ flag ∧ l = []

/-- The octets up to the first zero. -/
def Cstring : List UInt8 → Prop
  | [] => False
  | b :: rest => if b = 0 then rest = [] else Cstring rest

/-- A length and as many octets. -/
def Extra (l : List UInt8) : Prop :=
  2 ≤ l.length ∧ l.length = 2 + ((l.getD 0 0).toNat + 256 * (l.getD 1 0).toNat)

/-- The fields that the flags announce. -/
def Fields (flg : UInt8) : List UInt8 → Prop :=
  Then (Flagged (flg &&& 0x04 ≠ 0) Extra) <| Then (Flagged (flg &&& 0x08 ≠ 0) Cstring) <|
    Then (Flagged (flg &&& 0x10 ≠ 0) Cstring) <| Flagged (flg &&& 0x02 ≠ 0) (·.length = 2)

/-- `skip` goes over what `P` describes. -/
def Skips (skip : List UInt8 → ℕ → Except Error ℕ) (P : List UInt8 → Prop) : Prop :=
  ∀ data pos pos', skip data pos = .ok pos' ↔
    ∃ l, P l ∧ l <+: data.drop pos ∧ pos' = pos + l.length

variable {skip skip' : List UInt8 → ℕ → Except Error ℕ} {P Q : List UInt8 → Prop}
  {data : List UInt8} {pos : ℕ}

theorem Skips.bind (hP : Skips skip P) (hQ : Skips skip' Q) :
    Skips (fun data pos => skip data pos >>= skip' data) (Then P Q) := by
  have hdrop : ∀ {a data : List UInt8} {pos : ℕ} (b : List UInt8), a <+: data.drop pos →
      (b <+: data.drop (pos+a.length) ↔ a ++ b <+: data.drop pos) := by
    rintro a data pos b ⟨t,ht⟩
    rw [← drop_drop,← ht,drop_left,prefix_append_right_inj]
  intro data pos pos'
  rw [Except.bind_eq_ok]
  constructor
  · rintro ⟨mid,hskip,hskip'⟩
    obtain ⟨a,ha,hpre,rfl⟩ := (hP ..).1 hskip
    obtain ⟨b,hb,hpre',rfl⟩ := (hQ ..).1 hskip'
    exact ⟨a ++ b,⟨a,b,ha,hb,rfl⟩,(hdrop b hpre).1 hpre',by simp [Nat.add_assoc]⟩
  · rintro ⟨_,⟨a,b,ha,hb,rfl⟩,hpre,rfl⟩
    have hfirst := (prefix_append a b).trans hpre
    exact ⟨_,(hP ..).2 ⟨a,ha,hfirst,rfl⟩,
      (hQ ..).2 ⟨b,hb,(hdrop b hfirst).2 hpre,by simp [Nat.add_assoc]⟩⟩

theorem Skips.flagged (h : Skips skip P) (flag : Prop) [Decidable flag] :
    Skips (fun data pos => if flag then skip data pos else pure pos) (Flagged flag P) := by
  intro data pos pos'
  by_cases hflag : flag
  · simp [hflag,h data pos pos',Flagged]
  · simp [hflag,Flagged,pure,Except.pure,eq_comm]

/-- An optional field and what follows it, as `do` writes them. -/
theorem Skips.optional (hP : Skips skip P) (hQ : Skips skip' Q) (flag : Prop) [Decidable flag] :
    Skips (fun data pos => if flag then skip data pos >>= skip' data else pure pos >>= skip' data)
      (Then (Flagged flag P) Q) := by
  intro data pos pos'
  rw [← (hP.flagged flag).bind hQ data pos pos']
  dsimp only
  split_ifs <;> rfl

theorem skips_cstring (what : String) : Skips (skipCstring · · what) Cstring := by
  intro data pos pos'
  change skipCstring data pos what = _ ↔ _
  have hcons : ∀ (pos : ℕ) (b : UInt8) (t : List UInt8),
      (∃ l, Cstring l ∧ l <+: b :: t ∧ pos' = pos+l.length) ↔
        ∃ l, (if b = 0 then l = [] else Cstring l) ∧ l <+: t ∧ pos' = pos+1+l.length := by
    intro pos b t
    constructor
    · rintro ⟨_ | ⟨c,l⟩,hl,hpre,rfl⟩
      · cases hl
      · obtain ⟨rfl,hrest⟩ := cons_prefix_cons.1 hpre
        exact ⟨l,hl,hrest,by rw [length_cons]; omega⟩
    · rintro ⟨l,hl,hpre,rfl⟩
      exact ⟨b :: l,hl,cons_prefix_cons.2 ⟨rfl,hpre⟩,by rw [length_cons]; omega⟩
  fun_induction skipCstring data pos what with
  | case1 pos hlt hzero =>
    rw [getD_eq_getElem _ _ hlt] at hzero
    rw [drop_eq_getElem_cons hlt,hcons,hzero]
    simp [eq_comm]
  | case2 pos hlt hne ih =>
    rw [getD_eq_getElem _ _ hlt] at hne
    rw [drop_eq_getElem_cons hlt,hcons]
    simp only [if_neg hne]
    exact ih
  | case3 pos hge => simp [drop_of_length_le (not_lt.1 hge),Cstring]

theorem skips_octets {n : ℕ} (hn : 0 < n) (e : Error) (data : List UInt8) (pos pos' : ℕ) :
    (if data.length < pos+n then .error e else .ok (pos+n)) = Except.ok pos' ↔
      ∃ l, l.length = n ∧ l <+: data.drop pos ∧ pos' = pos+l.length := by
  constructor
  · intro h
    split_ifs at h with hall
    cases h
    have hlen : ((data.drop pos).take n).length = n := by
      rw [length_take,length_drop]
      omega
    exact ⟨_,hlen, take_prefix n _,by rw [hlen]⟩
  · rintro ⟨l,rfl,hpre,rfl⟩
    have hle := hpre.length_le
    rw [length_drop] at hle
    rw [if_neg (by omega)]

theorem skips_extra : Skips skipExtra Extra := by
  intro data pos pos'
  have hget : ∀ {l : List UInt8} {i : ℕ}, l <+: data.drop pos → i < l.length →
      l.getD i 0 = data.getD (pos+i) 0 := by
    rintro l i ⟨t,ht⟩ hi
    rw [getD_eq_getElem?_getD,getD_eq_getElem?_getD,← getElem?_drop,← ht,
      getElem?_append_left hi]
  have hsame : skipExtra data pos = if data.length < pos+(2+((data.getD pos 0).toNat +
      256*(data.getD (pos+1) 0).toNat)) then
        .error (Error.protocol "gzip: truncated extra field")
      else .ok (pos+(2+((data.getD pos 0).toNat+256*(data.getD (pos+1) 0).toNat))) := by
    rw [skipExtra]
    dsimp only
    split_ifs <;> first | rfl | omega
  rw [hsame,skips_octets (by omega)]
  refine exists_congr fun l => and_congr_left fun ⟨hpre,_⟩ => ?_
  constructor
  · intro hlen
    refine ⟨by omega,?_⟩
    rw [hlen,hget hpre (by omega),hget hpre (by omega)]
    rfl
  · rintro ⟨htwo,hlen⟩
    rwa [hget hpre (by omega),hget hpre (by omega)] at hlen

theorem streamStart_iff (data : List UInt8) (flg : UInt8) (pos : ℕ) :
    streamStart data flg = .ok pos ↔
      ∃ fields, Fields flg fields ∧ fields <+: data.drop 10 ∧ pos = 10+fields.length := by
  have hcrc : Skips (fun data pos => if data.length < pos+2 then
      .error (Error.protocol "gzip: truncated header crc") else pure (pos+2)) (·.length = 2) :=
    skips_octets Nat.two_pos _
  have hcomment := (skips_cstring "comment").optional (hcrc.flagged (flg &&& 0x02 ≠ 0))
    (flg &&& 0x10 ≠ 0)
  have hname := (skips_cstring "file name").optional hcomment (flg &&& 0x08 ≠ 0)
  exact skips_extra.optional hname (flg &&& 0x04 ≠ 0) data 10 pos

theorem Fields.start {flg : UInt8} {fields rest : List UInt8} (h : Fields flg fields)
    (hdata : data.drop 10 = fields ++ rest) : streamStart data flg = .ok (10+fields.length) :=
  (streamStart_iff ..).mpr ⟨fields,h,hdata ▸ prefix_append ..,rfl⟩

/-! ### The whole member -/

theorem leBytes32_leNat32 (h : pos+4 ≤ data.length) :
    leBytes32 (leNat32 data pos) = (data.drop pos).take 4 := by
  have hlen : ((data.drop pos).take 4).reverse.length = 4 := by
    rw [length_reverse,length_take,length_drop]
    omega
  have hlt := beNat_lt ((data.drop pos).take 4).reverse
  have hbytes := beBytes_beNat ((data.drop pos).take 4).reverse
  rw [hlen] at hlt hbytes
  rw [leBytes32,leNat32,Nat.mod_eq_of_lt (by omega),hbytes,reverse_reverse]

/-- The header, blocks up to a final one, which leaves `rest` of their octets, and the trailer for
what they decode to. -/
structure Member (data : List UInt8) (maxOut : ℕ) (out : List UInt8) (rest : BitReader) : Prop where
  magic : data.getD 0 0 = 0x1f ∧ data.getD 1 0 = 0x8b ∧ data.getD 2 0 = 8
  reserved : data.getD 3 0 &&& 0xe0 = 0
  layout : ∃ fields body, Fields (data.getD 3 0) fields ∧
    Blocks [] maxOut maxDistance ⟨body, 0, 0, false⟩ [] (.final rest) out ∧
    data.drop 10 = fields ++ (body ++ (leBytes32 (crc32 out).toNat ++ leBytes32 out.length))

variable {maxOut : ℕ} {out : List UInt8}

theorem inflate_iff (body : List UInt8) : inflate body maxOut = .ok out ↔
    ∃ rest, Blocks [] maxOut maxDistance ⟨body,0,0,false⟩ [] (.final rest) out := by
  have hok : inflate body maxOut = .ok out ↔
      inflateBlocks (copyFrom [] maxOut maxDistance) maxOut false ⟨body,0,0,false⟩ [] = (.ok (),out) := by
    rw [inflate]
    split
    · next heq => simp [heq]
    · next heq => simp [heq]
  rw [hok]
  constructor
  · intro h
    obtain ⟨ending,hblocks,hfinal⟩ := blocks_of_inflateBlocks h
    obtain ⟨rest,rfl⟩ := hfinal rfl
    exact ⟨rest,hblocks⟩
  · rintro ⟨rest,h⟩
    exact h.inflateBlocks_eq (.inr ⟨rest,rfl⟩)

theorem openStream_ok (h : openStream data pos maxOut = .ok out) :
    ∃ body, inflate body maxOut = .ok out ∧
      data.drop pos = body ++ (leBytes32 (crc32 out).toNat ++ leBytes32 out.length) := by
  rw [openStream] at h
  dsimp only at h
  split_ifs at h with hshort hend
  obtain ⟨out',hbody,h⟩ := Except.bind_eq_ok.1 h
  split_ifs at h with hsize hcrc
  cases h
  have hmod : leBytes32 out.length = leBytes32 (out.length%2^32) := by
    rw [leBytes32,leBytes32,Nat.mod_mod]
  refine ⟨_,hbody,?_⟩
  rw [hmod,not_not.1 hsize,not_not.1 hcrc,leBytes32_leNat32 (by omega),
    leBytes32_leNat32 (by omega)]
  have htail : (data.drop (data.length-8+4)).take 4 = data.drop (data.length-8+4) :=
    take_of_length_le (by rw [length_drop]; omega)
  have hend : (data.drop pos).drop (data.length-8-pos) = data.drop (data.length-8) := by
    rw [drop_drop,Nat.add_sub_cancel' (by omega)]
  rw [htail,← drop_drop,take_append_drop,← hend,take_append_drop]

theorem member_of_gunzip (h : gunzip data maxOut = .ok out) : ∃ rest, Member data maxOut out rest := by
  rw [gunzip] at h
  split_ifs at h with hmagic hmethod hflags
  obtain ⟨pos,hstart,hopen⟩ := Except.bind_eq_ok.1 h
  obtain ⟨fields,hfields,⟨tail,htail⟩,rfl⟩ := (streamStart_iff ..).1 hstart
  obtain ⟨body,hbody,hdata⟩ := openStream_ok hopen
  obtain ⟨rest,hblocks⟩ := (inflate_iff body).1 hbody
  simp only [not_or,not_not,not_lt] at hmagic hmethod hflags
  rw [← drop_drop,← htail,drop_left] at hdata
  refine ⟨rest,⟨hmagic.2.1,hmagic.2.2,hmethod⟩,hflags,fields,body,hfields,hblocks,?_⟩
  rw [← htail,hdata]

namespace Member

variable {rest : BitReader} (h : Member data maxOut out rest)
include h

theorem gunzip_eq : gunzip data maxOut = .ok out := by
  obtain ⟨fields,body,hfields,hblocks,hdata⟩ := h.layout
  have hlen := congrArg length hdata
  simp only [length_drop,length_append,length_leBytes32] at hlen
  have htake : (data.take 10 ++ fields).length = 10+fields.length := by
    rw [length_append,length_take]
    omega
  have hopen := openStream_trailer (data.take 10 ++ fields) ((inflate_iff body).2 ⟨rest,hblocks⟩)
  simp only [append_assoc,← hdata,take_append_drop,htake] at hopen
  rw [gunzip,if_neg,if_neg (not_not.2 h.magic.2.2),if_neg (not_not.2 h.reserved),
    hfields.start hdata]
  · exact hopen
  · rintro (hshort | hmagic | hmagic)
    · omega
    · exact hmagic h.magic.1
    · exact hmagic h.magic.2.1

theorem unique {out' : List UInt8} {rest' : BitReader} (h' : Member data maxOut out' rest') :
    rest = rest' := by
  obtain rfl : out = out' := Except.ok.inj (h.gunzip_eq.symm.trans h'.gunzip_eq)
  obtain ⟨fields,body,hfields,hblocks,hdata⟩ := h.layout
  obtain ⟨fields',body',hfields',hblocks',hdata'⟩ := h'.layout
  have hlen := Except.ok.inj ((hfields.start hdata).symm.trans (hfields'.start hdata'))
  obtain ⟨-,hrest⟩ := append_inj (hdata.symm.trans hdata') (Nat.add_left_cancel hlen)
  rw [append_cancel_right hrest] at hblocks
  exact Ending.final.inj (hblocks.unique hblocks')

end Member

/-- Only whole members are accepted, exactly if none has an octet between its blocks and its
trailer. -/
theorem gunzip_whole_iff (data : List UInt8) (maxOut : ℕ) :
    (∀ out, gunzip data maxOut = .ok out → ∃ rest, Member data maxOut out rest ∧ rest.size < 8) ↔
      ¬ ∃ out rest, Member data maxOut out rest ∧ 8 ≤ rest.size := by
  constructor
  · rintro hall ⟨out,rest,h,hsize⟩
    obtain ⟨rest',h',hsize'⟩ := hall out h.gunzip_eq
    rw [h'.unique h] at hsize'
    omega
  · intro hnone out hout
    obtain ⟨rest,h⟩ := member_of_gunzip hout
    exact ⟨rest,h,not_le.1 fun hsize => hnone ⟨out,rest,h,hsize⟩⟩

/-- An empty stored block, an octet, and the trailer for no octets. -/
def gapped : List UInt8 :=
  [0x1f, 0x8b, 8, 0, 0, 0, 0, 0, 0, 0xff, 1, 0, 0, 0xff, 0xff, 7, 0, 0, 0, 0, 0, 0, 0, 0]

theorem gunzip_accepts_gap : gunzip gapped 0 = .ok [] ∧
    ¬ ∃ rest, Member gapped 0 [] rest ∧ rest.size < 8 := by
  have h : Member gapped 0 [] ⟨[7],0,0,false⟩ :=
    ⟨by decide,by decide,[],[1,0,0,0xff,0xff,7],by simp [gapped,Fields,Then,Flagged],
      .final rfl rfl (by decide),by decide⟩
  refine ⟨h.gunzip_eq,?_⟩
  rintro ⟨rest,h',hsize⟩
  rw [h'.unique h] at hsize
  exact absurd hsize (by decide)

end Courierust.Deflate
