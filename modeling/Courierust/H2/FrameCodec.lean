import Courierust.H2.Frame

/-!
# The frame codec

What `Frame::parse` makes of padded frames, and of the octets that `Frame::encode` writes.
-/

namespace Courierust.H2

open List

/-- `decode_header`, of nine octets. -/
def decodeHeader (b : List UInt8) : FrameHeader where
  len := beU32 (0 :: b.take 3)
  kind := b.getD 3 0
  flags := b.getD 4 0
  streamId := beU31 (b.drop 5)

/-! ### Padding -/

def fixedLen (h : FrameHeader) : ℕ :=
  if h.kind = 0x1 then if has h.flags 0x20 then 5 else 0 else if h.kind = 0x5 then 4 else 0

def PadFits (h : FrameHeader) (payload : List UInt8) : Prop :=
  ∃ pad rest, payload = pad :: rest ∧ fixedLen h + pad.toNat ≤ rest.length

def Frame.body : Frame → Option (List UInt8)
  | data _ octets _ _ => some octets
  | headers _ block _ _ _ => some block
  | pushPromise _ _ block _ => some block
  | _ => none

/-- A padded frame is accepted if its padding fits, and its body is what stands between the fixed
fields and the padding. -/
structure Unpadded (h : FrameHeader) (payload : List UInt8) (max : ℕ) : Prop where
  accepts : (∃ f, Frame.parse h payload max = .ok f) ↔ PadFits h payload
  body : ∀ f pad rest, Frame.parse h payload max = .ok f → payload = pad :: rest →
    f.body = some ((rest.drop (fixedLen h)).take (rest.length - fixedLen h - pad.toNat))

abbrev Admissible (h : FrameHeader) (max : ℕ) : Prop := h.streamId ≠ 0 ∧ h.len ≤ max

abbrev PushTest (h : FrameHeader) (pad : UInt8) (rest : List UInt8) : Prop :=
  if h.kind = 0x5 then 4 ≤ rest.length ∧ pad.toNat ≤ 5 else fixedLen h + pad.toNat ≤ rest.length

namespace Frame

variable {h : FrameHeader} {payload : List UInt8} {max : ℕ}

theorem parse_of_admissible (hlen : h.len = payload.length) (hle : h.len ≤ max) :
    parse h payload max = parsePayload h payload := by
  rw [parse,if_neg (not_not.2 hlen),if_neg (not_lt.2 hle)]

def Tested (r : Except Error Frame) (test : Prop) (octets : List UInt8) : Prop :=
  (test → ∃ f, r = .ok f ∧ f.body = some octets) ∧ (¬ test → ∃ e, r = .error e)

theorem Tested.of_ite {p test : Prop} [Decidable p] {e : Error} {f : Frame} {octets : List UInt8}
    (h : p ↔ ¬ test) (hbody : f.body = some octets) :
    Tested (if p then .error e else .ok f) test octets := by
  constructor
  · intro htest
    rw [if_neg fun hp => h.1 hp htest]
    exact ⟨f,rfl,hbody⟩
  · intro htest
    rw [if_pos (h.2 htest)]
    exact ⟨e,rfl⟩

theorem tested_data (hid : h.streamId ≠ 0) (hpadded : has h.flags 0x8 = true) (pad : UInt8)
    (rest : List UInt8) :
    Tested (parseData h (pad :: rest)) (pad.toNat ≤ rest.length)
      (rest.take (rest.length-pad.toNat)) := by
  rw [parseData,if_neg hid,stripPadding,hpadded]
  simp only [Bool.not_true,Bool.false_eq_true,if_false]
  rw [apply_ite (Except.map _)]
  refine .of_ite ?_ rfl
  rw [length_cons]
  omega

theorem tested_headers (hkind : h.kind = 0x1) (hid : h.streamId ≠ 0)
    (hpadded : has h.flags 0x8 = true) (pad : UInt8) (rest : List UInt8) :
    Tested (parseHeaders h (pad :: rest)) (fixedLen h+pad.toNat ≤ rest.length)
      ((rest.drop (fixedLen h)).take (rest.length-fixedLen h-pad.toNat)) := by
  rw [parseHeaders,if_neg hid,padLength,hpadded,fixedLen,if_pos hkind]
  simp only [Bool.not_true,Bool.false_eq_true,if_false]
  by_cases hprio : has h.flags 0x20 = true
  · simp only [hprio,true_and,if_true]
    by_cases hshort : rest.length < 5
    · rw [if_pos hshort]
      exact ⟨fun hfit => by omega,fun _ => ⟨_,rfl⟩⟩
    · rw [if_neg hshort,length_drop]
      exact .of_ite (by omega) rfl
  · simp only [hprio,false_and,if_false,Bool.false_eq_true]
    exact .of_ite (by omega) rfl

/-- PUSH_PROMISE compares the padding and what is behind the promised stream with the whole
payload, which is five octets longer. -/
theorem tested_pushPromise (hid : h.streamId ≠ 0) (hpadded : has h.flags 0x8 = true)
    (pad : UInt8) (rest : List UInt8) :
    Tested (parsePushPromise h (pad :: rest)) (4 ≤ rest.length ∧ pad.toNat ≤ 5)
      ((rest.drop 4).take (rest.length-4-pad.toNat)) := by
  rw [parsePushPromise,if_neg hid,padLength,hpadded]
  simp only [Bool.not_true,Bool.false_eq_true,if_false]
  by_cases hshort : rest.length < 4
  · rw [if_pos hshort]
    exact ⟨fun hfit => by omega,fun _ => ⟨_,rfl⟩⟩
  · rw [if_neg hshort,length_drop,length_cons]
    exact .of_ite (by omega) rfl

theorem tested_parse (max : ℕ) (hkind : h.kind = 0x0 ∨ h.kind = 0x1 ∨ h.kind = 0x5)
    (hpadded : has h.flags 0x8 = true) {pad : UInt8} {rest : List UInt8}
    (hlen : h.len = (pad :: rest).length) :
    Tested (parse h (pad :: rest) max) (Admissible h max ∧ PushTest h pad rest)
      ((rest.drop (fixedLen h)).take (rest.length-fixedLen h-pad.toNat)) := by
  by_cases hmax : h.len ≤ max
  case neg =>
    rw [parse,if_neg (not_not.2 hlen),if_pos (not_le.1 hmax)]
    exact ⟨fun htest => absurd htest.1.2 hmax,fun _ => ⟨_,rfl⟩⟩
  rw [parse_of_admissible hlen hmax]
  by_cases hid : h.streamId = 0
  case pos =>
    refine ⟨fun htest => absurd hid htest.1.1,fun _ => ?_⟩
    rcases hkind with hkind | hkind | hkind
    · simp [parsePayload,parseData,hkind,hid]
    · simp [parsePayload,parseHeaders,hkind,hid]
    · simp [parsePayload,parsePushPromise,hkind,hid]
  have hadm : Admissible h max ∧ PushTest h pad rest ↔ PushTest h pad rest :=
    and_iff_right ⟨hid,hmax⟩
  rw [hadm]
  rcases hkind with hkind | hkind | hkind
  · simpa [parsePayload,PushTest,fixedLen,hkind] using tested_data hid hpadded pad rest
  · simpa [parsePayload,PushTest,hkind] using tested_headers hkind hid hpadded pad rest
  · simpa [parsePayload,PushTest,fixedLen,hkind] using tested_pushPromise hid hpadded pad rest

theorem parse_padded_nil (hkind : h.kind = 0x0 ∨ h.kind = 0x1 ∨ h.kind = 0x5)
    (hpadded : has h.flags 0x8 = true) (f : Frame) : parse h [] max ≠ .ok f := by
  intro hok
  have hparsed := (parse_ok hok).2
  rcases hkind with hkind | hkind | hkind
  · by_cases hid : h.streamId = 0 <;>
      simp [parsePayload,parseData,stripPadding,hkind,hid,hpadded,Except.map] at hparsed
  · by_cases hid : h.streamId = 0 <;>
      simp [parsePayload,parseHeaders,padLength,hkind,hid,hpadded] at hparsed
  · by_cases hid : h.streamId = 0 <;>
      simp [parsePayload,parsePushPromise,padLength,hkind,hid,hpadded] at hparsed

end Frame

/-- Padding is removed exactly from every frame that has a stream and is not too long, but for
PUSH_PROMISE: there a Pad Length of more than five is rejected, and one of at most five is accepted
whether the padding is there or not. -/
theorem padding_removed_iff (h : FrameHeader) (payload : List UInt8) (max : ℕ)
    (hkind : h.kind = 0x0 ∨ h.kind = 0x1 ∨ h.kind = 0x5) (hpadded : has h.flags 0x8 = true)
    (hlen : h.len = payload.length) :
    Unpadded h payload max ↔
      (PadFits h payload → Admissible h max) ∧
        (h.kind = 0x5 → Admissible h max → ∀ pad rest, payload = pad :: rest → 4 ≤ rest.length →
          (pad.toNat ≤ 5 ↔ 4 + pad.toNat ≤ rest.length)) := by
  cases payload with
  | nil =>
    have hfits : ¬ PadFits h [] := by rintro ⟨pad,rest,hcons,-⟩; cases hcons
    refine iff_of_true ⟨iff_of_false ?_ hfits,?_⟩ ⟨fun hf => absurd hf hfits,?_⟩
    · rintro ⟨f,hok⟩
      exact Frame.parse_padded_nil hkind hpadded f hok
    · intro f pad rest _ hcons
      cases hcons
    · intro _ _ pad rest hcons
      cases hcons
  | cons pad rest =>
    have hparse := Frame.tested_parse max hkind hpadded hlen
    have hfits : PadFits h (pad :: rest) ↔ fixedLen h+pad.toNat ≤ rest.length := by
      constructor
      · rintro ⟨pad',rest',hcons,hle⟩
        obtain ⟨rfl,rfl⟩ := List.cons.inj hcons
        exact hle
      · intro hle
        exact ⟨pad,rest,rfl,hle⟩
    have haccept : (∃ f, Frame.parse h (pad :: rest) max = .ok f) ↔
        Admissible h max ∧ PushTest h pad rest := by
      constructor
      · rintro ⟨f,hf⟩
        by_contra htest
        obtain ⟨e,he⟩ := hparse.2 htest
        rw [he] at hf
        cases hf
      · intro htest
        obtain ⟨f,hf,-⟩ := hparse.1 htest
        exact ⟨f,hf⟩
    have hbody : ∀ f pad' rest', Frame.parse h (pad :: rest) max = .ok f →
        pad :: rest = pad' :: rest' →
        f.body = some ((rest'.drop (fixedLen h)).take
          (rest'.length-fixedLen h-pad'.toNat)) := by
      intro f pad' rest' hf hcons
      obtain ⟨rfl,rfl⟩ := List.cons.inj hcons
      obtain ⟨g,hg,hgbody⟩ := hparse.1 (haccept.1 ⟨f,hf⟩)
      rw [hf] at hg
      rwa [← Except.ok.inj hg] at hgbody
    have hcond : Unpadded h (pad :: rest) max ↔
        (Admissible h max ∧ PushTest h pad rest ↔ fixedLen h+pad.toNat ≤ rest.length) := by
      rw [← haccept,← hfits]
      exact ⟨fun hu => hu.accepts,fun ha => ⟨ha,hbody⟩⟩
    rw [hcond,hfits]
    by_cases hpush : h.kind = 0x5
    · have hfixed : fixedLen h = 4 := by simp [fixedLen,hpush]
      rw [PushTest,if_pos hpush,hfixed]
      constructor
      · intro hiff
        refine ⟨fun hle => (hiff.2 hle).1,fun _ hadm pad' rest' hcons hfour => ?_⟩
        obtain ⟨rfl,rfl⟩ := List.cons.inj hcons
        exact ⟨fun hle => hiff.1 ⟨hadm,hfour,hle⟩,fun hle => (hiff.2 hle).2.2⟩
      · rintro ⟨hadm,htest⟩
        constructor
        · rintro ⟨ha,hfour,hle⟩
          exact (htest hpush ha pad rest rfl hfour).1 hle
        · intro hle
          have ha := hadm hle
          exact ⟨ha,by omega,(htest hpush ha pad rest rfl (by omega)).2 hle⟩
    · rw [PushTest,if_neg hpush]
      constructor
      · intro hiff
        exact ⟨fun hle => (hiff.2 hle).1,fun hkind' => absurd hkind' hpush⟩
      · rintro ⟨hadm,-⟩
        exact ⟨fun hle => hle.2,fun hle => ⟨hadm hle,hle⟩⟩

/-- A DATA frame with one octet of data and two of padding. -/
theorem padding_removed_data :
    (PadFits ⟨4, 0x0, 0x8, 1⟩ [2, 7, 0, 0] → Admissible ⟨4, 0x0, 0x8, 1⟩ 16384) ∧
      Unpadded ⟨4, 0x0, 0x8, 1⟩ [2, 7, 0, 0] 16384 := by
  have hadm : Admissible ⟨4,0x0,0x8,1⟩ 16384 := ⟨by decide,by decide⟩
  refine ⟨fun _ => hadm,?_⟩
  exact (padding_removed_iff ⟨4,0x0,0x8,1⟩ [2,7,0,0] 16384 (by decide) (by decide) rfl).2
    ⟨fun _ => hadm,fun hpush => absurd hpush (by decide)⟩

/-- Six octets of padding are rejected though they are there; one is accepted though it is not. -/
theorem push_promise_padding :
    Frame.parse ⟨11, 0x5, 0xc, 1⟩ [6, 0, 0, 0, 2, 0, 0, 0, 0, 0, 0] 16384 =
        .error (h2Error .frameSizeError "PUSH_PROMISE padding overrun") ∧
      PadFits ⟨11, 0x5, 0xc, 1⟩ [6, 0, 0, 0, 2, 0, 0, 0, 0, 0, 0] ∧
      Frame.parse ⟨5, 0x5, 0xc, 1⟩ [1, 0, 0, 0, 2] 16384 = .ok (.pushPromise 1 2 [] true) ∧
      ¬ PadFits ⟨5, 0x5, 0xc, 1⟩ [1, 0, 0, 0, 2] := by
  refine ⟨by decide,⟨6,[0,0,0,2,0,0,0,0,0,0],rfl,by decide⟩,by decide,?_⟩
  rintro ⟨pad,rest,hcons,hle⟩
  obtain ⟨rfl,rfl⟩ := List.cons.inj hcons
  exact absurd hle (by decide)

/-! ### Round trip -/

def Frame.WireFormed : Frame → Prop
  | data id _ _ padding => id ≠ 0 ∧ id < 2 ^ 31 ∧ padding = 0
  | headers id _ _ _ legacy =>
    id ≠ 0 ∧ id < 2 ^ 31 ∧ ∀ p ∈ legacy, p.dependency < 2 ^ 31 ∧ p.weight < 256
  | priority id legacy => id ≠ 0 ∧ id < 2 ^ 31 ∧ legacy.dependency < 2 ^ 31 ∧ legacy.weight < 256
  | rstStream id _ => id ≠ 0 ∧ id < 2 ^ 31
  | settings ack entries =>
    (ack → entries = []) ∧ ∀ s ∈ entries, s.id < 2 ^ 16 ∧ s.value < 2 ^ 32
  | pushPromise id promised _ _ => id ≠ 0 ∧ id < 2 ^ 31 ∧ promised < 2 ^ 31
  | ping _ octets => octets.length = 8
  | goAway last _ _ => last < 2 ^ 31
  | windowUpdate id increment => id < 2 ^ 31 ∧ increment ≠ 0 ∧ increment < 2 ^ 31
  | continuation id _ _ => id ≠ 0 ∧ id < 2 ^ 31
  | priorityUpdate id _ => id ≠ 0 ∧ id < 2 ^ 31
  | unknown kind _ id _ => kind ∉ [0, 1, 2, 3, 4, 5, 6, 7, 8, 9, 0x10] ∧ id < 2 ^ 31

/-- The octets read back as the frame: nine are the header, and it counts all the others. -/
structure ReadsBack (octets : List UInt8) (f : Frame) (max : ℕ) : Prop where
  consumed : (decodeHeader (octets.take 9)).len = (octets.drop 9).length
  parsed : Frame.parse (decodeHeader (octets.take 9)) (octets.drop 9) max = .ok f

theorem length_putU32 (n : ℕ) : (putU32 n).length = 4 := rfl

theorem beU32_putU32 {n : ℕ} (hn : n < 2^32) (rest : List UInt8) :
    beU32 (putU32 n ++ rest) = n := by
  simp only [beU32,putU32,putU16,cons_append,nil_append,take_succ_cons,
    take_zero,foldl_cons,foldl_nil,UInt8.toNat_ofNat']
  omega

theorem beU31_putU32 {n : ℕ} (hn : n < 2^31) (rest : List UInt8) :
    beU31 (putU32 n ++ rest) = n := by
  rw [beU31,beU32_putU32 (by omega),Nat.mod_eq_of_lt hn]

theorem decodeHeader_encodeHeader {len id : ℕ} (hlen : len < 2^24) (hid : id < 2^31)
    (kind flags : UInt8) :
    decodeHeader (encodeHeader len kind flags id) = ⟨len,kind,flags,id⟩ := by
  have hstream : (encodeHeader len kind flags id).drop 5 = putU32 id ++ [] := by
    rw [encodeHeader,Nat.mod_eq_of_lt hid,append_nil]
    rfl
  rw [decodeHeader,hstream,beU31_putU32 hid]
  simp only [encodeHeader,beU32,cons_append,nil_append,take_succ_cons,
    take_zero,foldl_cons,foldl_nil,UInt8.toNat_ofNat',UInt8.toNat_zero,
    getD_cons_succ,getD_cons_zero,FrameHeader.mk.injEq,and_true]
  omega

namespace Frame

theorem readsBack_withHeader {kind flags : UInt8} {id max : ℕ} {payload : List UInt8} {f : Frame}
    (hid : id < 2^31) (hlen : (withHeader kind flags id payload).length < 9+2^24)
    (hmax : (withHeader kind flags id payload).length ≤ 9+max)
    (hparse : parsePayload ⟨payload.length,kind,flags,id⟩ payload = .ok f) :
    ReadsBack (withHeader kind flags id payload) f max := by
  have hnine : (encodeHeader payload.length kind flags id).length = 9 := rfl
  rw [withHeader,length_append,hnine] at hlen hmax
  have htake : (withHeader kind flags id payload).take 9 =
      encodeHeader payload.length kind flags id := by
    rw [withHeader,take_append_of_le_length hnine.ge,take_of_length_le hnine.le]
  have hdrop : (withHeader kind flags id payload).drop 9 = payload := by
    rw [withHeader,drop_append_of_le_length hnine.ge,drop_of_length_le hnine.le,
      nil_append]
  constructor
  · rw [htake,hdrop,decodeHeader_encodeHeader (by omega) hid]
  · rw [htake,hdrop,decodeHeader_encodeHeader (by omega) hid,parse_of_admissible rfl
      (Nat.le_of_add_le_add_left hmax),hparse]

end Frame

theorem LegacyPriority.decode_encode {p : LegacyPriority} (hdep : p.dependency < 2^31)
    (hweight : p.weight < 256) (rest : List UInt8) :
    LegacyPriority.decode (p.encode ++ rest) = p := by
  obtain ⟨dependency,exclusive,weight⟩ := p
  have hlow : UInt8.ofNat weight-1+1 = UInt8.ofNat weight := UInt8.sub_add_cancel _ _
  have hweight' : (UInt8.ofNat weight).toNat = weight := by
    rw [UInt8.toNat_ofNat',Nat.mod_eq_of_lt hweight]
  have hor : dependency ||| 0x80000000 = dependency+2^31 := by
    have htwo := Nat.two_pow_add_eq_or_of_lt hdep 1
    rw [Nat.mul_one,Nat.or_comm] at htwo
    rw [← htwo,Nat.add_comm]
  rw [decode,encode,append_assoc]
  cases exclusive with
  | false =>
    simp only [Bool.false_eq_true,if_false] at hdep ⊢
    rw [beU31_putU32 hdep,beU32_putU32 (by omega)]
    simp only [putU32,putU16,cons_append,nil_append,getD_cons_succ,
      getD_cons_zero,hlow,hweight',mk.injEq,true_and,and_true,decide_eq_false_iff_not]
    omega
  | true =>
    simp only [if_true,hor] at hdep ⊢
    rw [beU31,beU32_putU32 (by omega)]
    simp only [putU32,putU16,cons_append,nil_append,getD_cons_succ,
      getD_cons_zero,hlow,hweight',mk.injEq,and_true,decide_eq_true_eq]
    omega

theorem ErrorCode.fromU32_asU32 (code : ErrorCode) : fromU32 code.asU32 = some code := by
  cases code <;> rfl

theorem ErrorCode.asU32_lt (code : ErrorCode) : code.asU32 < 2^32 := by
  cases code <;> decide

theorem length_settings (entries : List Setting) :
    (entries.flatMap fun s => putU16 s.id ++ putU32 s.value).length = 6*entries.length := by
  induction entries with
  | nil => rfl
  | cons s entries ih =>
    rw [flatMap_cons,length_append,ih,length_cons]
    change 6+_ = _
    omega

theorem settingsEntries_encode {entries : List Setting}
    (hfit : ∀ s ∈ entries, s.id < 2^16 ∧ s.value < 2^32) :
    settingsEntries entries.length (entries.flatMap fun s => putU16 s.id ++ putU32 s.value) =
      entries := by
  induction entries with
  | nil => rfl
  | cons s entries ih =>
    obtain ⟨⟨hid,hvalue⟩,hrest⟩ := forall_mem_cons.1 hfit
    rw [length_cons,settingsEntries,flatMap_cons]
    set tail := entries.flatMap fun s => putU16 s.id ++ putU32 s.value
    have hkey : beU32 ([0,0] ++ ((putU16 s.id ++ putU32 s.value) ++ tail)) = s.id := by
      have hpad : ([0,0] : List UInt8) ++ putU16 s.id = putU32 s.id := by
        rw [putU32,show s.id/65536 = 0 from Nat.div_eq_of_lt hid]
        rfl
      rw [← append_assoc,← append_assoc,hpad,append_assoc,
        beU32_putU32 (by omega)]
    have hdrop : ((putU16 s.id ++ putU32 s.value) ++ tail).drop 2 = putU32 s.value ++ tail := rfl
    have hnext : ((putU16 s.id ++ putU32 s.value) ++ tail).drop 6 = tail := rfl
    rw [hkey,hdrop,beU32_putU32 hvalue,hnext,ih hrest]

theorem has_endStream (b : Bool) :
    has (if b then 0x1 else 0) 0x1 = b ∧ has (if b then 0x1 else 0) 0x8 = false := by
  cases b <;> decide

theorem has_endHeaders (b : Bool) :
    has (if b then 0x4 else 0) 0x4 = b ∧ has (if b then 0x4 else 0) 0x8 = false := by
  cases b <;> decide

theorem has_headers (b c : Bool) (flags : UInt8)
    (hflags : flags = (if b then 0x1 else 0) ||| (if c then 0x4 else 0)) :
    (has flags 0x1 = b ∧ has flags 0x4 = c ∧ has flags 0x8 = false ∧ has flags 0x20 = false) ∧
      has (flags ||| 0x20) 0x1 = b ∧ has (flags ||| 0x20) 0x4 = c ∧
        has (flags ||| 0x20) 0x8 = false ∧ has (flags ||| 0x20) 0x20 = true := by
  subst hflags
  cases b <;> cases c <;> decide

open Courierust.H2.Frame in
/-- Encoding a frame, reading its header and parsing the rest gives the frame back. -/
theorem parse_encode (f : Frame) (max : ℕ) (hwire : f.WireFormed)
    (hlen : f.encode.length < 9 + 2 ^ 24) (hmax : f.encode.length ≤ 9 + max) :
    ReadsBack f.encode f max := by
  -- every branch of `encode` is a header and a payload, and only the payload is left to parse
  cases f with
  | data id octets endStream padding =>
    obtain ⟨hne,hid,rfl⟩ := hwire
    refine readsBack_withHeader hid hlen hmax ?_
    simp [parsePayload,parseData,stripPadding,has_endStream,hne,Except.map]
  | headers id block endStream endHeaders legacy =>
    obtain ⟨hne,hid,hlegacy⟩ := hwire
    cases legacy with
    | none =>
      refine readsBack_withHeader hid hlen hmax ?_
      have hflags := (has_headers endStream endHeaders _ rfl).1
      simp [parsePayload,parseHeaders,padLength,hflags,hne]
    | some p =>
      obtain ⟨hdep,hweight⟩ := hlegacy p rfl
      refine readsBack_withHeader hid hlen hmax ?_
      have hfive : p.encode.length = 5 := rfl
      have hdrop : (p.encode ++ block).drop 5 = block := rfl
      have hflags := (has_headers endStream endHeaders _ rfl).2
      simp [parsePayload,parseHeaders,padLength,hflags,hne,hdrop,hfive,
        LegacyPriority.decode_encode hdep hweight]
  | priority id legacy =>
    obtain ⟨hne,hid,hdep,hweight⟩ := hwire
    refine readsBack_withHeader hid hlen hmax ?_
    have hdecode := LegacyPriority.decode_encode hdep hweight []
    rw [append_nil] at hdecode
    have hfive : legacy.encode.length = 5 := rfl
    simp [parsePayload,parsePriority,hne,hfive,hdecode]
  | rstStream id errorCode =>
    obtain ⟨hne,hid⟩ := hwire
    refine readsBack_withHeader hid hlen hmax ?_
    have hcode := beU32_putU32 errorCode.asU32_lt []
    rw [append_nil] at hcode
    simp [parsePayload,parseRstStream,hne,length_putU32,hcode,
      ErrorCode.fromU32_asU32]
  | settings ack entries =>
    obtain ⟨hack,hfit⟩ := hwire
    refine readsBack_withHeader (by decide) hlen hmax ?_
    cases ack with
    | true => simp [parsePayload,parseSettings,has,hack rfl]
    | false =>
      have hread := settingsEntries_encode hfit
      have hsix := length_settings entries
      generalize (entries.flatMap fun s => putU16 s.id ++ putU32 s.value) = octets at hread hsix
      simp [parsePayload,parseSettings,has,hsix,hread]
  | pushPromise id promised block endHeaders =>
    obtain ⟨hne,hid,hpromised⟩ := hwire
    refine readsBack_withHeader hid hlen hmax ?_
    rw [Nat.mod_eq_of_lt hpromised]
    have hdrop : (putU32 promised ++ block).drop 4 = block := rfl
    simp [parsePayload,parsePushPromise,padLength,has_endHeaders,hne,hdrop,
      length_putU32,beU31_putU32 hpromised]
  | ping ack octets =>
    have height : octets.length = 8 := hwire
    refine readsBack_withHeader (by decide) hlen hmax ?_
    simp [parsePayload,parsePing,has_endStream,height]
  | goAway last errorCode debug =>
    have hlast : last < 2^31 := hwire
    refine readsBack_withHeader (by decide) hlen hmax ?_
    rw [Nat.mod_eq_of_lt hlast,append_assoc]
    have hfour : (putU32 last ++ (putU32 errorCode.asU32 ++ debug)).drop 4 =
      putU32 errorCode.asU32 ++ debug := rfl
    have height : (putU32 last ++ (putU32 errorCode.asU32 ++ debug)).drop 8 = debug := rfl
    simp [parsePayload,parseGoAway,hfour,height,length_putU32,
      beU31_putU32 hlast,beU32_putU32 errorCode.asU32_lt,ErrorCode.fromU32_asU32]
    omega
  | windowUpdate id increment =>
    obtain ⟨hid,hne,hincrement⟩ := hwire
    refine readsBack_withHeader hid hlen hmax ?_
    rw [Nat.mod_eq_of_lt hincrement]
    have hread := beU31_putU32 hincrement []
    rw [append_nil] at hread
    simp [parsePayload,parseWindowUpdate,length_putU32,hread,hne]
  | continuation id endHeaders block =>
    obtain ⟨hne,hid⟩ := hwire
    refine readsBack_withHeader hid hlen hmax ?_
    simp [parsePayload,parseContinuation,has_endHeaders,hne]
  | priorityUpdate id field =>
    obtain ⟨hne,hid⟩ := hwire
    refine readsBack_withHeader (by decide) hlen hmax ?_
    rw [Nat.mod_eq_of_lt hid]
    have hdrop : (putU32 id ++ field).drop 4 = field := rfl
    simp [parsePayload,parsePriorityUpdate,length_putU32,hdrop,beU31_putU32 hid,
      hne]
  | unknown kind flags id payload =>
    obtain ⟨hkind,hid⟩ := hwire
    refine readsBack_withHeader hid hlen hmax ?_
    simp only [mem_cons,not_mem_nil,or_false,not_or] at hkind
    simp [parsePayload,hkind]

/-- A HEADERS frame with a legacy priority. -/
theorem parse_encode_headers :
    ReadsBack (Frame.headers 3 [0x82] true true (some ⟨1, true, 0⟩)).encode
      (.headers 3 [0x82] true true (some ⟨1, true, 0⟩)) 16384 := by
  refine parse_encode _ _ ⟨by decide,by decide,?_⟩ (by decide) (by decide)
  rintro p hp
  cases hp
  exact ⟨by decide,by decide⟩

end Courierust.H2
