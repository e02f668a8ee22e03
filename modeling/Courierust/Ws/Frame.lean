import Courierust.Lib.BigEndian
import Courierust.Ws.Utf8

/-!
# WebSocket frames

Model of `courierust_ws::frame`: opcodes, frame headers, masking and close payloads. A header
is parsed from a prefix of the input whose length its first two octets announce, and the
masking engine works in lanes of sixteen and four octets.
-/

namespace Courierust.Ws

open List
open BigEndian
open Http (Utf8 isUtf8)

def maxControlPayload : ℕ := 125

/-! ### Opcodes -/

inductive OpCode where
  | continuation | text | binary | close | ping | pong
  deriving DecidableEq

namespace OpCode

def fromU8 (v : UInt8) : Option OpCode :=
  if v = 0x0 then some .continuation
  else if v = 0x1 then some .text
  else if v = 0x2 then some .binary
  else if v = 0x8 then some .close
  else if v = 0x9 then some .ping
  else if v = 0xa then some .pong
  else none

def toU8 : OpCode → UInt8
  | .continuation => 0x0
  | .text => 0x1
  | .binary => 0x2
  | .close => 0x8
  | .ping => 0x9
  | .pong => 0xa

def isControl (op : OpCode) : Bool := op.toU8 &&& 0x08 ≠ 0

def isData (op : OpCode) : Bool := !op.isControl

end OpCode

/-! ### Headers -/

structure MaskKey where
  k0 : UInt8 := 0
  k1 : UInt8 := 0
  k2 : UInt8 := 0
  k3 : UInt8 := 0
  deriving DecidableEq

namespace MaskKey

/-- `key[i & 3]`. -/
def get (key : MaskKey) (i : ℕ) : UInt8 :=
  match i % 4 with
  | 0 => key.k0
  | 1 => key.k1
  | 2 => key.k2
  | _ => key.k3

def octets (key : MaskKey) : List UInt8 := [key.k0, key.k1, key.k2, key.k3]

end MaskKey

structure FrameHeader where
  fin : Bool
  rsv1 : Bool := false
  rsv2 : Bool := false
  rsv3 : Bool := false
  opcode : OpCode
  masked : Bool := false
  maskKey : MaskKey := {}
  payloadLen : ℕ
  headerLen : ℕ := 0
  deriving DecidableEq

def payloadLength (len7 : ℕ) (rest : List UInt8) : Except Error (Option (ℕ × ℕ)) :=
  if len7 = 126 then
    if rest.length < 2 then .ok none
    else
      let v := beNat (rest.take 2)
      if v < 126 then .error (Error.protocol "websocket: non-minimal 16-bit payload length")
      else .ok (some (v, 2))
  else if len7 = 127 then
    if rest.length < 8 then .ok none
    else
      let v := beNat (rest.take 8)
      if 2 ^ 63 ≤ v then .error (Error.protocol "websocket: payload length msb set")
      else if v < 65536 then .error (Error.protocol "websocket: non-minimal 64-bit payload length")
      else .ok (some (v, 8))
  else .ok (some (len7, 0))

def readKey : List UInt8 → Option MaskKey
  | k0 :: k1 :: k2 :: k3 :: _ => some ⟨k0, k1, k2, k3⟩
  | _ => none

namespace FrameHeader

def checkControl (h : FrameHeader) : Except Error (Option FrameHeader) :=
  if h.opcode.isControl then
    if !h.fin then .error (Error.protocol "websocket: fragmented control frame")
    else if maxControlPayload < h.payloadLen then
      .error (Error.protocol "websocket: control frame payload too large")
    else .ok (some h)
  else .ok (some h)

def parse : List UInt8 → Except Error (Option FrameHeader)
  | b0 :: b1 :: rest =>
    match OpCode.fromU8 (b0 &&& 0x0f) with
    | none => .error (Error.protocol "websocket: reserved opcode received")
    | some opcode =>
      match payloadLength (b1 &&& 0x7f).toNat rest with
      | .error e => .error e
      | .ok none => .ok none
      | .ok (some (payloadLen, n)) =>
        let header : FrameHeader :=
          { fin := b0 &&& 0x80 ≠ 0, rsv1 := b0 &&& 0x40 ≠ 0, rsv2 := b0 &&& 0x20 ≠ 0,
            rsv3 := b0 &&& 0x10 ≠ 0, opcode, payloadLen, headerLen := 2 + n }
        if b1 &&& 0x80 ≠ 0 then
          match readKey (rest.drop n) with
          | none => .ok none
          | some maskKey => checkControl { header with masked := true, maskKey, headerLen := 2 + n + 4 }
        else checkControl header
  | _ => .ok none

def checkReserved (h : FrameHeader) (allowRsv1 : Bool) : Except Error Unit :=
  let okRsv1 := h.rsv1 && allowRsv1 && h.opcode.isData
  if (h.rsv1 && !okRsv1) || h.rsv2 || h.rsv3 then
    .error (Error.protocol "websocket: reserved bits set without a negotiated extension")
  else .ok ()

def firstOctet (h : FrameHeader) : UInt8 :=
  h.opcode.toU8 ||| (if h.fin then 0x80 else 0) ||| (if h.rsv1 then 0x40 else 0) |||
    (if h.rsv2 then 0x20 else 0) ||| (if h.rsv3 then 0x10 else 0)

/-- `write`: the octets of the header. -/
def write (h : FrameHeader) : List UInt8 :=
  let maskBit : UInt8 := if h.masked then 0x80 else 0
  let length :=
    if h.payloadLen < 126 then [maskBit ||| UInt8.ofNat h.payloadLen]
    else if h.payloadLen ≤ 65535 then (maskBit ||| 126) :: beBytes 2 h.payloadLen
    else (maskBit ||| 127) :: beBytes 8 h.payloadLen
  h.firstOctet :: length ++ (if h.masked then h.maskKey.octets else [])

end FrameHeader

def extraLen (b1 : UInt8) : ℕ :=
  (if b1 &&& 0x7f = 126 then 2 else if b1 &&& 0x7f = 127 then 8 else 0) +
    (if b1 &&& 0x80 ≠ 0 then 4 else 0)

def headerLenHint : List UInt8 → Option ℕ
  | _ :: b1 :: _ => some (2 + extraLen b1)
  | _ => none

/-- What the writer puts into a header: the rules the parser enforces. -/
structure FrameHeader.Legal (h : FrameHeader) : Prop where
  payloadLen : h.payloadLen < 2 ^ 63
  maskKey : h.masked = false → h.maskKey = {}
  control : h.opcode.isControl = true → h.fin = true ∧ h.payloadLen ≤ maxControlPayload

namespace FrameHeader

theorem firstOctet_spec (h : FrameHeader) :
    OpCode.fromU8 (h.firstOctet &&& 0x0f) = some h.opcode ∧
      decide (h.firstOctet &&& 0x80 ≠ 0) = h.fin ∧ decide (h.firstOctet &&& 0x40 ≠ 0) = h.rsv1 ∧
      decide (h.firstOctet &&& 0x20 ≠ 0) = h.rsv2 ∧ decide (h.firstOctet &&& 0x10 ≠ 0) = h.rsv3 := by
  rw [firstOctet]
  generalize h.opcode = opcode, h.fin = fin, h.rsv1 = rsv1, h.rsv2 = rsv2, h.rsv3 = rsv3
  cases opcode <;> cases fin <;> cases rsv1 <;> cases rsv2 <;> cases rsv3 <;> decide

theorem lengthOctet (masked : Bool) {n : ℕ} (hn : n < 128) :
    let b : UInt8 := (if masked then 0x80 else 0) ||| UInt8.ofNat n
    (b &&& 0x7f).toNat = n ∧ decide (b &&& 0x80 ≠ 0) = masked := by
  have hall : ∀ m < 128, ∀ masked : Bool,
      ((((if masked then 0x80 else 0) ||| UInt8.ofNat m : UInt8) &&& 0x7f).toNat = m ∧
        decide (((if masked then 0x80 else 0) ||| UInt8.ofNat m : UInt8) &&& 0x80 ≠ 0) = masked) := by
    decide
  exact hall n hn masked

def lengthOctets (h : FrameHeader) : List UInt8 :=
  if h.payloadLen < 126 then [] else if h.payloadLen ≤ 65535 then beBytes 2 h.payloadLen
  else beBytes 8 h.payloadLen

def len7 (h : FrameHeader) : ℕ :=
  if h.payloadLen < 126 then h.payloadLen else if h.payloadLen ≤ 65535 then 126 else 127

theorem len7_lt (h : FrameHeader) : h.len7 < 128 := by
  rw [len7]
  split_ifs <;> omega

theorem write_eq (h : FrameHeader) : h.write =
    h.firstOctet :: ((if h.masked then 0x80 else 0) ||| UInt8.ofNat h.len7) ::
      (h.lengthOctets ++ (if h.masked then h.maskKey.octets else [])) := by
  rw [write,len7,lengthOctets]
  split_ifs <;> rfl

theorem payloadLength_write (h : FrameHeader) (hlen : h.payloadLen < 2^63) (rest : List UInt8) :
    payloadLength h.len7 (h.lengthOctets ++ rest) =
      .ok (some (h.payloadLen,h.lengthOctets.length)) := by
  rw [payloadLength,len7,lengthOctets]
  by_cases hshort : h.payloadLen < 126
  · rw [if_pos hshort,if_neg (by omega),if_neg (by omega),if_pos hshort]
    rfl
  simp only [if_neg hshort]
  by_cases hmid : h.payloadLen ≤ 65535
  · simp only [if_pos hmid]
    have hnat : beNat (beBytes 2 h.payloadLen) = h.payloadLen := beNat_beBytes (by omega)
    rw [if_pos trivial,if_neg (by rw [length_append,length_beBytes]; omega),
      take_left' (by simp),hnat,if_neg (by omega),length_beBytes]
  · simp only [if_neg hmid]
    have hnat : beNat (beBytes 8 h.payloadLen) = h.payloadLen := beNat_beBytes (by omega)
    rw [if_neg (by decide),if_pos trivial,if_neg (by simp),take_left' (by simp),hnat,
      if_neg (by omega),if_neg (by omega),length_beBytes]

theorem Legal.checkControl {h : FrameHeader} (hlegal : h.Legal) : h.checkControl = .ok (some h) := by
  rw [FrameHeader.checkControl]
  by_cases hc : h.opcode.isControl = true
  · obtain ⟨hfin,hlen⟩ := hlegal.control hc
    rw [if_pos hc,hfin,if_neg (by simp),if_neg (by omega)]
  · rw [if_neg hc]

theorem length_write (h : FrameHeader) :
    h.write.length = 2+h.lengthOctets.length+(if h.masked then 4 else 0) := by
  rw [write_eq]
  cases h.masked <;> simp [MaskKey.octets] <;> omega

theorem parse_write {h : FrameHeader} (hlegal : h.Legal) (rest : List UInt8) :
    parse (h.write ++ rest) = .ok (some { h with headerLen := h.write.length }) := by
  obtain ⟨hop,hfin,hrsv1,hrsv2,hrsv3⟩ := h.firstOctet_spec
  obtain ⟨hlen7,hmask⟩ := lengthOctet h.masked h.len7_lt
  have hlegal' : ∀ n, ({ h with headerLen := n } : FrameHeader).Legal := fun n =>
    ⟨hlegal.payloadLen,hlegal.maskKey,hlegal.control⟩
  rw [length_write,write_eq,cons_append,cons_append,parse,hop]
  rw [hlen7,append_assoc,payloadLength_write h hlegal.payloadLen]
  dsimp only
  cases hm : h.masked with
  | true =>
    rw [hm] at hmask
    rw [if_pos (of_decide_eq_true hmask),drop_left]
    simp only [if_pos,MaskKey.octets,cons_append,readKey,hfin,hrsv1,hrsv2,hrsv3]
    have hcheck := (hlegal' (2+h.lengthOctets.length+4)).checkControl
    rw [← hm]
    exact hcheck
  | false =>
    rw [hm] at hmask
    rw [if_neg (of_decide_eq_false hmask)]
    simp only [hfin,hrsv1,hrsv2,hrsv3]
    have hcheck := (hlegal' (2+h.lengthOctets.length)).checkControl
    have hkey := hlegal.maskKey hm
    rw [hm,hkey] at hcheck
    rw [hkey,if_neg (by simp)]
    exact hcheck

/-- The octets of the length behind the second octet. -/
def lengthWidth (len7 : ℕ) : ℕ := if len7 = 126 then 2 else if len7 = 127 then 8 else 0

theorem extraLen_eq (b1 : UInt8) : extraLen b1 =
    lengthWidth (b1 &&& 0x7f).toNat+if b1 &&& 0x80 ≠ 0 then 4 else 0 := by
  simp only [extraLen,lengthWidth,← UInt8.toNat_inj,UInt8.reduceToNat]

theorem length_lengthOctets (h : FrameHeader) : h.lengthOctets.length = lengthWidth h.len7 := by
  rw [len7,lengthOctets,lengthWidth]
  split_ifs <;> first | omega | simp

theorem headerLenHint_write (h : FrameHeader) (rest : List UInt8) :
    headerLenHint (h.write ++ rest) = some h.write.length := by
  obtain ⟨hlen7,hmask⟩ := lengthOctet h.masked h.len7_lt
  rw [length_write,write_eq,cons_append,cons_append,headerLenHint,extraLen_eq,hlen7,
    length_lengthOctets]
  cases hm : h.masked with
  | true =>
    rw [hm] at hmask
    rw [if_pos (of_decide_eq_true hmask),if_pos rfl,Nat.add_assoc]
  | false =>
    rw [hm] at hmask
    rw [if_neg (of_decide_eq_false hmask),if_neg (by simp),Nat.add_zero,Nat.add_zero]

/-! ### What is accepted -/

theorem payloadLength_spec {len7 : ℕ} (hlen7 : len7 < 128) (rest : List UInt8) :
    match payloadLength len7 rest with
    | .error _ => True
    | .ok none => rest.length < lengthWidth len7
    | .ok (some (v,n)) => n = lengthWidth len7 ∧ n ≤ rest.length ∧ v < 2^63 ∧
        ∀ h : FrameHeader, h.payloadLen = v → h.len7 = len7 ∧ h.lengthOctets = rest.take n := by
  have hbytes : ∀ w ≤ rest.length, beBytes w (beNat (rest.take w)) = rest.take w ∧
      beNat (rest.take w) < 256^w := by
    intro w hw
    have hback := beBytes_beNat (rest.take w)
    have hlt := beNat_lt (rest.take w)
    rw [length_take,min_eq_left hw] at hback hlt
    exact ⟨hback,hlt⟩
  rw [payloadLength,lengthWidth]
  by_cases h126 : len7 = 126
  · simp only [if_pos h126]
    split_ifs with hshort hmin
    · exact hshort
    · trivial
    obtain ⟨hback,hlt⟩ := hbytes 2 (by omega)
    refine ⟨rfl,by omega,by omega,fun h hv => ?_⟩
    rw [FrameHeader.len7,lengthOctets,hv,if_neg hmin,if_pos (by omega),if_neg hmin,
      if_pos (by omega)]
    exact ⟨h126.symm,hback⟩
  simp only [if_neg h126]
  by_cases h127 : len7 = 127
  · simp only [if_pos h127]
    split_ifs with hshort hmsb hmin
    · exact hshort
    · trivial
    · trivial
    obtain ⟨hback,-⟩ := hbytes 8 (by omega)
    refine ⟨rfl,by omega,by omega,fun h hv => ?_⟩
    rw [FrameHeader.len7,lengthOctets,hv,if_neg (by omega),if_neg (by omega),
      if_neg (by omega),if_neg (by omega)]
    exact ⟨h127.symm,hback⟩
  · simp only [if_neg h127]
    refine ⟨trivial,Nat.zero_le _,by omega,fun h hv => ?_⟩
    rw [FrameHeader.len7,lengthOctets,hv,if_pos (by omega),if_pos (by omega)]
    exact ⟨rfl,rfl⟩

theorem readKey_spec (bs : List UInt8) :
    match readKey bs with
    | none => bs.length < 4
    | some key => key.octets <+: bs := by
  rcases bs with _ | ⟨k0,_ | ⟨k1,_ | ⟨k2,_ | ⟨k3,rest⟩⟩⟩⟩
  · exact (by decide : 0 < 4)
  · exact (by decide : 1 < 4)
  · exact (by decide : 2 < 4)
  · exact (by decide : 3 < 4)
  · exact ⟨rest,rfl⟩

theorem toU8_of_fromU8 {v : UInt8} {op : OpCode} (h : OpCode.fromU8 v = some op) : op.toU8 = v := by
  rw [OpCode.fromU8] at h
  split_ifs at h
  all_goals cases h
  all_goals exact (by assumption : v = _).symm

theorem octet_bits : ∀ b : UInt8,
    (b &&& 0x0f) ||| (if b &&& 0x80 ≠ 0 then 0x80 else 0) ||| (if b &&& 0x40 ≠ 0 then 0x40 else 0) |||
      (if b &&& 0x20 ≠ 0 then 0x20 else 0) ||| (if b &&& 0x10 ≠ 0 then 0x10 else 0) = b ∧
    (if b &&& 0x80 ≠ 0 then 0x80 else 0) ||| (b &&& 0x7f) = b := by
  rintro ⟨v⟩
  revert v
  decide

/-- An answer of `parse`: without an error the octets are fewer than announced, or they start
with those that the header is written with. -/
def Answers (buf : List UInt8) : Except Error (Option FrameHeader) → Prop
  | .error _ => True
  | .ok none => ∀ need, headerLenHint buf = some need → buf.length < need
  | .ok (some h) => h.Legal ∧ h.write <+: buf ∧ h.headerLen = h.write.length

theorem Answers.checkControl {h : FrameHeader} {buf : List UInt8} (hlt : h.payloadLen < 2^63)
    (hkey : h.masked = false → h.maskKey = {}) (hwrite : h.write <+: buf)
    (hlength : h.headerLen = h.write.length) : Answers buf h.checkControl := by
  rw [FrameHeader.checkControl]
  split_ifs with hcontrol hfin hlen
  · trivial
  · trivial
  · exact ⟨⟨hlt,hkey,fun _ => ⟨by simpa using hfin,not_lt.1 hlen⟩⟩,hwrite,hlength⟩
  · exact ⟨⟨hlt,hkey,fun h => absurd h hcontrol⟩,hwrite,hlength⟩

theorem parse_spec (buf : List UInt8) : Answers buf (parse buf) := by
  rcases buf with _ | ⟨b0,_ | ⟨b1,rest⟩⟩
  · intro need hneed
    cases hneed
  · intro need hneed
    cases hneed
  rw [parse]
  cases hop : OpCode.fromU8 (b0 &&& 0x0f) with
  | none => trivial
  | some opcode =>
    have hspec := payloadLength_spec
      (Nat.lt_succ_of_le Nat.and_le_right : (b1 &&& 0x7f).toNat < 128) rest
    generalize payloadLength (b1 &&& 0x7f).toNat rest = r at hspec ⊢
    rcases r with e | _ | ⟨v,n⟩
    · trivial
    · rintro _ ⟨⟩
      rw [extraLen_eq,length_cons,length_cons]
      omega
    obtain ⟨hn,hle,hlt,hform⟩ := hspec
    have hdone : ∀ h : FrameHeader, h.firstOctet = b0 → h.masked = decide (b1 &&& 0x80 ≠ 0) →
        h.payloadLen = v → (h.masked = false → h.maskKey = {}) →
        (if h.masked then h.maskKey.octets else []) <+: rest.drop n →
        h.headerLen = 2+n+(if h.masked then 4 else 0) →
        Answers (b0 :: b1 :: rest) h.checkControl := by
      intro h hfirst hmasked hv hkey hoctets hheader
      obtain ⟨hlen7,hlength⟩ := hform h hv
      have hsecond : ((if h.masked then 0x80 else 0) ||| UInt8.ofNat h.len7) = b1 := by
        rw [hmasked,hlen7,UInt8.ofNat_toNat]
        simpa using (octet_bits b1).2
      refine .checkControl (hv ▸ hlt) hkey ?_ ?_
      · rw [write_eq,hfirst,hsecond,hlength]
        refine cons_prefix_cons.2 ⟨rfl,cons_prefix_cons.2 ⟨rfl,?_⟩⟩
        conv_rhs => rw [← take_append_drop n rest]
        exact (prefix_append_right_inj _).2 hoctets
      · rw [hheader,length_write,hlength,length_take,min_eq_left hle]
    have hfirst := (octet_bits b0).1
    rw [← toU8_of_fromU8 hop] at hfirst
    dsimp only
    split_ifs with hmask
    · have hkey := readKey_spec (rest.drop n)
      generalize readKey (rest.drop n) = r at hkey ⊢
      cases r with
      | none =>
        rintro _ ⟨⟩
        rw [extraLen_eq,if_pos hmask,length_cons,length_cons,← hn]
        rw [length_drop] at hkey
        omega
      | some key =>
        exact hdone _ (by simpa [firstOctet] using hfirst) (decide_eq_true hmask).symm rfl
          (by simp) hkey rfl
    · exact hdone _ (by simpa [firstOctet] using hfirst) (decide_eq_false hmask).symm rfl
        (fun _ => rfl) nil_prefix rfl

theorem payloadLength_append {len7 : ℕ} {rest : List UInt8} (more : List UInt8)
    (h : payloadLength len7 rest ≠ .ok none) :
    payloadLength len7 (rest ++ more) = payloadLength len7 rest := by
  have hlong : ∀ w, ¬ rest.length < w →
      ¬ (rest ++ more).length < w ∧ (rest ++ more).take w = rest.take w := by
    intro w hw
    rw [length_append]
    exact ⟨by omega,take_append_of_le_length (not_lt.1 hw)⟩
  simp only [payloadLength] at h ⊢
  by_cases h126 : len7 = 126
  · simp only [if_pos h126] at h ⊢
    obtain ⟨hmore,htake⟩ := hlong 2 fun hw => h (if_pos hw)
    rw [if_neg hmore,htake,if_neg fun hw => h (if_pos hw)]
  simp only [if_neg h126] at h ⊢
  by_cases h127 : len7 = 127
  · simp only [if_pos h127] at h ⊢
    obtain ⟨hmore,htake⟩ := hlong 8 fun hw => h (if_pos hw)
    rw [if_neg hmore,htake,if_neg fun hw => h (if_pos hw)]
  · simp only [if_neg h127]

/-- More octets do not change the answer. -/
theorem parse_append {buf : List UInt8} (more : List UInt8) (h : parse buf ≠ .ok none) :
    parse (buf ++ more) = parse buf := by
  rcases buf with _ | ⟨b0,_ | ⟨b1,rest⟩⟩
  · exact absurd rfl h
  · exact absurd rfl h
  rw [cons_append,cons_append]
  simp only [parse] at h ⊢
  cases hop : OpCode.fromU8 (b0 &&& 0x0f) with
  | none => rfl
  | some opcode =>
    rw [hop] at h
    have hlen : payloadLength (b1 &&& 0x7f).toNat rest ≠ .ok none := fun hlen => h (by rw [hlen])
    rw [payloadLength_append more hlen]
    have hspec := payloadLength_spec
      (Nat.lt_succ_of_le Nat.and_le_right : (b1 &&& 0x7f).toNat < 128) rest
    rcases hr : payloadLength (b1 &&& 0x7f).toNat rest with e | _ | ⟨v,n⟩
    · rfl
    · rfl
    rw [hr] at h hspec
    dsimp only at h ⊢
    split_ifs with hmask
    · rw [if_pos hmask] at h
      rw [drop_append_of_le_length hspec.2.1]
      generalize rest.drop n = bs at h ⊢
      rcases bs with _ | ⟨k0,_ | ⟨k1,_ | ⟨k2,_ | ⟨k3,bs⟩⟩⟩⟩
      · exact absurd rfl h
      · exact absurd rfl h
      · exact absurd rfl h
      · exact absurd rfl h
      · rfl
    · rfl

/-- A header has one encoding. Octets that `parse` does not reject are incomplete exactly when
they are fewer than announced. -/
theorem header_encoding_unique (buf : List UInt8) :
    (∀ h : FrameHeader, h.Legal →
      parse (h.write ++ buf) = .ok (some { h with headerLen := h.write.length }) ∧
      (buf <+: h.write → buf ≠ h.write → parse buf = .ok none)) ∧
    (∀ h, parse buf = .ok (some h) → h.Legal ∧ h.write <+: buf ∧ h.headerLen = h.write.length ∧
      headerLenHint buf = some h.headerLen) ∧
    (parse buf = .ok none ↔ (∀ e, parse buf ≠ .error e) ∧
      ∀ need, headerLenHint buf = some need → buf.length < need) := by
  have hspec := parse_spec buf
  have haccepted : ∀ h, parse buf = .ok (some h) → h.Legal ∧ h.write <+: buf ∧
      h.headerLen = h.write.length ∧ headerLenHint buf = some h.headerLen := by
    intro h hparse
    rw [hparse] at hspec
    obtain ⟨hlegal,⟨rest,rfl⟩,hlength⟩ := hspec
    exact ⟨hlegal,prefix_append _ _,hlength,hlength ▸ h.headerLenHint_write rest⟩
  refine ⟨fun h hlegal => ⟨parse_write hlegal buf,fun hbuf hne => ?_⟩,haccepted,?_⟩
  · by_contra hparse
    obtain ⟨rest,hrest⟩ := id hbuf
    have hwrite := parse_write hlegal []
    rw [append_nil,← hrest,parse_append rest hparse] at hwrite
    obtain ⟨-,hstart,-⟩ := haccepted _ hwrite
    exact hne (hbuf.eq_of_length_le hstart.length_le)
  · rcases hparse : parse buf with e | _ | h
    · simp
    · rw [hparse] at hspec
      exact ⟨fun _ => ⟨by simp,hspec⟩,fun _ => rfl⟩
    · obtain ⟨-,hstart,hlength,hhint⟩ := haccepted h hparse
      simp [hhint,hlength,hstart.length_le]

theorem control_fragment_waits : parse [0x09, 0x80] = .ok none ∧
    ¬ ∃ h : FrameHeader, h.Legal ∧ [0x09, 0x80] <+: h.write := by
  refine ⟨rfl,?_⟩
  rintro ⟨h,hlegal,hstart⟩
  obtain ⟨hop,hfin,-⟩ := h.firstOctet_spec
  rw [write_eq] at hstart
  rw [← (cons_prefix_cons.1 hstart).1] at hop hfin
  have hping : h.opcode = .ping := Option.some.inj hop.symm
  have hwhole := (hlegal.control (by rw [hping]; rfl)).1
  cases hfin.trans hwhole

end FrameHeader

/-! ### Masking -/

namespace MaskKey

/-- The pattern of `n` octets that starts at a phase. -/
def pattern (key : MaskKey) (phase n : ℕ) : List UInt8 := (List.range n).map fun j => key.get (phase + j)

def lanes (pattern : List UInt8) (data : List UInt8) : List UInt8 × List UInt8 :=
  if 0 < pattern.length ∧ pattern.length ≤ data.length then
    let (done, rest) := lanes pattern (data.drop pattern.length)
    ((data.take pattern.length).zipWith (· ^^^ ·) pattern ++ done, rest)
  else ([], data)
termination_by data.length
decreasing_by
  rw [List.length_drop]
  omega

/-- `apply`: lanes of sixteen, then of four, then single octets. -/
def apply (key : MaskKey) (offset : ℕ) (data : List UInt8) : List UInt8 :=
  let phase := offset % 4
  let (wide, rest) := lanes (key.pattern phase 16) data
  let (words, rest) := lanes (key.pattern phase 4) rest
  let i := wide.length + words.length
  wide ++ words ++ rest.mapIdx fun j b => b ^^^ key.get (phase + (i + j))

variable (key : MaskKey) (offset : ℕ) (data : List UInt8)

def mask (key : MaskKey) (offset : ℕ) (data : List UInt8) : List UInt8 :=
  data.mapIdx fun i b => b ^^^ key.get (offset + i)

theorem mask_append (a b : List UInt8) :
    key.mask offset (a ++ b) = key.mask offset a ++ key.mask (offset+a.length) b := by
  simp only [mask,mapIdx_append]
  congr 2
  funext i x
  congr 2
  omega

@[simp] theorem length_mask : (key.mask offset data).length = data.length := length_mapIdx

theorem mask_mask : key.mask offset (key.mask offset data) = data := by
  refine ext_getElem? fun i => ?_
  simp only [mask,getElem?_mapIdx,Option.map_map]
  cases data[i]? with
  | none => rfl
  | some b =>
    rw [Option.map_some,Function.comp_apply,UInt8.xor_assoc,UInt8.xor_self,UInt8.xor_zero]

theorem mask_add_mul (k : ℕ) (data : List UInt8) :
    key.mask (offset+4*k) data = key.mask offset data := by
  simp only [mask]
  congr 1
  funext i b
  rw [show offset+4*k+i = offset+i+4*k by omega,get,get,
    Nat.add_mul_mod_self_left]

theorem mask_mod : key.mask (offset%4) data = key.mask offset data := by
  conv_rhs => rw [← Nat.mod_add_div offset 4]
  exact (key.mask_add_mul _ _ _).symm

theorem zipWith_pattern (phase : ℕ) (data : List UInt8) :
    data.zipWith (· ^^^ ·) (key.pattern phase data.length) = key.mask phase data := by
  refine ext_getElem? fun i => ?_
  rw [getElem?_zipWith,mask,getElem?_mapIdx,pattern,getElem?_map]
  by_cases hi : i < data.length
  · simp [getElem?_range hi,getElem?_eq_getElem hi]
  · simp [getElem?_eq_none (not_lt.1 hi)]

theorem lanes_spec (phase k : ℕ) (data : List UInt8) :
    let result := lanes (key.pattern phase (4*k)) data
    ∃ m, result.1.length = 4*m ∧ result.1 ++ key.mask phase result.2 = key.mask phase data := by
  induction hn : data.length using Nat.strong_induction_on generalizing data with
  | _ n ih =>
    intro result
    have hlen : (key.pattern phase (4*k)).length = 4*k := by simp [pattern]
    have hresult : result = lanes (key.pattern phase (4*k)) data := rfl
    rw [lanes,hlen] at hresult
    split_ifs at hresult with h
    · obtain ⟨m,hm,hrest⟩ := ih (data.drop (4*k)).length (by rw [length_drop]; omega)
        (data.drop (4*k)) rfl
      have htake : (data.take (4*k)).length = 4*k := by
        rw [length_take]
        omega
      have hhead : (data.take (4*k)).zipWith (· ^^^ ·) (key.pattern phase (4*k)) =
          key.mask phase (data.take (4*k)) := by
        have hz := key.zipWith_pattern phase (data.take (4*k))
        rwa [htake] at hz
      rw [hresult]
      refine ⟨k+m,?_,?_⟩
      · rw [length_append,hm,hhead,length_mask,htake]
        omega
      · rw [append_assoc,hrest,hhead]
        conv_rhs => rw [← take_append_drop (4*k) data,mask_append,htake,mask_add_mul]
    · rw [hresult]
      exact ⟨0,rfl,rfl⟩

theorem apply_eq : key.apply offset data = key.mask offset data := by
  rw [← mask_mod]
  obtain ⟨m,hm,hwide⟩ := key.lanes_spec (offset%4) 4 data
  obtain ⟨n,hn,hwords⟩ := key.lanes_spec (offset%4) 1 (lanes (key.pattern (offset%4) 16) data).2
  rw [apply]
  dsimp only at hm hwide hn hwords ⊢
  rw [← hwide,← hwords,← append_assoc,hm,hn,← Nat.mul_add]
  congr 1
  rw [← mask_add_mul _ _ (m+n),mask]
  congr 1
  funext j b
  rw [Nat.add_assoc]

theorem apply_append (a b : List UInt8) :
    key.apply offset (a ++ b) = key.apply offset a ++ key.apply (offset+a.length) b := by
  simp only [apply_eq,mask_append]

theorem apply_apply : key.apply offset (key.apply offset data) = data := by
  simp only [apply_eq,mask_mask]

@[simp] theorem length_apply : (key.apply offset data).length = data.length := by
  rw [apply_eq,length_mask]

/-- Pieces one after the other, each with the offset at which it starts. -/
def applyPieces (key : MaskKey) : ℕ → List (List UInt8) → List UInt8
  | _, [] => []
  | offset, piece :: pieces =>
    key.apply offset piece ++ applyPieces key (offset + piece.length) pieces

theorem applyPieces_eq (pieces : List (List UInt8)) :
    key.applyPieces offset pieces = key.apply offset pieces.flatten := by
  induction pieces generalizing offset with
  | nil => rw [apply_eq]; rfl
  | cons piece pieces ih => rw [applyPieces,ih,flatten_cons,apply_append]

end MaskKey

/-! ### Close payloads -/

namespace Close

def normal : ℕ := 1000

def protocolError : ℕ := 1002

def invalidPayload : ℕ := 1007

def isValidReceived (code : ℕ) : Bool :=
  (1000 ≤ code ∧ code ≤ 1003) ∨ (1007 ≤ code ∧ code ≤ 1014) ∨ (3000 ≤ code ∧ code ≤ 4999)

def isValidToSend (code : ℕ) : Bool :=
  (1000 ≤ code ∧ code ≤ 1003) ∨ (1007 ≤ code ∧ code ≤ 1014) ∨ (3000 ≤ code ∧ code ≤ 4999)

def containsText (text part : String) : Bool :=
  text.toList.tails.any fun rest => part.toList.isPrefixOf rest

def failureCode (e : Error) : ℕ :=
  if (e.message.map fun m => containsText m "UTF-8").getD false then invalidPayload
  else protocolError

end Close

/-- `CloseFrame`, with its reason as octets. -/
structure CloseFrame where
  code : ℕ
  reason : List UInt8
  deriving DecidableEq

namespace Close

def parse : List UInt8 → Except Error (Option CloseFrame)
  | [] => .ok none
  | [_] => .error (Error.protocol "websocket: 1-byte close payload")
  | a :: b :: reason =>
    let code := beNat [a, b]
    if isValidReceived code = false then .error (Error.protocol "websocket: invalid close code")
    else if validate reason = false then
      .error (Error.protocol "websocket: close reason is not UTF-8")
    else if isUtf8 reason = false then
      .error (Error.protocol "websocket: close reason is not UTF-8")
    else .ok (some ⟨code, reason⟩)

end Close

end Courierust.Ws
