import Courierust.Hpack.HuffmanTable
import Courierust.Lib.Bits

/-!
# Table-driven Huffman coding

Model of `courierust_hpack::huffman` (RFC 7541 §5.2). The encoder shifts each code
into a 64-bit accumulator and drains whole octets from it. The decoder looks up
eight bits at a time in tables of 256 entries; a code longer than eight bits
descends through one table per eight bits.
-/

namespace Courierust.Hpack.Huffman

/-! ### Encoding -/

def codeOf (sym : ℕ) : ℕ × ℕ := HUFFMAN.getD sym (0, 0)

/-- The inner loop of `encode`: whole octets leave the accumulator from its high end.
    The octets pushed, and the number of bits left. -/
def drain (acc : ℕ) : ℕ → List UInt8 × ℕ
  | nbits + 8 => (UInt8.ofNat (acc >>> nbits) :: (drain acc nbits).1, (drain acc nbits).2)
  | nbits => ([], nbits)

/-- The loop of `encode` over the symbols, with the accumulator (a `u64`) and the number
    of its low bits that are pending. The last octet is filled up with ones. -/
def encodeFrom : List UInt8 → ℕ → ℕ → List UInt8
  | [], acc, nbits =>
    if 0 < nbits then [UInt8.ofNat ((acc <<< (8 - nbits)) ||| ((1 <<< (8 - nbits)) - 1))] else []
  | b :: src, acc, nbits =>
    let (code, len) := codeOf b.toNat
    let acc := ((acc <<< len) % 2 ^ 64) ||| code
    let (octets, nbits) := drain acc (nbits + len)
    octets ++ encodeFrom src acc nbits

/-- `encode`: the octets appended for `src`. -/
def encode (src : List UInt8) : List UInt8 := encodeFrom src 0 0

/-! ### Decoding tables -/

inductive Entry where
  | leaf (sym len : ℕ)
  | next (node : ℕ)
  | empty
  deriving DecidableEq

abbrev Level := ℕ → Entry

def Level.empty : Level := fun _ => .empty

/-- Write `e` to the `span` entries from `base` on. -/
def Level.fill (base span : ℕ) (e : Entry) (level : Level) : Level := fun i =>
  bif Nat.ble base i && Nat.blt i (base + span) then e else level i

/-- `levels[node][idx]`. -/
def entry (levels : List Level) (node idx : ℕ) : Entry := (levels.getD node Level.empty) idx

/-- The descent of `build_levels` for one code, of which `rem` bits are left: eight bits
    pick an entry, and an entry that is not a link yet becomes one to a fresh table.
    The tables, the table reached and the bits left for it. -/
def descend (code : ℕ) : ℕ → List Level → ℕ → List Level × ℕ × ℕ
  | rem + 9, levels, node =>
    let idx := (code >>> (rem + 1)) &&& 0xFF
    match entry levels node idx with
    | .next n => descend code (rem + 1) levels n
    | _ =>
      let n := levels.length
      let levels := (levels ++ [Level.empty]).modify node (Level.fill idx 1 (.next n))
      descend code (rem + 1) levels n
  | rem, levels, node => (levels, node, rem)

/-- The body of `build_levels` for one symbol: the entries that start with the last bits
    of the code all become its leaf. -/
def addSymbol (levels : List Level) (code len sym : ℕ) : List Level :=
  let (levels, node, rem) := descend code len levels 0
  let shift := 8 - rem
  let idxBase := (code &&& ((1 <<< rem) - 1)) <<< shift
  levels.modify node (Level.fill idxBase (1 <<< shift) (.leaf sym len))

def buildLevels : List Level :=
  HUFFMAN.zipIdx.foldl (fun levels ((code, len), sym) => addSymbol levels code len sym)
    [Level.empty]

/-! ### Decoding -/

inductive DecodeError where
  | invalidCode
  | eos
  | invalidPadding
  | outputLimit
  deriving DecidableEq

/-- `{e:?}`, the name of the error. -/
def DecodeError.debug : DecodeError → String
  | .invalidCode => "InvalidCode"
  | .eos => "Eos"
  | .invalidPadding => "InvalidPadding"
  | .outputLimit => "OutputLimit"

/-- `BitReader`: a position in octets and bits. -/
structure BitReader where
  data : List UInt8
  pos : ℕ
  bit : ℕ

/-- The loop of `peek`, with `left` bits still to take; every turn takes at least one. -/
def BitReader.peekFrom (data : List UInt8) : ℕ → ℕ → ℕ → ℕ → ℕ → ℕ
  | 0, _, _, _, v => v
  | _ + 1, 0, _, _, v => v
  | fuel + 1, left + 1, p, b, v =>
    let byte := (data.getD p 0).toNat
    let take := min (8 - b) (left + 1)
    let shift := 8 - b - take
    let v := (v <<< take) ||| ((byte >>> shift) &&& ((1 <<< take) - 1))
    if b + take = 8 then peekFrom data fuel (left + 1 - take) (p + 1) 0 v
    else peekFrom data fuel (left + 1 - take) p (b + take) v

/-- `peek`: the next `n` bits, without advancing. -/
def BitReader.peek (br : BitReader) (n : ℕ) : ℕ := peekFrom br.data n n br.pos br.bit 0

/-- `skip`: advance by `n` bits. -/
def BitReader.skip (br : BitReader) (n : ℕ) : BitReader :=
  { br with pos := br.pos + (br.bit + n) / 8, bit := (br.bit + n) % 8 }

def isPadding (br : BitReader) (remaining : ℕ) : Bool :=
  decide (remaining < 8) && br.peek remaining == (1 <<< remaining) - 1

/-- The loop of `decode_with`. Every turn consumes at least one bit or ends, so a fuel
    above the number of bits is never used up. -/
def decodeFrom (levels : List Level) (totalBits maxOut : ℕ) :
    ℕ → BitReader → ℕ → ℕ → ℕ → List UInt8 → Except DecodeError (List UInt8)
  | 0, _, _, _, _, _ => .error .invalidCode
  | fuel + 1, br, consumed, codeStart, node, out =>
    let remaining := totalBits - consumed
    if remaining = 0 then
      if node ≠ 0 then .error .invalidCode else .ok out
    else
      let windowBits := if remaining < 8 then remaining else 8
      match entry levels node (br.peek windowBits <<< (8 - windowBits)) with
      | .leaf sym len =>
        let codeEnd := codeStart + len
        if totalBits < codeEnd then
          if isPadding br remaining then .ok out else .error .invalidCode
        else if sym = EOS_SYMBOL then .error .eos
        else if maxOut ≤ out.length then .error .outputLimit
        else
          let out := out ++ [UInt8.ofNat sym]
          if consumed < codeEnd then
            decodeFrom levels totalBits maxOut fuel (br.skip (codeEnd - consumed)) codeEnd codeEnd 0
              out
          else decodeFrom levels totalBits maxOut fuel br consumed codeEnd 0 out
      | .next n =>
        if remaining < 8 then
          if isPadding br remaining then .ok out else .error .invalidCode
        else decodeFrom levels totalBits maxOut fuel (br.skip 8) (consumed + 8) codeStart n out
      | .empty => if isPadding br remaining then .ok out else .error .invalidCode

/-- `HuffmanDecoder::decode` into an empty buffer. -/
def decode (src : List UInt8) (maxOut : ℕ) : Except DecodeError (List UInt8) :=
  decodeFrom buildLevels (src.length * 8) maxOut (src.length * 8 + 1) ⟨src, 0, 0⟩ 0 0 0 []

end Courierust.Hpack.Huffman
