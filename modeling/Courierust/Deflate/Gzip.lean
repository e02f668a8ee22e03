import Courierust.Lib.BigEndian
import Courierust.Deflate.Roundtrip

/-!
# The gzip container

`gzip` wraps one DEFLATE stream with a checksum and a size; `gunzip` walks the optional
fields of the header, inflates what lies before the trailer and checks both. The last section
puts the round trips of the crate together: one-shot streams, containers, and the messages of
one compressor.
-/

namespace Courierust.Deflate

open List
open BigEndian

/-! ### Checksum -/

def crcShift (entry : UInt32) : UInt32 :=
  if entry &&& 1 ≠ 0 then (0xedb88320 : UInt32) ^^^ (entry >>> 1) else entry >>> 1

/-- The table that `crc32` builds. -/
def crcTable : List UInt32 := (List.range 256).map fun i => crcShift^[8] (UInt32.ofNat i)

def crc32 (data : List UInt8) : UInt32 :=
  ~~~ data.foldl (fun crc b =>
    crcTable.getD ((crc ^^^ b.toUInt32) &&& 0xff).toNat 0 ^^^ (crc >>> 8)) 0xffffffff

/-- The check value of the polynomial. -/
example : crc32 [0x31, 0x32, 0x33, 0x34, 0x35, 0x36, 0x37, 0x38, 0x39] = 0xcbf43926 := by
  decide +kernel

/-! ### Container -/

/-- `u32::to_le_bytes`, of a number reduced by `as u32`. -/
def leBytes32 (n : ℕ) : List UInt8 := (beBytes 4 (n % 2 ^ 32)).reverse

/-- `u32::from_le_bytes` of the four octets at `pos`. -/
def leNat32 (data : List UInt8) (pos : ℕ) : ℕ := beNat ((data.drop pos).take 4).reverse

/-- `gzip`: magic, method, flags, time, extra flags and system, then the stream and the trailer. -/
def gzip (data : List UInt8) : List UInt8 :=
  [0x1f, 0x8b, 8, 0, 0, 0, 0, 0, 2, 0xff] ++ deflate data ++ leBytes32 (crc32 data).toNat ++
    leBytes32 data.length

def skipCstring (data : List UInt8) (pos : ℕ) (what : String) : Except Error ℕ :=
  if pos < data.length then
    if data.getD pos 0 = 0 then .ok (pos + 1) else skipCstring data (pos + 1) what
  else .error (Error.protocol ("gzip: truncated " ++ what))
termination_by data.length - pos

def skipExtra (data : List UInt8) (pos : ℕ) : Except Error ℕ :=
  if data.length < pos + 2 then .error (Error.protocol "gzip: truncated extra field")
  else
    let xlen := (data.getD pos 0).toNat + 256 * (data.getD (pos + 1) 0).toNat
    if data.length < pos + (2 + xlen) then .error (Error.protocol "gzip: truncated extra field")
    else .ok (pos + (2 + xlen))

def streamStart (data : List UInt8) (flg : UInt8) : Except Error ℕ := do
  let pos ← if flg &&& 0x04 ≠ 0 then skipExtra data 10 else pure 10
  let pos ← if flg &&& 0x08 ≠ 0 then skipCstring data pos "file name" else pure pos
  let pos ← if flg &&& 0x10 ≠ 0 then skipCstring data pos "comment" else pure pos
  if flg &&& 0x02 ≠ 0 then
    if data.length < pos + 2 then .error (Error.protocol "gzip: truncated header crc")
    else pure (pos + 2)
  else pure pos

/-- What `gunzip` does from the stream on. -/
def openStream (data : List UInt8) (pos maxOut : ℕ) : Except Error (List UInt8) :=
  if data.length < pos + 8 then .error (Error.protocol "gzip: truncated trailer")
  else
    let bodyEnd := data.length - 8
    let expectedCrc := leNat32 data bodyEnd
    let expectedSize := leNat32 data (bodyEnd + 4)
    if bodyEnd < pos then .error (Error.protocol "gzip: truncated body")
    else do
      let out ← inflate ((data.drop pos).take (bodyEnd - pos)) maxOut
      if out.length % 2 ^ 32 ≠ expectedSize then .error (Error.protocol "gzip: size mismatch")
      else if (crc32 out).toNat ≠ expectedCrc then .error (Error.protocol "gzip: crc mismatch")
      else .ok out

def gunzip (data : List UInt8) (maxOut : ℕ) : Except Error (List UInt8) :=
  if data.length < 18 ∨ data.getD 0 0 ≠ 0x1f ∨ data.getD 1 0 ≠ 0x8b then
    .error (Error.protocol "gzip: bad magic")
  else if data.getD 2 0 ≠ 8 then .error (Error.protocol "gzip: unsupported compression method")
  else if data.getD 3 0 &&& 0xe0 ≠ 0 then .error (Error.protocol "gzip: reserved flags set")
  else do
    let pos ← streamStart data (data.getD 3 0)
    openStream data pos maxOut

@[simp] theorem length_leBytes32 (n : ℕ) : (leBytes32 n).length = 4 := by
  rw [leBytes32,length_reverse,length_beBytes]

theorem leNat32_leBytes32 {n : ℕ} (front rest : List UInt8) :
    leNat32 (front ++ (leBytes32 n ++ rest)) front.length = n%2^32 := by
  have hfour : ((front ++ (leBytes32 n ++ rest)).drop front.length).take 4 = leBytes32 n := by
    rw [drop_left,take_append_of_le_length (length_leBytes32 n).ge,
      take_of_length_le (length_leBytes32 n).le]
  rw [leNat32,hfour,leBytes32,reverse_reverse]
  exact beNat_beBytes (Nat.mod_lt _ (by decide))

theorem openStream_trailer (header : List UInt8) {stream data : List UInt8} {maxOut : ℕ}
    (h : inflate stream maxOut = .ok data) :
    openStream (header ++ stream ++ leBytes32 (crc32 data).toNat ++ leBytes32 data.length)
      header.length maxOut = .ok data := by
  obtain ⟨front,hfront⟩ : ∃ front, front = header ++ stream := ⟨_,rfl⟩
  have hcrc := leNat32_leBytes32 (n := (crc32 data).toNat) front (leBytes32 data.length)
  have hsize := leNat32_leBytes32 (n := data.length) (front ++ leBytes32 (crc32 data).toNat) []
  rw [append_nil,append_assoc] at hsize
  rw [length_append,length_leBytes32] at hsize
  have hlen : (front ++ (leBytes32 (crc32 data).toNat ++ leBytes32 data.length)).length =
      front.length+8 := by
    simp
  have hbody : header.length ≤ front.length := by
    rw [hfront,length_append]
    omega
  have hstream : ((front ++ (leBytes32 (crc32 data).toNat ++ leBytes32 data.length)).drop
      header.length).take (front.length-header.length) = stream := by
    rw [hfront,append_assoc,drop_left,length_append,Nat.add_sub_cancel_left,
      take_left]
  rw [append_assoc,← hfront,openStream,hlen,if_neg (by omega)]
  simp only [Nat.add_sub_cancel]
  rw [if_neg (by omega),hstream,h,hcrc,hsize,Nat.mod_eq_of_lt (crc32 data).toNat_lt]
  simp [bind,Except.bind]

theorem gunzip_gzip (data : List UInt8) {maxOut : ℕ} (hout : data.length ≤ maxOut) :
    gunzip (gzip data) maxOut = .ok data := by
  have hlen : 18 ≤ (gzip data).length := by
    simp only [gzip,length_append,length_leBytes32,length_cons]
    omega
  have hopen := openStream_trailer [0x1f,0x8b,8,0,0,0,0,0,2,0xff] (inflate_deflate data hout)
  rw [gunzip,if_neg]
  · change (if (8 : UInt8) ≠ 8 then _ else if (0 : UInt8) &&& 0xe0 ≠ 0 then _ else
      streamStart (gzip data) 0 >>= _) = _
    exact hopen
  · rintro (hshort | hmagic | hmagic)
    · omega
    · exact hmagic rfl
    · exact hmagic rfl

/-! ### Messages of one compressor -/

def Deflater.messages : Deflater → List (List UInt8) → List (List UInt8 × Option (List UInt8))
  | _, [] => []
  | d, message :: rest =>
    let (encoded, d) := d.deflateMessage message
    (message, encoded) :: d.messages rest

theorem Deflater.Valid.messages {d : Deflater} (hd : d.Valid) {sent : List (List UInt8)}
    {message encoded : List UInt8} (hmem : (message,some encoded) ∈ d.messages sent)
    (hsmall : message.length ≤ 2^32) {inf : Inflater} (hbits : d.windowBits ≤ inf.windowBits)
    {maxOut : ℕ} (hout : message.length ≤ maxOut) :
    inf.inflateMessage encoded maxOut = (.ok message,inf.absorb message) := by
  induction sent generalizing d with
  | nil => cases hmem
  | cons first rest ih =>
    obtain ⟨hvalid,hsame,-⟩ := hd.deflateMessage first
    rcases hcall : d.deflateMessage first with ⟨result,d'⟩
    rw [hcall] at hvalid hsame
    simp only [Deflater.messages,hcall,mem_cons,Prod.mk.injEq] at hmem
    rcases hmem with ⟨rfl,rfl⟩ | hmem
    · exact inflateMessage_deflateMessage hd hcall (.inr hsmall) hbits hout
    · exact ih hvalid hmem (hsame.le.trans hbits)

theorem Deflater.windowBits_setWindowBits (d : Deflater) {bits : ℕ} (hlo : 8 ≤ bits)
    (hhi : bits ≤ 15) : (d.setWindowBits bits).windowBits = bits := by
  have hclamp : clampBits bits = bits := by
    simp only [clampBits]
    omega
  simp only [Deflater.setWindowBits,hclamp]
  split_ifs with hne
  · rfl
  · exact (not_not.1 hne).symm

/-- What is compressed is decompressed: one-shot streams and containers of any size, and the
messages of one compressor with any of the windows that can be negotiated, whatever was sent
before them and whatever the decompressor with the same window keeps of earlier messages. -/
theorem compression_round_trips (data : List UInt8) (maxOut : ℕ) (hout : data.length ≤ maxOut) :
    inflate (deflate data) maxOut = .ok data ∧ gunzip (gzip data) maxOut = .ok data ∧
      ∀ threshold bits : ℕ, 8 ≤ bits → bits ≤ 15 → data.length < 2 ^ 32 - 1 →
        ∀ sent encoded,
          (data, some encoded) ∈
            ((({} : Deflater).setThreshold threshold).setWindowBits bits).messages sent →
          ∀ inf : Inflater, inf.windowBits = bits →
            (inf.inflateMessage encoded maxOut).1 = .ok data := by
  refine ⟨inflate_deflate data hout,gunzip_gzip data hout,?_⟩
  intro threshold bits hlo hhi hsmall sent encoded hmem inf hinf
  have hbits := Deflater.windowBits_setWindowBits (({} : Deflater).setThreshold threshold) hlo hhi
  have hvalid := (Deflater.valid_default.setThreshold threshold).setWindowBits bits
  rw [hvalid.messages hmem (by omega) (hbits.trans hinf.symm).le hout]

/-- Sixteen equal octets, sent a second time with the smallest window. -/
theorem compression_round_trips_sixteen :
    ((List.replicate 16 7 : List UInt8), some [98, 71, 3, 0, 0]) ∈
        ((({} : Deflater).setThreshold 0).setWindowBits 8).messages
          [List.replicate 16 7, List.replicate 16 7] ∧
      ((Inflater.new 8).inflateMessage [98, 71, 3, 0, 0] 16).1 = .ok (List.replicate 16 7) := by
  have hmem : ((replicate 16 7 : List UInt8),some [98,71,3,0,0]) ∈
      ((({} : Deflater).setThreshold 0).setWindowBits 8).messages
        [replicate 16 7,replicate 16 7] := by decide +kernel
  exact ⟨hmem,(compression_round_trips (replicate 16 7) 16 (by decide)).2.2 0 8 (by decide)
    (by decide) (by decide) _ _ hmem (Inflater.new 8) rfl⟩

end Courierust.Deflate
