import Courierust.Http.Header
import Courierust.Num

/-!
# HPACK indexing tables

Model of `courierust_hpack::table` (RFC 7541 §2.3, §4): the static table, the dynamic
table with its eviction, and the one index space over both.
-/

namespace Courierust.Hpack

open List
open Http (ascii)

def fnv1a (data : List UInt8) : UInt64 :=
  data.foldl (fun h b => (h ^^^ b.toUInt64) * 0x100000001b3) 0xcbf29ce484222325

/-- RFC 7541 Appendix A; index 1 is the first entry. -/
def STATIC_TABLE : List (List UInt8 × List UInt8) := [
    (ascii ":authority", ascii ""), (ascii ":method", ascii "GET"),
    (ascii ":method", ascii "POST"), (ascii ":path", ascii "/"),
    (ascii ":path", ascii "/index.html"), (ascii ":scheme", ascii "http"),
    (ascii ":scheme", ascii "https"), (ascii ":status", ascii "200"),
    (ascii ":status", ascii "204"), (ascii ":status", ascii "206"),
    (ascii ":status", ascii "304"), (ascii ":status", ascii "400"),
    (ascii ":status", ascii "404"), (ascii ":status", ascii "500"),
    (ascii "accept-charset", ascii ""), (ascii "accept-encoding", ascii "gzip, deflate"),
    (ascii "accept-language", ascii ""), (ascii "accept-ranges", ascii ""),
    (ascii "accept", ascii ""), (ascii "access-control-allow-origin", ascii ""),
    (ascii "age", ascii ""), (ascii "allow", ascii ""), (ascii "authorization", ascii ""),
    (ascii "cache-control", ascii ""), (ascii "content-disposition", ascii ""),
    (ascii "content-encoding", ascii ""), (ascii "content-language", ascii ""),
    (ascii "content-length", ascii ""), (ascii "content-location", ascii ""),
    (ascii "content-range", ascii ""), (ascii "content-type", ascii ""),
    (ascii "cookie", ascii ""), (ascii "date", ascii ""), (ascii "etag", ascii ""),
    (ascii "expect", ascii ""), (ascii "expires", ascii ""), (ascii "from", ascii ""),
    (ascii "host", ascii ""), (ascii "if-match", ascii ""), (ascii "if-modified-since", ascii ""),
    (ascii "if-none-match", ascii ""), (ascii "if-range", ascii ""),
    (ascii "if-unmodified-since", ascii ""), (ascii "last-modified", ascii ""),
    (ascii "link", ascii ""), (ascii "location", ascii ""), (ascii "max-forwards", ascii ""),
    (ascii "proxy-authenticate", ascii ""), (ascii "proxy-authorization", ascii ""),
    (ascii "range", ascii ""), (ascii "referer", ascii ""), (ascii "refresh", ascii ""),
    (ascii "retry-after", ascii ""), (ascii "server", ascii ""), (ascii "set-cookie", ascii ""),
    (ascii "strict-transport-security", ascii ""), (ascii "transfer-encoding", ascii ""),
    (ascii "user-agent", ascii ""), (ascii "vary", ascii ""), (ascii "via", ascii ""),
    (ascii "www-authenticate", ascii "")]

def STATIC_NAME_HASH : List UInt64 := STATIC_TABLE.map fun (name, _) => fnv1a name

def STATIC_LEN : ℕ := 61

structure DynEntry where
  name : List UInt8
  value : List UInt8
  hash : UInt64
  size : ℕ
  deriving DecidableEq

structure DynamicTable where
  entries : List DynEntry
  size : ℕ
  maxSize : ℕ
  deriving DecidableEq

namespace DynamicTable

def default : DynamicTable := ⟨[], 0, 4096⟩

/-- The loop of `evict_to`, at most once per entry. -/
def evictFrom (budget : ℕ) : ℕ → DynamicTable → DynamicTable
  | 0, t => t
  | fuel + 1, t =>
    if budget < t.size then
      match t.entries.getLast? with
      | none => t
      | some e =>
        evictFrom budget fuel { t with entries := t.entries.dropLast, size := t.size - e.size }
    else t

/-- `evict_to`: the oldest entries go until the table fits `budget`. -/
def evictTo (t : DynamicTable) (budget : ℕ) : DynamicTable := evictFrom budget t.entries.length t

def setMaxSize (t : DynamicTable) (max : ℕ) : DynamicTable :=
  evictTo { t with maxSize := max } max

def clear (t : DynamicTable) : DynamicTable := { t with entries := [], size := 0 }

/-- `insert`: an entry larger than the table empties it. -/
def insert (t : DynamicTable) (name value : List UInt8) : DynamicTable :=
  let entrySize := name.length + value.length + 32
  if t.maxSize < entrySize then t.clear
  else
    let t := t.evictTo (t.maxSize - entrySize)
    { t with
      entries := ⟨name, value, fnv1a name, entrySize⟩ :: t.entries
      size := t.size + entrySize }

/-- `get`: the entry at a 0-based index. -/
def get (t : DynamicTable) (i : ℕ) : Option (List UInt8 × List UInt8) :=
  t.entries[i]?.map fun e => (e.name, e.value)

def findFull (t : DynamicTable) (name value : List UInt8) : Option ℕ :=
  t.entries.findIdx? fun e => e.hash == fnv1a name && e.name == name && e.value == value

def findName (t : DynamicTable) (name : List UInt8) : Option ℕ :=
  t.entries.findIdx? fun e => e.hash == fnv1a name && e.name == name

end DynamicTable

structure Table where
  dynTable : DynamicTable
  deriving DecidableEq

namespace Table

def default : Table := ⟨DynamicTable.default⟩

/-- `get`: resolve a global index. -/
def get (t : Table) (index : ℕ) : Option (List UInt8 × List UInt8) :=
  if index = 0 then none
  else if index ≤ STATIC_LEN then STATIC_TABLE[index - 1]?
  else t.dynTable.get (index - STATIC_LEN - 1)

/-- `find_name`: the dynamic table first. -/
def findName (t : Table) (name : List UInt8) : Option ℕ :=
  match t.dynTable.findName name with
  | some d => some (STATIC_LEN + 1 + d)
  | none =>
    ((STATIC_TABLE.zip STATIC_NAME_HASH).findIdx? fun ((n, _), h) =>
      h == fnv1a name && n == name).map (· + 1)

/-- `find_full`: the dynamic table first. -/
def findFull (t : Table) (name value : List UInt8) : Option ℕ :=
  match t.dynTable.findFull name value with
  | some d => some (STATIC_LEN + 1 + d)
  | none =>
    ((STATIC_TABLE.zip STATIC_NAME_HASH).findIdx? fun ((n, v), h) =>
      h == fnv1a name && n == name && v == value).map (· + 1)

end Table

/-! ### Occupancy -/

/-- The occupied size is the sum of the entry sizes and within the capacity, and an
    entry takes at least the 32 octets of overhead. -/
structure DynamicTable.Valid (t : DynamicTable) : Prop where
  size_eq : t.size = (t.entries.map DynEntry.size).sum
  size_le : t.size ≤ t.maxSize
  overhead : ∀ e ∈ t.entries, 32 ≤ e.size

namespace DynamicTable

theorem valid_default : default.Valid := ⟨rfl,by simp [default],by simp [default]⟩

/-- What eviction leaves: the accounting, the capacity, and a table within the budget. -/
theorem evictFrom_spec (budget fuel : ℕ) (t : DynamicTable) (hfuel : t.entries.length ≤ fuel)
    (hsize : t.size = (t.entries.map DynEntry.size).sum) (hover : ∀ e ∈ t.entries, 32 ≤ e.size) :
    let t' := evictFrom budget fuel t
    t'.size = (t'.entries.map DynEntry.size).sum ∧ t'.size ≤ budget ∧
      t'.maxSize = t.maxSize ∧ ∀ e ∈ t'.entries, 32 ≤ e.size := by
  induction fuel generalizing t with
  | zero =>
    have hnil : t.entries = [] := length_eq_zero_iff.1 (by omega)
    simp [evictFrom,hnil,hsize]
  | succ fuel ih =>
    unfold evictFrom
    split_ifs with hbig
    · cases hlast : t.entries.getLast? with
      | none =>
        have hnil : t.entries = [] := by simpa using hlast
        simp [hnil] at hsize
        omega
      | some e =>
        have hsplit : t.entries = t.entries.dropLast ++ [e] :=
          (dropLast_append_getLast? e hlast).symm
        have hsum : (t.entries.map DynEntry.size).sum =
            (t.entries.dropLast.map DynEntry.size).sum+e.size := by
          conv_lhs => rw [hsplit]
          simp
        refine ih { t with entries := t.entries.dropLast, size := t.size-e.size } ?_ ?_ ?_
        · simp only [length_dropLast]
          omega
        · simp only
          omega
        · exact fun x hx => hover x (dropLast_subset _ hx)
    · exact ⟨hsize,by omega,rfl,hover⟩

variable {t : DynamicTable}

theorem Valid.setMaxSize (h : t.Valid) (max : ℕ) :
    (t.setMaxSize max).Valid ∧ (t.setMaxSize max).maxSize = max := by
  obtain ⟨hsize,hle,hmax,hover⟩ :=
    evictFrom_spec max _ { t with maxSize := max } le_rfl h.size_eq h.overhead
  exact ⟨⟨hsize,hle.trans_eq hmax.symm,hover⟩,hmax⟩

theorem Valid.insert (h : t.Valid) (name value : List UInt8) :
    (t.insert name value).Valid ∧ (t.insert name value).maxSize = t.maxSize := by
  simp only [DynamicTable.insert]
  split_ifs with hbig
  · exact ⟨⟨by simp [clear],by simp [clear],by simp [clear]⟩,rfl⟩
  obtain ⟨hsize,hle,hmax,hover⟩ :=
    evictFrom_spec (t.maxSize-(name.length+value.length+32)) _ t le_rfl h.size_eq h.overhead
  refine ⟨⟨?_,?_,?_⟩,hmax⟩
  · simp only [evictTo,map_cons,sum_cons,hsize]
    omega
  · simp only [evictTo,hmax]
    omega
  · simp only [mem_cons,forall_eq_or_imp]
    exact ⟨by omega,hover⟩

theorem Valid.length_le (h : t.Valid) : 32*t.entries.length ≤ t.maxSize := by
  have hsum : 32*t.entries.length ≤ (t.entries.map DynEntry.size).sum := by
    have := card_nsmul_le_sum (t.entries.map DynEntry.size) 32 (by
      simpa using fun e he => h.overhead e he)
    simpa [Nat.mul_comm] using this
  have := h.size_le
  have := h.size_eq
  omega

end DynamicTable

/-! ### Looking up what was found -/

namespace Table

variable {t : Table}

private theorem get_dynamic {d : ℕ} {e : DynEntry} (h : t.dynTable.entries[d]? = some e) :
    t.get (STATIC_LEN+1+d) = some (e.name,e.value) := by
  have hidx : STATIC_LEN+1+d-STATIC_LEN-1 = d := by omega
  simp [get,DynamicTable.get,hidx,h]
  omega

private theorem get_static {i : ℕ} {e : List UInt8 × List UInt8} {h : UInt64}
    (he : (STATIC_TABLE.zip STATIC_NAME_HASH)[i]? = some (e,h)) :
    t.get (i+1) = some e ∧ i+1 ≤ STATIC_LEN := by
  have hget : STATIC_TABLE[i]? = some e := (getElem?_zip_eq_some.1 he).1
  have hlt : i < STATIC_LEN := by
    exact (List.getElem?_eq_some_iff.1 hget).1
  simp [get,show i+1 ≤ STATIC_LEN by omega,hget]

private theorem getElem_of_findIdx {α : Type} {p : α → Bool} {l : List α} {i : ℕ}
    (h : l.findIdx? p = some i) : ∃ e, l[i]? = some e ∧ p e = true ∧ i < l.length := by
  obtain ⟨hlt,hp,-⟩ := findIdx?_eq_some_iff_getElem.1 h
  exact ⟨l[i],getElem?_eq_getElem hlt,hp,hlt⟩

theorem get_of_findFull {name value : List UInt8} {idx : ℕ} (h : t.findFull name value = some idx) :
    t.get idx = some (name,value) ∧ 0 < idx ∧ idx ≤ STATIC_LEN+t.dynTable.entries.length := by
  unfold findFull at h
  split at h
  · next d hd =>
    obtain rfl : STATIC_LEN+1+d = idx := by simpa using h
    obtain ⟨e,he,hmatch,hlt⟩ := getElem_of_findIdx hd
    simp only [Bool.and_eq_true,beq_iff_eq] at hmatch
    refine ⟨?_,by omega,by omega⟩
    rw [get_dynamic he,hmatch.1.2,hmatch.2]
  · obtain ⟨i,hi,rfl⟩ := Option.map_eq_some_iff.1 h
    obtain ⟨⟨⟨n,v⟩,hash⟩,he,hmatch,-⟩ := getElem_of_findIdx hi
    simp only [Bool.and_eq_true,beq_iff_eq] at hmatch
    obtain ⟨hget,hle⟩ := get_static he
    refine ⟨?_,by omega,by omega⟩
    rw [hget,hmatch.1.2,hmatch.2]

theorem get_of_findName {name : List UInt8} {idx : ℕ} (h : t.findName name = some idx) :
    (∃ value, t.get idx = some (name,value)) ∧ 0 < idx ∧
      idx ≤ STATIC_LEN+t.dynTable.entries.length := by
  unfold findName at h
  split at h
  · next d hd =>
    obtain rfl : STATIC_LEN+1+d = idx := by simpa using h
    obtain ⟨e,he,hmatch,hlt⟩ := getElem_of_findIdx hd
    simp only [Bool.and_eq_true,beq_iff_eq] at hmatch
    refine ⟨⟨e.value,?_⟩,by omega,by omega⟩
    rw [get_dynamic he,hmatch.2]
  · obtain ⟨i,hi,rfl⟩ := Option.map_eq_some_iff.1 h
    obtain ⟨⟨⟨n,v⟩,hash⟩,he,hmatch,-⟩ := getElem_of_findIdx hi
    simp only [Bool.and_eq_true,beq_iff_eq] at hmatch
    obtain ⟨hget,hle⟩ := get_static he
    refine ⟨⟨v,?_⟩,by omega,by omega⟩
    rw [hget,hmatch.2]

end Table

end Courierust.Hpack
