import Courierust.Grpc.Call

/-!
# Timeouts

`grpc_timeout`, and what `Deadline::parse` makes of its text.
-/

namespace Courierust.Grpc

open Http
open Str (Text)

/-- `grpc_timeout`, of a duration in nanoseconds. -/
def grpcTimeout (d : ℕ) : Text :=
  let secs := d / 1000000000
  if d = 0 then "1n".toList
  else if 0 < secs / 3600 then Nat.toDigits 10 (secs / 3600) ++ ['H']
  else if 0 < secs / 60 then Nat.toDigits 10 (secs / 60) ++ ['M']
  else if 0 < secs then Nat.toDigits 10 secs ++ ['S']
  else if 0 < d / 1000000 then Nat.toDigits 10 (d / 1000000) ++ ['m']
  else if 0 < d / 1000 then Nat.toDigits 10 (d / 1000) ++ ['u']
  else Nat.toDigits 10 d ++ ['n']

def hour : ℕ := 3600000000000

/-- A whole number, of at most eight digits, of a unit. -/
def Whole (d : ℕ) : Prop :=
  ∃ n ≤ 99999999, ∃ unit ∈ [hour, 60000000000, 1000000000, 1000000, 1000, 1], d = n * unit

/-- The coarsest unit below an hour that is not longer than the duration. -/
def coarsest (d : ℕ) : ℕ :=
  if 60000000000 ≤ d then 60000000000
  else if 1000000000 ≤ d then 1000000000
  else if 1000000 ≤ d then 1000000
  else if 1000 ≤ d then 1000
  else 1

/-- A whole duration is read as it was written, any other one as no longer than it was. -/
def RoundTrips (d : ℕ) : Prop := ∀ (headers : HeaderMap) (now : ℕ),
  headers.get "grpc-timeout".toList = some (.text (grpcTimeout d)) →
    (Whole d → parseDeadline headers now = .deadline (some (now + d))) ∧
    (¬ Whole d → d < 100000000 * hour →
      ∃ e ≤ d, parseDeadline headers now = .deadline (some (now + e)))

theorem parseDeadline_text {headers : HeaderMap} {n nanos : ℕ} {unit : Char}
    (hget : headers.get "grpc-timeout".toList = some (.text (Nat.toDigits 10 n ++ [unit])))
    (hn : n ≤ 99999999) (hunit : timeoutUnit unit = some nanos) (now : ℕ) :
    parseDeadline headers now = .deadline (some (now+n*nanos)) := by
  have hlen : ¬ ((Nat.toDigits 10 n ++ [unit]).flatMap String.utf8EncodeChar).length < 2 := by
    obtain ⟨c,rest,hdigits⟩ := List.exists_cons_of_ne_nil (Nat.toDigits_ne_nil (b := 10) (n := n))
    have hc := c.utf8Size_pos
    have hlast := unit.utf8Size_pos
    simp only [hdigits,List.cons_append,List.flatMap_cons,List.flatMap_append,List.flatMap_nil,
      List.length_append,List.length_nil,String.length_utf8EncodeChar]
    omega
  have hascii : ¬ 0x80 ≤ unit.toNat := by
    intro hhigh
    rw [timeoutUnit] at hunit
    split_ifs at hunit <;> subst unit <;> revert hhigh <;> decide
  have hparse := parseUnsigned_toDigits (show n ≤ 18446744073709551615 by omega)
  rw [parseDeadline,hget]
  simp only [HeaderValue.toStr,if_neg hlen]
  simp [hascii,hparse,hn,hunit]

theorem grpcTimeout_eq {d : ℕ} (hd : 0 < d) (hmax : d < 100000000*hour) :
    ∃ n unit nanos, grpcTimeout d = Nat.toDigits 10 n ++ [unit] ∧ n ≤ 99999999 ∧
      timeoutUnit unit = some nanos ∧ n*nanos ≤ d ∧
      (n*nanos = d ↔ d < hour ∧ coarsest d ∣ d) := by
  rw [hour] at hmax ⊢
  rw [grpcTimeout,coarsest,if_neg hd.ne']
  split_ifs
  any_goals omega
  · exact ⟨_,'H',1000000000,rfl,by omega,rfl,by omega,by omega⟩
  · exact ⟨_,'M',60*1000000000,rfl,by omega,rfl,by omega,by omega⟩
  · exact ⟨_,'S',1000000000,rfl,by omega,rfl,by omega,by omega⟩
  · exact ⟨_,'m',1000000,rfl,by omega,rfl,by omega,by omega⟩
  · exact ⟨_,'u',1000,rfl,by omega,rfl,by omega,by omega⟩
  · exact ⟨_,'n',1,rfl,by omega,rfl,by omega,by omega⟩

theorem Whole.lt {d : ℕ} (h : Whole d) : d < 100000000*hour := by
  obtain ⟨n,hn,unit,hunit,rfl⟩ := h
  simp only [hour,List.mem_cons,List.not_mem_nil,or_false] at hunit ⊢
  rcases hunit with rfl | rfl | rfl | rfl | rfl | rfl <;> omega

/-- A timeout round-trips unless it is whole and lasts an hour or is no multiple of its unit. -/
theorem timeout_roundtrip_iff {d : ℕ} (hd : 0 < d) :
    RoundTrips d ↔ (Whole d → d < hour ∧ coarsest d ∣ d) := by
  constructor
  · intro h hwhole
    obtain ⟨n,unit,nanos,heq,hn,hunit,-,hexact⟩ := grpcTimeout_eq hd hwhole.lt
    have hget : (({} : HeaderMap).insert "grpc-timeout".toList (.text (grpcTimeout d))).get
        "grpc-timeout".toList = some (.text (grpcTimeout d)) := by
      rw [HeaderMap.get_eq_head?,HeaderMap.getAll_insert,if_pos (by decide),List.head?_cons]
    have hread := (h _ 0 hget).1 hwhole
    rw [heq] at hget
    rw [heq,parseDeadline_text hget hn hunit] at hread
    refine hexact.1 ?_
    simpa using hread
  · intro h headers now hget
    refine ⟨fun hwhole => ?_,fun _ hmax => ?_⟩
    · obtain ⟨n,unit,nanos,heq,hn,hunit,-,hexact⟩ := grpcTimeout_eq hd hwhole.lt
      rw [parseDeadline_text (heq ▸ hget) hn hunit,hexact.2 (h hwhole)]
    · obtain ⟨n,unit,nanos,heq,hn,hunit,hle,-⟩ := grpcTimeout_eq hd hmax
      exact ⟨_,hle,parseDeadline_text (heq ▸ hget) hn hunit now⟩

theorem timeout_roundtrip_second : RoundTrips 1000000000 :=
  (timeout_roundtrip_iff (by decide)).2 fun _ => ⟨by decide, by decide⟩

/-- An hour is written `1H`, which is read as a second. -/
theorem hour_read_as_second : grpcTimeout hour = "1H".toList ∧ ¬ RoundTrips hour := by
  refine ⟨by decide,fun h => ?_⟩
  have hread := (h ⟨[("grpc-timeout".toList,.text "1H".toList)]⟩ 0 (by decide)).1
    ⟨1,by decide,hour,by decide,by decide⟩
  have hsecond : parseDeadline ⟨[("grpc-timeout".toList,.text "1H".toList)]⟩ 0 =
      .deadline (some 1000000000) := rfl
  exact absurd (Option.some.inj (ParsedDeadline.deadline.inj (hsecond.symm.trans hread))) (by decide)

end Courierust.Grpc
