import Courierust.Http.Text

/-!
# Incremental UTF-8 validation

`Utf8Validator` finishes a character an earlier piece left open, hands the rest to
`str::from_utf8`, and goes back to its own state machine for what the library rejects. Fed
with pieces, it does what its state machine does octet by octet.
-/

namespace Courierust.Ws

open List
open Http (Utf8 isUtf8)

structure Utf8Error where
  offset : ℕ
  reason : String
  deriving DecidableEq

/-- `feed_byte`: the states are `0` (`start`), `1..=3` (`one` to `three`) and `4..=7`
(`e0`, `ed`, `f0`, `f4`). -/
def feedByte (state : Utf8) (b : UInt8) (offset : ℕ) : Except Utf8Error Utf8 :=
  match state with
  | .start =>
    if b ≤ 0x7f then .ok .start
    else if 0xc2 ≤ b ∧ b ≤ 0xdf then .ok .one
    else if (0xe1 ≤ b ∧ b ≤ 0xec) ∨ (0xee ≤ b ∧ b ≤ 0xef) then .ok .two
    else if b = 0xe0 then .ok .e0
    else if b = 0xed then .ok .ed
    else if b = 0xf0 then .ok .f0
    else if 0xf1 ≤ b ∧ b ≤ 0xf3 then .ok .three
    else if b = 0xf4 then .ok .f4
    else .error ⟨offset, "invalid lead byte"⟩
  | .one => continuation 0x80 0xbf "invalid continuation byte" .start
  | .two => continuation 0x80 0xbf "invalid continuation byte" .one
  | .three => continuation 0x80 0xbf "invalid continuation byte" .two
  | .e0 => continuation 0xa0 0xbf "overlong encoding" .one
  | .ed => continuation 0x80 0x9f "UTF-16 surrogate half is not a scalar value" .one
  | .f0 => continuation 0x90 0xbf "overlong encoding" .two
  | .f4 => continuation 0x80 0x8f "codepoint above U+10FFFF" .two
where
  /-- A continuation octet within its range. -/
  continuation (lo hi : UInt8) (reason : String) (next : Utf8) : Except Utf8Error Utf8 :=
    if b < lo ∨ hi < b then .error ⟨offset, reason⟩ else .ok next

def feedAll (state : Utf8) (offset : ℕ) : List UInt8 → Except Utf8Error Utf8
  | [] => .ok state
  | b :: bytes =>
    match feedByte state b offset with
    | .error e => .error e
    | .ok state => feedAll state (offset + 1) bytes

/-- `finish_open_character`: the state, and how many octets were used. -/
def finishOpenCharacter (state : Utf8) (offset : ℕ) : List UInt8 → Except Utf8Error (Utf8 × ℕ)
  | [] => .ok (state, offset)
  | b :: bytes =>
    if state = .start then .ok (state, offset)
    else
      match feedByte state b offset with
      | .error e => .error e
      | .ok state => finishOpenCharacter state (offset + 1) bytes

/-- `valid_up_to` of the error of `str::from_utf8`: the longest prefix that is UTF-8. -/
def validUpTo (bytes : List UInt8) : ℕ :=
  Nat.findGreatest (fun n => isUtf8 (bytes.take n) = true) bytes.length

def feed (state : Utf8) (bytes : List UInt8) : Except Utf8Error Utf8 :=
  match if state ≠ .start then finishOpenCharacter state 0 bytes else .ok (state, 0) with
  | .error e => .error e
  | .ok (state, start) =>
    let rest := bytes.drop start
    if isUtf8 rest then .ok state
    else
      let upTo := validUpTo rest
      feedAll state (start + upTo) (rest.drop upTo)

def validate (bytes : List UInt8) : Bool :=
  match feed .start bytes with
  | .ok state => state = .start
  | .error _ => false

/-! ### The state machine -/

variable (state : Utf8) (bytes : List UInt8) (offset : ℕ)

theorem next_eq_feedByte (b : UInt8) (offset : ℕ) :
    state.next b = (feedByte state b offset).toOption := by
  have hcont : ∀ (lo hi : UInt8) (reason : String) (next : Utf8),
      (if lo ≤ b ∧ b ≤ hi then some next else none) =
        (feedByte.continuation b offset lo hi reason next).toOption := by
    intro lo hi reason next
    rw [feedByte.continuation]
    by_cases h : b < lo ∨ hi < b
    · rw [if_pos h,if_neg (by simp only [UInt8.lt_iff_toNat_lt,UInt8.le_iff_toNat_le] at *; omega)]
      rfl
    · rw [if_neg h,if_pos (by simp only [UInt8.lt_iff_toNat_lt,UInt8.le_iff_toNat_le] at *; omega)]
      rfl
  cases state with
  | start =>
    simp only [Utf8.next,feedByte,UInt8.lt_iff_toNat_lt,UInt8.le_iff_toNat_le,
      ← UInt8.toNat_inj,UInt8.reduceToNat]
    split_ifs <;> first | rfl | omega
  | _ => exact hcont _ _ _ _

theorem feedByte_offset (b : UInt8) (offset' : ℕ) : feedByte state b offset' =
    (feedByte state b offset).mapError fun bad => ⟨offset',bad.reason⟩ := by
  cases state with
  | start =>
    simp only [feedByte]
    split_ifs <;> rfl
  | _ =>
    simp only [feedByte,feedByte.continuation]
    split_ifs <;> rfl

/-- Only the offset of an error depends on where the octets start. -/
theorem feedAll_offset (offset' : ℕ) : (feedAll state offset' bytes).mapError Utf8Error.reason =
    (feedAll state offset bytes).mapError Utf8Error.reason := by
  induction bytes generalizing state offset offset' with
  | nil => rfl
  | cons b bytes ih =>
    rw [feedAll,feedAll,feedByte_offset state offset b offset']
    cases feedByte state b offset with
    | error bad => rfl
    | ok state => exact ih state (offset+1) (offset'+1)

theorem feedAll_append (a b : List UInt8) :
    feedAll state offset (a ++ b) =
      match feedAll state offset a with
      | .error e => .error e
      | .ok state => feedAll state (offset+a.length) b := by
  induction a generalizing state offset with
  | nil => rfl
  | cons x a ih =>
    rw [cons_append,feedAll,feedAll]
    cases feedByte state x offset with
    | error e => rfl
    | ok state =>
      dsimp only
      rw [ih,length_cons,Nat.add_assoc,Nat.add_comm 1]

variable {state bytes offset} in
theorem feedAll_ok_offset {state' : Utf8} (h : feedAll state offset bytes = .ok state')
    (offset' : ℕ) : feedAll state offset' bytes = .ok state' := by
  have hsame := feedAll_offset state bytes offset offset'
  rw [h] at hsame
  cases hfeed : feedAll state offset' bytes with
  | error bad =>
    rw [hfeed] at hsame
    cases hsame
  | ok state'' =>
    rw [hfeed] at hsame
    exact congrArg Except.ok (Except.ok.inj hsame)

variable {state bytes offset} in
theorem feedAll_error {bad : Utf8Error} (h : feedAll state offset bytes = .error bad)
    (offset' : ℕ) : ∃ at', feedAll state offset' bytes = .error ⟨at',bad.reason⟩ := by
  have hsame := feedAll_offset state bytes offset offset'
  rw [h] at hsame
  cases hfeed : feedAll state offset' bytes with
  | error bad' =>
    rw [hfeed] at hsame
    exact ⟨bad'.offset,by rw [← Except.error.inj hsame]⟩
  | ok state' =>
    rw [hfeed] at hsame
    cases hsame

theorem foldlM_next_eq (bytes : List UInt8) :
    bytes.foldlM Utf8.next state = (feedAll state offset bytes).toOption := by
  induction bytes generalizing state offset with
  | nil => rfl
  | cons b bytes ih =>
    rw [foldlM_cons,next_eq_feedByte state b offset,feedAll]
    cases feedByte state b offset with
    | error e => rfl
    | ok state => exact ih state (offset+1)

theorem isUtf8_iff : isUtf8 bytes = true ↔ feedAll .start offset bytes = .ok .start := by
  rw [isUtf8,foldlM_next_eq .start offset,beq_iff_eq]
  cases feedAll .start offset bytes with
  | error | ok => simp [Except.toOption]

theorem finishOpenCharacter_spec (bytes : List UInt8) :
    match finishOpenCharacter state offset bytes with
    | .error e => feedAll state offset bytes = .error e
    | .ok (state',used) => offset ≤ used ∧
        feedAll state offset bytes = feedAll state' used (bytes.drop (used-offset)) ∧
        (state' = .start ∨ bytes.drop (used-offset) = []) := by
  induction bytes generalizing state offset with
  | nil => exact ⟨le_rfl,by simp,.inr (by simp)⟩
  | cons b bytes ih =>
    rw [finishOpenCharacter]
    split_ifs with hstart
    · exact ⟨le_rfl,by simp,.inl hstart⟩
    rw [feedAll]
    cases hb : feedByte state b offset with
    | error e => rfl
    | ok state₁ =>
      dsimp only
      have hrest := ih state₁ (offset+1)
      generalize finishOpenCharacter state₁ (offset+1) bytes = result at hrest ⊢
      cases result with
      | error e => exact hrest
      | ok p =>
        obtain ⟨hle,hfeed,hend⟩ := hrest
        have hdrop : (b :: bytes).drop (p.2-offset) = bytes.drop (p.2-(offset+1)) := by
          rw [show p.2-offset = p.2-(offset+1)+1 by omega,drop_succ_cons]
        refine ⟨by omega,?_,?_⟩
        · rw [hdrop]
          exact hfeed
        · rw [hdrop]
          exact hend

theorem feed_eq : feed state bytes = feedAll state 0 bytes := by
  have hstart : ∀ (offset : ℕ) (rest : List UInt8),
      (if isUtf8 rest then .ok .start
        else feedAll .start (offset+validUpTo rest) (rest.drop (validUpTo rest))) =
      feedAll .start offset rest := by
    intro offset rest
    by_cases h : isUtf8 rest = true
    · rw [if_pos h]
      exact ((isUtf8_iff rest offset).1 h).symm
    have hlead : isUtf8 (rest.take (validUpTo rest)) = true :=
      Nat.findGreatest_spec (P := fun n => isUtf8 (rest.take n) = true) (Nat.zero_le _) rfl
    have hle : validUpTo rest ≤ rest.length := Nat.findGreatest_le _
    rw [if_neg h]
    conv_rhs => rw [← take_append_drop (validUpTo rest) rest,feedAll_append,
      (isUtf8_iff _ offset).1 hlead]
    rw [length_take,min_eq_left hle]
  rw [feed]
  by_cases h : state = .start
  · subst h
    have := hstart 0 bytes
    simpa using this
  rw [if_pos h]
  have hspec := finishOpenCharacter_spec state 0 bytes
  generalize finishOpenCharacter state 0 bytes = result at hspec ⊢
  cases result with
  | error e => exact hspec.symm
  | ok p =>
    obtain ⟨state',used⟩ := p
    obtain ⟨_,hfeed,hend⟩ := hspec
    rw [hfeed,Nat.sub_zero]
    dsimp only
    rcases hend with rfl | hnil
    · exact hstart used (bytes.drop used)
    · rw [Nat.sub_zero] at hnil
      rw [hnil]
      rfl

theorem validate_eq : validate bytes = isUtf8 bytes := by
  rw [validate,feed_eq,Bool.eq_iff_iff,isUtf8_iff bytes 0]
  cases feedAll .start 0 bytes with
  | error | ok => simp

/-! ### Chunks -/

/-- Octets that something can follow so that the whole is UTF-8. -/
def Extendable (bytes : List UInt8) : Prop := ∃ more, isUtf8 (bytes ++ more) = true

theorem toOption_feed : (feed state bytes).toOption = bytes.foldlM Utf8.next state := by
  rw [feed_eq,foldlM_next_eq state 0]

theorem toOption_foldlM_feed (chunks : List (List UInt8)) :
    (chunks.foldlM feed state).toOption = chunks.flatten.foldlM Utf8.next state := by
  induction chunks generalizing state with
  | nil => rfl
  | cons chunk chunks ih =>
    rw [foldlM_cons,flatten_cons,foldlM_append,← toOption_feed]
    cases feed state chunk with
    | error e => rfl
    | ok state => exact ih state

/-- Every state of the machine can be completed, so what it has not rejected has a continuation. -/
theorem extendable_iff : Extendable bytes ↔ bytes.foldlM Utf8.next .start ≠ none := by
  have hcomplete : ∀ state : Utf8, ∃ more, List.foldlM Utf8.next state more = some .start := by
    intro state
    cases state with
    | start => exact ⟨[],rfl⟩
    | one => exact ⟨[0x80],by decide⟩
    | two | ed => exact ⟨[0x80,0x80],by decide⟩
    | e0 => exact ⟨[0xa0,0x80],by decide⟩
    | three | f4 => exact ⟨[0x80,0x80,0x80],by decide⟩
    | f0 => exact ⟨[0x90,0x80,0x80],by decide⟩
  simp only [Extendable,isUtf8,foldlM_append,beq_iff_eq]
  constructor
  · rintro ⟨more,hmore⟩ hnone
    rw [hnone] at hmore
    cases hmore
  · intro hsome
    obtain ⟨state,hstate⟩ := Option.ne_none_iff_exists'.1 hsome
    rw [hstate]
    exact hcomplete state

theorem Extendable.of_append {a b : List UInt8} (h : Extendable (a ++ b)) : Extendable a := by
  obtain ⟨more,hmore⟩ := h
  exact ⟨b ++ more,by rwa [← append_assoc]⟩

/-- Whatever the chunks, they are accepted if and only if the whole is UTF-8; and a chunk is
rejected if and only if the first octet behind which nothing can be UTF-8 lies in it. -/
theorem utf8_validation_exact :
    (∀ chunks : List (List UInt8),
      chunks.foldlM feed .start = .ok .start ↔ isUtf8 chunks.flatten = true) ∧
    ∀ (earlier : List (List UInt8)) (chunk : List UInt8),
      (∃ state e, earlier.foldlM feed .start = .ok state ∧ feed state chunk = .error e) ↔
        ∃ i < chunk.length, Extendable (earlier.flatten ++ chunk.take i) ∧
          ¬ Extendable (earlier.flatten ++ chunk.take (i + 1)) := by
  refine ⟨fun chunks => ?_,fun earlier chunk => ?_⟩
  · rw [isUtf8,← toOption_foldlM_feed,beq_iff_eq]
    cases chunks.foldlM feed .start with
    | error | ok => simp [Except.toOption]
  have hraised : (∃ state e, earlier.foldlM feed .start = .ok state ∧ feed state chunk = .error e) ↔
      Extendable earlier.flatten ∧ ¬ Extendable (earlier.flatten ++ chunk) := by
    rw [extendable_iff,extendable_iff,foldlM_append,← toOption_foldlM_feed]
    cases earlier.foldlM feed .start with
    | error e => simp [Except.toOption]
    | ok state =>
      simp only [Except.toOption,Option.bind_eq_bind,Option.bind_some,← toOption_feed]
      cases hfeed : feed state chunk <;> simp [hfeed]
  rw [hraised]
  constructor
  · rintro ⟨halive,hdead⟩
    obtain ⟨i,hi,hnext⟩ := Nat.exists_not_and_succ_of_not_zero_of_exists
      (p := fun i => ¬ Extendable (earlier.flatten ++ chunk.take i))
      (by simpa using halive) ⟨chunk.length,by simpa using hdead⟩
    rw [not_not] at hi
    refine ⟨i,?_,hi,hnext⟩
    by_contra hlong
    rw [take_of_length_le (by omega)] at hi hnext
    exact hnext hi
  · rintro ⟨i,-,halive,hdead⟩
    refine ⟨halive.of_append,fun hwhole => hdead ?_⟩
    rw [← take_append_drop (i+1) chunk,← append_assoc] at hwhole
    exact hwhole.of_append

end Courierust.Ws
