import Mathlib.Data.List.Basic
import Mathlib.Tactic

/-!
# The unified error type

Model of `courierust_error`: a coarse `ErrorKind` and an optional message,
shared by every layer of the stack. The helpers keep the source's names.
-/

namespace Courierust

inductive ErrorKind where
  | io
  | unexpectedEof
  | protocol
  | invalidHeader
  | overflow
  | timeout
  | wouldBlock
  | h2 (code : ℕ)
  | h3Stream (code : ℕ)
  | grpc (code : ℕ)
  | canceled
  | other
  deriving DecidableEq

structure Error where
  kind : ErrorKind
  message : Option String
  deriving DecidableEq

namespace Error

def new (kind : ErrorKind) : Error := ⟨kind, none⟩

def withMessage (kind : ErrorKind) (msg : String) : Error := ⟨kind, some msg⟩

def io (msg : String) : Error := withMessage .io msg

def eof : Error := new .unexpectedEof

def protocol (msg : String) : Error := withMessage .protocol msg

def overflow (msg : String) : Error := withMessage .overflow msg

def canceled (msg : String) : Error := withMessage .canceled msg

def h2 (code : ℕ) (msg : String) : Error := withMessage (.h2 code) msg

def invalidHeaderName : Error := withMessage .invalidHeader "invalid header name"

def h2Code (e : Error) : Option ℕ :=
  match e.kind with
  | .h2 c => some c
  | _ => none

/-- Lowercase hexadecimal digits, as `{:x}` prints them. -/
def hex (n : ℕ) : String := String.ofList (Nat.toDigits 16 n)

/-- The text of a kind: `{k:?}`, except for the three kinds with a code. -/
def kindText : ErrorKind → String
  | .io => "Io"
  | .unexpectedEof => "UnexpectedEof"
  | .protocol => "Protocol"
  | .invalidHeader => "InvalidHeader"
  | .overflow => "Overflow"
  | .timeout => "Timeout"
  | .wouldBlock => "WouldBlock"
  | .h2 c => "HTTP/2 error 0x" ++ hex c
  | .h3Stream c => "HTTP/3 stream error 0x" ++ hex c
  | .grpc c => "gRPC status " ++ toString c
  | .canceled => "Canceled"
  | .other => "Other"

/-- `Display` for `Error`. -/
def display (e : Error) : String :=
  match e.message with
  | some m => kindText e.kind ++ ": " ++ m
  | none => kindText e.kind

end Error

end Courierust

theorem Except.bind_eq_ok {ε α β : Type} {x : Except ε α} {f : α → Except ε β} {r : β} :
    (x >>= f) = .ok r ↔ ∃ a, x = .ok a ∧ f a = .ok r := by
  cases x <;> simp [bind,Except.bind]

theorem Except.map_eq_ok {ε α β : Type} {x : Except ε α} {f : α → β} {r : β} :
    x.map f = .ok r ↔ ∃ a, x = .ok a ∧ f a = r := by
  cases x <;> simp [Except.map]
