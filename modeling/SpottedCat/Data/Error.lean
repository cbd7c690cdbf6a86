import Mathlib.Control.Monad.Basic
import Mathlib.Data.Int.Notation

/-!
# Errors (`error.rs`)

`MeowError` keeps the numeric code and the message: equality in the source compares exactly these
(`error.rs:137-141`), and the retry policy reads the code. The boxed `source` is never looked at.
-/

namespace SpottedCat

/-- error.rs:6 -/
inductive InnerErrorCode where
  | unknown
  | success
  | runtimeCreationFailedError
  | parameterEmpty
  | duplicateTaskError
  | enqueueError
  | ioError
  | httpError
  | clientClosed
  | taskNotFound
  | responseStatusError
  | missingOrInvalidContentLengthFromHead
  | commandSendFailed
  | commandResponseFailed
  | responseParseError
  | invalidRange
  | fileNotFound
  | checksumMismatch
  | invalidTaskState
  | lockPoisoned
  | httpClientBuildFailed
deriving DecidableEq, Repr

/-- `InnerErrorCode as i32`. -/
def InnerErrorCode.toI32 : InnerErrorCode → ℤ
  | .unknown => -1
  | .success => 0
  | .runtimeCreationFailedError => 101
  | .parameterEmpty => 102
  | .duplicateTaskError => 103
  | .enqueueError => 104
  | .ioError => 105
  | .httpError => 106
  | .clientClosed => 107
  | .taskNotFound => 108
  | .responseStatusError => 109
  | .missingOrInvalidContentLengthFromHead => 110
  | .commandSendFailed => 111
  | .commandResponseFailed => 112
  | .responseParseError => 113
  | .invalidRange => 114
  | .fileNotFound => 115
  | .checksumMismatch => 116
  | .invalidTaskState => 117
  | .lockPoisoned => 118
  | .httpClientBuildFailed => 119

/-- Two variants never share a number, so a code tells which variant an error was built from. -/
theorem InnerErrorCode.toI32_injective : Function.Injective InnerErrorCode.toI32 := by
  intro a b h
  cases a <;> cases b <;> first | rfl | (simp [InnerErrorCode.toI32] at h)

/-- error.rs:48 -/
structure MeowError where
  code : ℤ
  msg : String
deriving DecidableEq, Repr

/-- error.rs:75 -/
def MeowError.fromCode1 (code : InnerErrorCode) : MeowError := ⟨code.toI32, ""⟩

/-- error.rs:86, and `from_code_str` (:100), `from_source` (:114), which store the same fields. -/
def MeowError.fromCode (code : InnerErrorCode) (msg : String) : MeowError := ⟨code.toI32, msg⟩

/-- How a call of the source ends without a value: the `Err` of its `Result`, or a panic with its
text. -/
inductive Failure where
  | err (e : MeowError)
  | panic (msg : String)
deriving DecidableEq, Repr

/-- What an `async fn` of the source ends with. -/
abbrev Ret (α : Type*) := Except Failure α

/-- `Err(MeowError::from_code(code, msg))` -/
def failWith {α : Type*} (code : InnerErrorCode) (msg : String) : Ret α :=
  .error (.err (.fromCode code msg))

end SpottedCat
