namespace RewardVesting

/-! A failure aborts a message: an exit code for the chain and a message for the reader. -/

structure ExitCode where
  value : Nat
  deriving DecidableEq, Repr

namespace ExitCode

def ok : ExitCode := ⟨0⟩

def insufficientBalance : ExitCode := ⟨6⟩

def illegalArgument : ExitCode := ⟨16⟩
def notFound : ExitCode := ⟨17⟩
def forbidden : ExitCode := ⟨18⟩
def illegalState : ExitCode := ⟨20⟩
def serialization : ExitCode := ⟨21⟩
def unhandledMessage : ExitCode := ⟨22⟩
def assertionFailed : ExitCode := ⟨24⟩

def IsSuccess (code : ExitCode) : Prop := code.value = 0

instance (code : ExitCode) : Decidable code.IsSuccess :=
  inferInstanceAs (Decidable (_ = _))

/-- The registered name of a code, or its number. -/
def name (code : ExitCode) : String :=
  match code.value with
  | 0 => "OK"
  | 1 => "SYS_SENDER_INVALID"
  | 2 => "SYS_SENDER_STATE_INVALID"
  | 4 => "SYS_ILLEGAL_INSTRUCTION"
  | 5 => "SYS_INVALID_RECEIVER"
  | 6 => "SYS_INSUFFICIENT_FUNDS"
  | 7 => "SYS_OUT_OF_GAS"
  | 9 => "SYS_ILLEGAL_EXIT_CODE"
  | 10 => "SYS_ASSERTION_FAILED"
  | 11 => "SYS_MISSING_RETURN"
  | 16 => "USR_ILLEGAL_ARGUMENT"
  | 17 => "USR_NOT_FOUND"
  | 18 => "USR_FORBIDDEN"
  | 19 => "USR_INSUFFICIENT_FUNDS"
  | 20 => "USR_ILLEGAL_STATE"
  | 21 => "USR_SERIALIZATION"
  | 22 => "USR_UNHANDLED_MESSAGE"
  | 23 => "USR_UNSPECIFIED"
  | 24 => "USR_ASSERTION_FAILED"
  | 25 => "USR_READ_ONLY"
  | 26 => "USR_NOT_PAYABLE"
  | number => s!"EXIT_{number}"

/-- The code that is registered under a name. -/
def ofName? (name : String) : Option ExitCode :=
  ((List.range 27).map ExitCode.mk).find? fun code => code.name = name

end ExitCode

/-- Bytes that do not follow their format, or a value that has none. -/
structure CodecError where
  detail : String
  deriving DecidableEq, Repr

namespace CodecError

def malformed : CodecError := ⟨"malformed bytes"⟩

def tooLarge : CodecError := ⟨"integer too large"⟩

def text (error : CodecError) : String :=
  "Serialization error for Cbor protocol: " ++ error.detail

end CodecError

structure Failure where
  code : ExitCode
  message : String
  deriving DecidableEq, Repr

namespace Failure

/-- Puts a context in front of the message; the code stays. -/
def wrap (context : String) (failure : Failure) : Failure :=
  { failure with message := context ++ ": " ++ failure.message }

@[simp] theorem code_wrap (context : String) (failure : Failure) :
    (failure.wrap context).code = failure.code := rfl

def text (failure : Failure) : String :=
  "ActorError(exit_code: ExitCode \x7b value: " ++ toString failure.code.value ++
    " \x7d, msg: " ++ failure.message ++ ")"

/-- Takes over an error of another kind, with a context in front of its text. -/
def adopt (code : ExitCode) (context error : String) : Failure :=
  ⟨code, context ++ ": " ++ error⟩

/-- What stands in the place of a value: an error of another kind, or nothing. -/
inductive Cause
  | error (text : String)
  | absent

def ofCause (code : ExitCode) : Cause → Failure
  | .error text => ⟨code, text⟩
  | .absent => ⟨code, "None"⟩

/-- A context stands in front of an error, and alone where there is nothing. -/
def inContext (code : ExitCode) (context : String) : Cause → Failure
  | .error text => adopt code context text
  | .absent => ⟨code, context⟩

def ofCodec (error : CodecError) : Failure :=
  ⟨.serialization, error.text⟩

/-- Bytes that were to be read as `subject`. -/
def unreadable (subject : String) : Failure :=
  adopt .serialization ("failed to deserialize " ++ subject) CodecError.malformed.text

/-- A value that was to be written as `subject`. -/
def unwritable (subject : String) : Failure :=
  adopt .serialization ("failed to serialize " ++ subject) CodecError.tooLarge.text

end Failure

/-- Stored data is reached through links, and a link may lead to nothing. -/
inductive Link (α : Type)
  | held (value : α)
  | missing
  deriving DecidableEq, Repr

namespace Link

variable {α : Type}

def get? : Link α → Option α
  | held value => some value
  | missing => none

theorem get?_eq_some {link : Link α} {value : α} :
    link.get? = some value ↔ link = .held value := by
  cases link <;> simp [get?]

theorem exists_held_of_isSome {state : Option (Link α)}
    (hopened : (state.bind get?).isSome) :
    ∃ value, state = some (.held value) := by
  obtain ⟨value, hvalue⟩ := Option.isSome_iff_exists.mp hopened
  obtain ⟨link, hstate, hlink⟩ := Option.bind_eq_some_iff.mp hvalue
  exact ⟨value, get?_eq_some.mp hlink ▸ hstate⟩

/-- The identifier of the one link that is known to lead nowhere. -/
def missingIdentifier : String :=
  "bafy2bzaceaaaaaaaaaaaaaaaaaaaaaaaaaaaaaaaaaaaaaaaaaaaaaaaaaaaa"

def missingText : String :=
  "Cid (" ++ missingIdentifier ++ ") did not match any in database"

end Link

end RewardVesting
