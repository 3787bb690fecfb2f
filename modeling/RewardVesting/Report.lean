import RewardVesting.Report.Pattern

namespace RewardVesting

/-- The messages that an audit has collected, in order. -/
structure Report where
  messages : List String
  deriving DecidableEq, Repr

namespace Report

def empty : Report := ⟨[]⟩

def isEmpty (report : Report) : Bool := report.messages.isEmpty

def size (report : Report) : Nat := report.messages.length

def add (report : Report) (heading message : String) : Report :=
  ⟨report.messages ++ [heading ++ message]⟩

def require (report : Report) (heading : String) (condition : Bool) (message : String) :
    Report :=
  if condition then report else report.add heading message

/-- Adds the message together with the error, if there is one. -/
def requireNoError (report : Report) (heading : String) (error : Option String)
    (message : String) : Report :=
  match error with
  | none => report
  | some error => report.add heading (message ++ ": " ++ error)

@[simp] theorem isEmpty_add (report : Report) (heading message : String) :
    (report.add heading message).isEmpty = false := by
  simp [isEmpty, add]

@[simp] theorem isEmpty_require (report : Report) (heading : String) (condition : Bool)
    (message : String) :
    (report.require heading condition message).isEmpty = (report.isEmpty && condition) := by
  cases condition <;> simp [require]

@[simp] theorem isEmpty_requireNoError (report : Report) (heading : String)
    (error : Option String) (message : String) :
    (report.requireNoError heading error message).isEmpty =
      (report.isEmpty && error.isNone) := by
  cases error <;> simp [requireNoError]

def lines (messages : List String) : String := "\n".intercalate messages

def unexpected? (report : Report) : Option String :=
  if report.isEmpty then none else some (lines report.messages)

private def firstMismatch? : List String → List String → Option String
  | message :: messages, pattern :: patterns =>
    if (Pattern.ofString pattern).occursIn message then firstMismatch? messages patterns
    else some ("message does not match. Actual: " ++ message ++ ", expected: " ++ pattern)
  | _, _ => none

/-- How the messages differ from one pattern for each, in order. -/
def mismatch? (report : Report) (patterns : List String) : Option String :=
  if report.size = patterns.length then firstMismatch? report.messages patterns
  else some ("Incorrect number of accumulator messages. Actual: " ++
    lines report.messages ++ ".\nExpected: " ++ lines patterns)

end Report

end RewardVesting
