import LineLayout.Fault
import LineLayout.Script.Error

/-!
# Failures of a command

A command fails because its script cannot be had, is not well-formed or is not well nested, or
because its arguments make no sense.
-/

namespace LineLayout

/-- Why a script cannot be had. -/
inductive ReadFailure where
  | notFound
  | isDirectory
  | notDirectory
  | notPermitted
  /-- The bytes are not UTF-8. -/
  | notText
  | other (reason : String)
deriving DecidableEq

namespace ReadFailure

/-- What is printed of the failure; the number is the one the system gives it. -/
def reason : ReadFailure → String
  | notFound => "No such file or directory (os error 2)"
  | isDirectory => "Is a directory (os error 21)"
  | notDirectory => "Not a directory (os error 20)"
  | notPermitted => "Permission denied (os error 13)"
  | notText => "stream did not contain valid UTF-8"
  | other reason => reason

end ReadFailure

/-- The text of a script whose bytes could be read. -/
def decodeScript (bytes : ByteArray) : Except ReadFailure String :=
  match String.fromUTF8? bytes with
  | some text => .ok text
  | none => .error .notText

/-- Why an argument is refused. -/
inductive Refusal where
  | notACount
  | zeroWidth
  | unknownOption
  | secondPath
deriving DecidableEq

namespace Refusal

/-- What is printed of the refusal. -/
def reason : Refusal → String
  | notACount => "expected a non-negative integer"
  | zeroWidth => "width must be at least 1"
  | unknownOption => "unknown option"
  | secondPath => "only one script path is accepted"

end Refusal

/-- Why a command fails, with what it has to name: the path of the script or the argument. -/
inductive CommandError where
  | unreadable (path : String) (failure : ReadFailure)
  | script (path : String) (error : Script.Error)
  | layout (path : String) (fault : Fault)
  | invalidOption (option : String) (refusal : Refusal)
  | missingPath
deriving DecidableEq

namespace CommandError

/-- What is printed of a command that fails. -/
def message : CommandError → String
  | unreadable path failure => "cannot read '" ++ path ++ "': " ++ failure.reason
  | script path error => path ++ ":" ++ error.message
  | layout path fault => path ++ ": " ++ fault.message
  | invalidOption option refusal => "invalid option '" ++ option ++ "': " ++ refusal.reason
  | missingPath => "missing script path"

end CommandError

end LineLayout
