import LineLayout.Token

/-!
# Nesting faults

A stream is malformed if a bracket closes that is not open, or if the margin moves out further
than it moved in. The cursor is the number of the offending token.
-/

namespace LineLayout

/-- What is wrong with the nesting, at which token. -/
inductive Fault where
  /-- A bracket closes and none is open. -/
  | unopened (cursor : Nat) (closed : Bracket)
  /-- A bracket closes and the innermost open one is of the other kind. -/
  | mismatched (cursor : Nat) (opened closed : Bracket)
  /-- The margin moves out and nothing is saved to take back. -/
  | unindented (cursor : Nat)
deriving DecidableEq

namespace Fault

/-- The number of the offending token. -/
def cursor : Fault → Nat
  | unopened cursor _ => cursor
  | mismatched cursor _ _ => cursor
  | unindented cursor => cursor

/-- What is wrong, without the place. -/
def reason : Fault → String
  | unopened _ closed => (Mark.closer closed).mnemonic ++ " without a matching list start"
  | mismatched _ opened closed =>
    (Mark.closer closed).mnemonic ++ " closes a list opened by " ++ (Mark.opener opened).mnemonic
  | unindented _ => "dedent without a matching indent"

/-- What is wrong and where. -/
def message (fault : Fault) : String :=
  "token " ++ toString fault.cursor ++ ": " ++ fault.reason

end Fault

end LineLayout
