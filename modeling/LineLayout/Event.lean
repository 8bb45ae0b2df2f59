import LineLayout.Candidate

/-!
# Events

What happens while a script is read and laid out, for whoever wants to follow the decisions.
-/

namespace LineLayout

/-- How closely one has to look to see an event. -/
inductive Level where
  | trace
  | debug
deriving DecidableEq

/-- The name under which a level is reported. -/
def Level.name : Level → String
  | trace => "TRACE"
  | debug => "DEBUG"

/-- Something that happens on the way from a script to its layout. -/
inductive Event where
  /-- Laying out begins at token `start` of `length` tokens. -/
  | entered (start length : Nat)
  /-- A mark inside the line left a candidate. -/
  | recorded (kind : BreakKind) (priority : Priority) (column : Nat)
  /-- A bracket opened and left a candidate. -/
  | opened (kind : BreakKind) (priority : Priority) (column : Nat)
  /-- A line ended for good in front of token `cursor`. -/
  | committed (cursor indent : Nat)
  /-- A new line started and the pending candidates were dropped. -/
  | discarded (count : Nat)
  /-- In front of token `reached` the layout went back and goes on at token `resumed`. -/
  | rewound (kind : BreakKind) (priority : Priority) (reached resumed : Nat)
  /-- A token was read from a script. -/
  | scanned (mnemonic : String) (width : Nat)
  /-- A whole script was read. -/
  | parsed (count : Nat)
  /-- A script is about to be laid out. -/
  | rendering (path : String) (count widthLimit indentUnit : Nat)
deriving DecidableEq

namespace Event

/-- How closely one has to look to see the event. -/
def level : Event → Level
  | rewound .. => .debug
  | parsed _ => .debug
  | rendering .. => .debug
  | _ => .trace

/-- The words under which the event is reported. -/
def message : Event → String
  | entered .. => "span run"
  | recorded .. => "repair point"
  | opened .. => "list opened"
  | committed .. => "line committed"
  | discarded _ => "repair points discarded"
  | rewound .. => "rewinding to repair point"
  | scanned .. => "script token"
  | parsed _ => "parsed token script"
  | rendering .. => "rendering script"

end Event

/-- The name under which a kind of break is reported. -/
def BreakKind.name : BreakKind → String
  | soft => "SoftBreak"
  | separator => "ListSeparator"
  | opener .list => "ListOpen"
  | opener .paren => "SoftParenOpen"

end LineLayout
