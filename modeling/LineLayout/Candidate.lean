import LineLayout.Token
import LineLayout.Trail
import LineLayout.Indentation
import LineLayout.Priority

/-!
# Candidate breaks

A mark that offers a break does not break the line at once. It leaves a candidate behind: what
breaking there would do, how welcome that is, and what the layout has to go back to. Candidates are
pending until the next line starts, the newest first.

Two rules choose among them. An overflowing line takes the highest priority, and of equal ones the
newest that lies within the limit. A hard break gives way to the highest priority above its own,
and of equal ones to the newest.
-/

namespace LineLayout

/-- What a candidate does when the line is broken there. -/
inductive BreakKind where
  /-- Continue with a deeper margin. -/
  | soft
  /-- Continue at the margin of the list. -/
  | separator
  /-- Break the content of a bracket over lines. -/
  | opener (bracket : Bracket)
deriving DecidableEq

namespace BreakKind

/-- How welcome a break of this kind is, in halves. -/
def weight : BreakKind → Nat
  | soft => 2
  | separator => 4
  | opener _ => 6

/-- How welcome a break of this kind is with `depth` brackets open around it. -/
def priority (kind : BreakKind) (depth : Nat) : Priority :=
  Priority.scaled kind.weight depth

end BreakKind

/-- The state of a layout in front of the token with number `index`. -/
structure Snapshot where
  index : Nat
  /-- Size of the output. -/
  size : Nat := 0
  /-- Columns used on the line. -/
  column : Nat := 0
  margin : Margin := {}
  saved : Trail.Bookmark := ⟨0, 0⟩
  lists : Trail.Bookmark := ⟨0, 0⟩
deriving DecidableEq

/-- A place where the line may be broken. -/
structure Candidate where
  kind : BreakKind
  priority : Priority
  before : Snapshot
deriving DecidableEq

namespace Candidate

/-- A candidate of the given kind with `depth` brackets open around it. -/
def ofKind (kind : BreakKind) (depth : Nat) (before : Snapshot) : Candidate :=
  ⟨kind, kind.priority depth, before⟩

/-- The number of the token that left the candidate. -/
def index (c : Candidate) : Nat :=
  c.before.index

/-- The column at which the line would be broken. -/
def column (c : Candidate) : Nat :=
  c.before.column

/-- Whether an older candidate is a better place to break an overflowing line than the best newer
one: it has a higher priority, or the same and lies further left of one that is past the limit. -/
def beats (limit : Nat) (older best : Candidate) : Bool :=
  best.priority < older.priority ||
    (older.priority == best.priority && limit < best.column && older.column < best.column)

theorem beats_iff {limit : Nat} {older best : Candidate} :
    older.beats limit best = true ↔
      best.priority < older.priority ∨
        older.priority = best.priority ∧ limit < best.column ∧ older.column < best.column := by
  simp [beats, and_assoc]

end Candidate

/-- A chosen candidate, with the candidates older than it. -/
structure Choice where
  candidate : Candidate
  older : List Candidate
deriving DecidableEq

/-- The position of the choice, counted from the oldest candidate. -/
def Choice.position (choice : Choice) : Nat :=
  choice.older.length

/-- Candidates that are pending, the newest first. -/
abbrev Pending : Type :=
  List Candidate

namespace Pending

/-- The choice left when the candidates older than the best so far are walked through. -/
def improve (limit : Nat) (best : Choice) : Pending → Choice
  | [] => best
  | c :: older =>
    let best := if c.beats limit best.candidate then ⟨c, older⟩ else best
    improve limit best older

/-- Where to break a line that overflows the limit. -/
def bestForOverflow? (limit : Nat) : Pending → Option Choice
  | [] => none
  | c :: older => some (improve limit ⟨c, older⟩ older)

theorem bestForOverflow?_eq_none_iff {limit : Nat} {pending : Pending} :
    bestForOverflow? limit pending = none ↔ pending = [] := by
  cases pending <;> simp [bestForOverflow?]

/-- The better of a choice among newer candidates and an older candidate, for a hard break. -/
def preferAbove (threshold : Priority) (best? : Option Choice) (c : Candidate) (older : Pending) :
    Option Choice :=
  if threshold < c.priority ∧ ∀ best ∈ best?, best.candidate.priority < c.priority then
    some ⟨c, older⟩
  else best?

/-- The choice for a hard break when the older candidates are walked through. -/
def improveAbove (threshold : Priority) (best? : Option Choice) : Pending → Option Choice
  | [] => best?
  | c :: older => improveAbove threshold (preferAbove threshold best? c older) older

/-- The candidate that a hard break gives way to. -/
def bestAbove? (threshold : Priority) (pending : Pending) : Option Choice :=
  improveAbove threshold none pending

/-- The candidate at a position counted from the oldest. -/
def choice? (position : Nat) : Pending → Option Choice
  | [] => none
  | c :: older => if older.length = position then some ⟨c, older⟩ else choice? position older

/-! ## Order of the pending candidates -/

/-- Each candidate was left by a token before `bound`, and by one before every newer candidate. -/
def Descending (bound : Nat) : Pending → Prop
  | [] => True
  | c :: older => c.index < bound ∧ Descending c.index older

/-- The token that left the oldest candidate, or `bound` if none is pending. -/
def horizon (bound : Nat) : Pending → Nat
  | [] => bound
  | c :: older => horizon c.index older

theorem Descending.mono {pending : Pending} {a b : Nat} (sorted : Descending a pending)
    (le : a ≤ b) : Descending b pending := by
  cases pending with
  | nil => trivial
  | cons c older => exact ⟨Nat.lt_of_lt_of_le sorted.1 le, sorted.2⟩

theorem horizon_le {pending : Pending} {bound : Nat} (sorted : Descending bound pending) :
    horizon bound pending ≤ bound := by
  induction pending generalizing bound with
  | nil => exact Nat.le_refl _
  | cons c older ih => exact Nat.le_trans (ih sorted.2) (Nat.le_of_lt sorted.1)

theorem horizon_mono {pending : Pending} {a b : Nat} (le : a ≤ b) :
    horizon a pending ≤ horizon b pending := by
  cases pending with
  | nil => exact le
  | cons c older => exact Nat.le_refl _

theorem horizon_le_index {pending : Pending} {bound : Nat} {c : Candidate}
    (sorted : Descending bound pending) (member : c ∈ pending) :
    horizon bound pending ≤ c.index := by
  induction pending generalizing bound with
  | nil => cases member
  | cons d older ih =>
    cases member with
    | head => exact horizon_le sorted.2
    | tail _ member => exact ih sorted.2 member

theorem Descending.index_lt {pending : Pending} {bound : Nat} {c : Candidate}
    (sorted : Descending bound pending) (member : c ∈ pending) : c.index < bound := by
  induction pending generalizing bound with
  | nil => cases member
  | cons d older ih =>
    cases member with
    | head => exact sorted.1
    | tail _ member => exact Nat.lt_trans (ih sorted.2 member) sorted.1

/-! ## Choices are pending candidates -/

theorem improve_mem {limit : Nat} {best : Choice} {older pending : Pending}
    (member : best.candidate ∈ pending) (sub : ∀ c ∈ older, c ∈ pending) :
    (improve limit best older).candidate ∈ pending := by
  induction older generalizing best with
  | nil => exact member
  | cons c older ih =>
    refine ih ?_ fun d hd => sub d (List.mem_cons_of_mem c hd)
    split
    · exact sub c List.mem_cons_self
    · exact member

theorem mem_of_bestForOverflow? {limit : Nat} {pending : Pending} {choice : Choice}
    (chosen : bestForOverflow? limit pending = some choice) : choice.candidate ∈ pending := by
  cases pending with
  | nil => cases chosen
  | cons c older =>
    cases chosen
    exact improve_mem List.mem_cons_self fun d hd => List.mem_cons_of_mem c hd

theorem improveAbove_mem {threshold : Priority} {best? : Option Choice} {older pending : Pending}
    {choice : Choice} (member : ∀ best ∈ best?, best.candidate ∈ pending)
    (sub : ∀ c ∈ older, c ∈ pending)
    (chosen : improveAbove threshold best? older = some choice) : choice.candidate ∈ pending := by
  induction older generalizing best? with
  | nil => exact member choice chosen
  | cons c older ih =>
    refine ih (fun best hbest => ?_) (fun d hd => sub d (List.mem_cons_of_mem c hd)) chosen
    unfold preferAbove at hbest
    split at hbest
    · cases hbest
      exact sub c List.mem_cons_self
    · exact member best hbest

theorem mem_of_bestAbove? {threshold : Priority} {pending : Pending} {choice : Choice}
    (chosen : bestAbove? threshold pending = some choice) : choice.candidate ∈ pending :=
  improveAbove_mem (fun _ none => by cases none) (fun _ member => member) chosen

end Pending

end LineLayout
