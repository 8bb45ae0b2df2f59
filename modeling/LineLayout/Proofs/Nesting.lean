import LineLayout.Proofs.Steps
import Mathlib.Data.List.Induction

/-!
# Nesting

Which tokens belong together as brackets is a parameter: `opens` and `closes` tell the kind of pair
that a token opens or closes. A word is balanced if every bracket in it is closed in it, by a
closing token of the same kind and around a balanced word.

`unclosed` gives the pairs that a word leaves open, balanced or not, each with the number of the
token that opened it. What lies below an open pair is what was open when it opened
(`unclosed_split`), so how deep a pair lies is known from the tokens in front of it.
-/

namespace LineLayout

/-- The bracket that a token opens. -/
def Token.opens? : Token → Option Bracket
  | .mark (.opener bracket) => some bracket
  | _ => none

/-- The bracket that a token closes. -/
def Token.closes? : Token → Option Bracket
  | .mark (.closer bracket) => some bracket
  | _ => none

theorem Token.eq_of_opens? {token : Token} {bracket : Bracket}
    (opened : token.opens? = some bracket) : token = .mark (.opener bracket) := by
  rcases token with run | mark
  · cases opened
  · cases mark <;> cases opened
    rfl

theorem Token.eq_of_closes? {token : Token} {bracket : Bracket}
    (closed : token.closes? = some bracket) : token = .mark (.closer bracket) := by
  rcases token with run | mark
  · cases closed
  · cases mark <;> cases closed
    rfl

theorem take_append_cons_drop {tokens : List Token} {index : Nat} {token : Token}
    (read : tokens[index]? = some token) :
    tokens.take index ++ token :: tokens.drop (index + 1) = tokens := by
  obtain ⟨below, here⟩ := List.getElem?_eq_some_iff.1 read
  rw [← here, List.getElem_cons_drop, List.take_append_drop]

/-- Words in which each opened pair is closed. -/
inductive Balanced {β : Type} (opens closes : Token → Option β) : List Token → Prop
  | nil : Balanced opens closes []
  | plain {token : Token} {rest : List Token} (unopened : opens token = none)
      (unclosed : closes token = none) (balanced : Balanced opens closes rest) :
      Balanced opens closes (token :: rest)
  | pair {left right : Token} {pair : β} {inner rest : List Token}
      (opened : opens left = some pair) (closed : closes right = some pair)
      (inside : Balanced opens closes inner) (balanced : Balanced opens closes rest) :
      Balanced opens closes (left :: (inner ++ right :: rest))

namespace Balanced

variable {β : Type} {opens closes : Token → Option β} {first last : List Token}

theorem append (before : Balanced opens closes first) (after : Balanced opens closes last) :
    Balanced opens closes (first ++ last) := by
  induction before with
  | nil => exact after
  | plain unopened unclosed _ ih => exact .plain unopened unclosed ih
  | @pair left right pair inner rest opened closed inside _ _ ih =>
    have regroup : left :: (inner ++ right :: rest) ++ last =
        left :: (inner ++ right :: (rest ++ last)) := by simp
    rw [regroup]
    exact .pair opened closed inside ih

end Balanced

/-! ## The pairs that are left open -/

section Unclosed

variable {β : Type} (opens closes : Token → Option β)

/-- What the token with the given number makes of the open pairs: it adds one, or takes the
innermost off, of whatever kind that is. -/
def nestBy (index : Nat) (token : Token) (pairs : List (Nat × β)) : List (Nat × β) :=
  match opens token with
  | some pair => (index, pair) :: pairs
  | none => if (closes token).isSome then pairs.tail else pairs

/-- The pairs that a word leaves open, the innermost first, each with the number of the token that
opened it. -/
def unclosed (tokens : List Token) : List (Nat × β) :=
  tokens.zipIdx.foldl (fun pairs entry => nestBy opens closes entry.2 entry.1 pairs) []

variable {opens closes} {tokens : List Token} {token : Token} {index position : Nat} {pair : β}
  {inner outer : List (Nat × β)}

theorem unclosed_concat (tokens : List Token) (token : Token) :
    unclosed opens closes (tokens ++ [token]) =
      nestBy opens closes tokens.length token (unclosed opens closes tokens) := by
  simp [unclosed, List.zipIdx_append, List.foldl_append]

theorem length_unclosed_le (tokens : List Token) :
    (unclosed opens closes tokens).length ≤ tokens.length := by
  induction tokens using List.reverseRecOn with
  | nil => exact Nat.le_refl 0
  | append_singleton tokens token ih =>
    rw [unclosed_concat, List.length_append, List.length_singleton, nestBy]
    split
    · exact Nat.succ_le_succ ih
    · split
      · rw [List.length_tail]
        omega
      · omega

theorem unclosed_take_succ (read : tokens[index]? = some token) :
    unclosed opens closes (tokens.take (index + 1)) =
      nestBy opens closes index token (unclosed opens closes (tokens.take index)) := by
  have below := (List.getElem?_eq_some_iff.1 read).1
  rw [List.take_add_one, read, Option.toList_some, unclosed_concat,
    List.length_take_of_le (Nat.le_of_lt below)]

/-- Whatever a token does, a pair that is open behind it was opened by it or was open before. -/
theorem nestBy_split {pairs : List (Nat × β)}
    (split : nestBy opens closes position token pairs = inner ++ (index, pair) :: outer) :
    (index = position ∧ opens token = some pair ∧ outer = pairs) ∨
      ∃ front, pairs = front ++ (index, pair) :: outer := by
  unfold nestBy at split
  cases opened : opens token with
  | some other =>
    rw [opened] at split
    rcases List.cons_eq_append_iff.1 split with ⟨rfl, same⟩ | ⟨front, -, below⟩
    · obtain ⟨here, rfl⟩ := List.cons.inj same
      cases here
      exact Or.inl ⟨rfl, rfl, rfl⟩
    · exact Or.inr ⟨front, below⟩
  | none =>
    rw [opened] at split
    dsimp only at split
    by_cases closed : (closes token).isSome = true
    · rw [if_pos closed] at split
      cases pairs with
      | nil => simp at split
      | cons top pairs => exact Or.inr ⟨top :: inner, congrArg (top :: ·) split⟩
    · rw [if_neg closed] at split
      exact Or.inr ⟨inner, split⟩

/-- Below an open pair lies what was open in front of the token that opened it. -/
theorem unclosed_split (split : unclosed opens closes tokens = inner ++ (index, pair) :: outer) :
    outer = unclosed opens closes (tokens.take index) ∧
      ∃ token, tokens[index]? = some token ∧ opens token = some pair := by
  induction tokens using List.reverseRecOn generalizing inner with
  | nil => simp [unclosed] at split
  | append_singleton tokens last ih =>
    rw [unclosed_concat] at split
    rcases nestBy_split split with ⟨rfl, opened, rfl⟩ | ⟨front, before⟩
    · rw [List.take_left]
      exact ⟨rfl, last, by simp, opened⟩
    · obtain ⟨below, token, read, opened⟩ := ih before
      have inside := (List.getElem?_eq_some_iff.1 read).1
      rw [List.take_append_of_le_length (Nat.le_of_lt inside), List.getElem?_append_left inside]
      exact ⟨below, token, read, opened⟩

theorem unclosed_take_split
    (split : unclosed opens closes (tokens.take position) = inner ++ (index, pair) :: outer) :
    index < position ∧ outer = unclosed opens closes (tokens.take index) ∧
      ∃ token, tokens[index]? = some token ∧ opens token = some pair := by
  obtain ⟨below, token, read, opened⟩ := unclosed_split split
  have before : index < position := by
    have inside := (List.getElem?_eq_some_iff.1 read).1
    rw [List.length_take] at inside
    omega
  rw [List.take_take, Nat.min_eq_left (Nat.le_of_lt before)] at below
  rw [List.getElem?_take_of_lt before] at read
  exact ⟨before, below, token, read, opened⟩

end Unclosed

end LineLayout
