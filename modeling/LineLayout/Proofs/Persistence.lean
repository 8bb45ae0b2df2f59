import LineLayout.Proofs.Open

/-!
# Trails are persistent stacks

An immutable stack can be marked by keeping it: the mark is the stack itself, and going back takes
that stack again. A trail does the same with two numbers. `answers_eq` says that the user cannot
tell: whatever is pushed, popped, marked and gone back to, in any order, both answer alike, as long
as no mark is used that going back to an earlier one has made void.

The reason is what a mark of a trail protects, namely the entries that there were when it was
taken. Popping leaves them, pushing appends to them, and going back to this mark or to a later one
cuts off others only. `Mirrors` carries that along any sequence of operations.

The saved margins and the open brackets are two such trails, with commands of their own.
-/

namespace LineLayout

/-! ## Stacks that can be marked -/

/-- What can be done with a stack: it takes a command of its own, it is marked, or it goes back to
a mark. Marks are numbered from zero, in the order in which they are taken. -/
inductive StackOp (κ : Type) where
  | command (command : κ)
  | mark
  | rewind (number : Nat)
deriving DecidableEq

/-- A kind of stack that takes commands and can be marked. -/
structure MarkedStack (σ μ κ ρ : Type) where
  /-- The answer to a command, and the stack behind it. -/
  obey : σ → κ → ρ × σ
  mark : σ → μ
  rewind : σ → μ → σ

/-- A stack in use, with the marks taken of it so far, the oldest first. -/
structure InUse (σ μ : Type) where
  stack : σ
  marks : List μ := []

namespace MarkedStack

variable {σ μ κ ρ : Type} (kind : MarkedStack σ μ κ ρ)

/-- One operation, with its answer if it is a command. -/
def perform (used : InUse σ μ) : StackOp κ → Option ρ × InUse σ μ
  | .command command =>
    let obeyed := kind.obey used.stack command
    (some obeyed.1, { used with stack := obeyed.2 })
  | .mark => (none, { used with marks := used.marks ++ [kind.mark used.stack] })
  | .rewind number =>
    match used.marks[number]? with
    | some mark => (none, { used with stack := kind.rewind used.stack mark })
    | none => (none, used)

/-- The stack behind some operations. -/
def after (used : InUse σ μ) (ops : List (StackOp κ)) : InUse σ μ :=
  ops.foldl (fun used op => (kind.perform used op).2) used

/-- The answers to some operations, one for each. -/
def answers (used : InUse σ μ) : List (StackOp κ) → List (Option ρ)
  | [] => []
  | op :: ops => (kind.perform used op).1 :: answers (kind.perform used op).2 ops

theorem after_concat (used : InUse σ μ) (ops : List (StackOp κ)) (op : StackOp κ) :
    kind.after used (ops ++ [op]) = (kind.perform (kind.after used ops) op).2 := by
  simp [after]

theorem answers_concat (used : InUse σ μ) (ops : List (StackOp κ)) (op : StackOp κ) :
    kind.answers used (ops ++ [op]) =
      kind.answers used ops ++ [(kind.perform (kind.after used ops) op).1] := by
  induction ops generalizing used with
  | nil => rfl
  | cons first ops ih => exact congrArg _ (ih (kind.perform used first).2)

end MarkedStack

/-- An immutable stack: a mark of it is the stack. -/
def immutableStack {β κ ρ : Type} (obey : List β → κ → ρ × List β) :
    MarkedStack (List β) (List β) κ ρ where
  obey := obey
  mark := id
  rewind _ mark := mark

/-- A trail as a stack that can be marked. -/
def Trail.markedStack {α κ ρ : Type} (obey : Trail α → κ → ρ × Trail α) :
    MarkedStack (Trail α) Trail.Bookmark κ ρ where
  obey := obey
  mark := Trail.bookmark
  rewind := Trail.rewind

/-! ## Marks that may be used -/

section Marks

variable {κ : Type} {ops : List (StackOp κ)} {op : StackOp κ} {number : Nat}

/-- Whether the operation marks the stack. -/
def StackOp.isMark : StackOp κ → Bool
  | .mark => true
  | _ => false

/-- How many marks are taken. -/
def markCount (ops : List (StackOp κ)) : Nat :=
  ops.countP StackOp.isMark

theorem markCount_concat (ops : List (StackOp κ)) (op : StackOp κ) :
    markCount (ops ++ [op]) = markCount ops + if op.isMark then 1 else 0 := by
  simp [markCount]

/-- The mark with the number was taken, and since then the stack went back to no earlier one. -/
def LiveMark (ops : List (StackOp κ)) (number : Nat) : Prop :=
  ∃ front back, ops = front ++ .mark :: back ∧ markCount front = number ∧
    ∀ other, .rewind other ∈ back → number ≤ other

/-- Whenever the stack goes back, it goes back to a mark that may still be used. -/
def Admissible (ops : List (StackOp κ)) : Prop :=
  ∀ front number back, ops = front ++ .rewind number :: back → LiveMark front number

theorem LiveMark.of_concat (live : LiveMark (ops ++ [op]) number) :
    (LiveMark ops number ∧ ∀ other, op = .rewind other → number ≤ other) ∨
      (op = .mark ∧ number = markCount ops) := by
  obtain ⟨front, back, split, count, spared⟩ := live
  rcases List.eq_nil_or_concat back with rfl | ⟨back, last, rfl⟩
  · obtain ⟨rfl, here⟩ := List.append_inj' split rfl
    exact Or.inr ⟨List.singleton_inj.1 here, count.symm⟩
  · rw [List.concat_eq_append] at split spared
    rw [← List.cons_append, ← List.append_assoc] at split
    obtain ⟨rfl, here⟩ := List.append_inj' split rfl
    obtain rfl := List.singleton_inj.1 here
    refine Or.inl ⟨⟨front, back, rfl, count, ?_⟩, ?_⟩
    · exact fun other member => spared other (List.mem_append_left _ member)
    · rintro other rfl
      exact spared other (List.mem_append_right _ List.mem_cons_self)

theorem LiveMark.lt_markCount (live : LiveMark ops number) : number < markCount ops := by
  obtain ⟨front, back, rfl, rfl, -⟩ := live
  simp only [markCount, List.countP_append, List.countP_cons, StackOp.isMark]
  simp

theorem LiveMark.getElem?_concat {μ : Type} {marks : List μ} {mark : μ} (live : LiveMark ops number)
    (count : marks.length = markCount ops) : (marks ++ [mark])[number]? = marks[number]? :=
  List.getElem?_append_left (count ▸ live.lt_markCount)

theorem getElem?_markCount {μ : Type} {marks : List μ} {mark : μ}
    (count : marks.length = markCount ops) : (marks ++ [mark])[markCount ops]? = some mark := by
  rw [← count, List.getElem?_concat_length]

theorem Admissible.of_forall_notMem (calm : ∀ number, .rewind number ∉ ops) : Admissible ops := by
  rintro front number back rfl
  exact absurd (by simp) (calm number)

theorem Admissible.append_rewind {rest : List (StackOp κ)} (admissible : Admissible ops)
    (live : LiveMark ops number) (calm : ∀ other, .rewind other ∉ rest) :
    Admissible (ops ++ .rewind number :: rest) := by
  intro front other back split
  rcases List.append_eq_append_iff.1 split with ⟨between, rfl, tail⟩ | ⟨between, rfl, tail⟩
  · cases between with
    | nil =>
      cases tail
      simpa using live
    | cons first between =>
      obtain ⟨-, rfl⟩ := List.cons.inj tail
      exact absurd (by simp) (calm other)
  · cases between with
    | nil =>
      cases tail
      simpa using live
    | cons first between =>
      obtain ⟨rfl, -⟩ := List.cons.inj tail
      exact admissible front other between rfl

theorem Admissible.of_append {rest : List (StackOp κ)} (admissible : Admissible (ops ++ rest)) :
    Admissible ops := by
  rintro front number back rfl
  exact admissible front number (back ++ rest) (by simp)

theorem Admissible.liveMark (admissible : Admissible (ops ++ [.rewind number])) :
    LiveMark ops number :=
  admissible ops number [] rfl

end Marks

/-! ## A trail beside an immutable stack -/

namespace Trail

/-- Of two trails that a later one keeps, the longer one keeps the shorter one. -/
theorem Keeps.of_size_le {α : Type} {later trail past : Trail α} (kept : later.Keeps past)
    (kept' : later.Keeps trail) (size : past.entries.size ≤ trail.entries.size) :
    trail.Keeps past := by
  obtain ⟨newer, h⟩ := kept
  obtain ⟨newer', h'⟩ := kept'
  rw [h'] at h
  rcases Array.append_eq_append_iff.1 h with ⟨between, longer, -⟩ | ⟨between, longer, -⟩
  · have none : between = #[] := by
      have sizes := congrArg Array.size longer
      rw [Array.size_append] at sizes
      exact Array.size_eq_zero_iff.1 (by omega)
    exact ⟨#[], by simp [longer, none]⟩
  · exact ⟨between, longer⟩

section Mirror

variable {α β κ ρ : Type} {obey : Trail α → κ → ρ × Trail α} {onList : List β → κ → ρ × List β}
  {allowed : κ → Prop} {Shows : Trail α → List β → Prop}

/-- The allowed commands do to a trail what they do to the list that it shows, and no entry is
lost by them. -/
structure Follows (obey : Trail α → κ → ρ × Trail α) (onList : List β → κ → ρ × List β)
    (allowed : κ → Prop) (Shows : Trail α → List β → Prop) : Prop where
  answer : ∀ {trail stack command}, Shows trail stack → allowed command →
    (obey trail command).1 = (onList stack command).1
  shows : ∀ {trail stack command}, Shows trail stack → allowed command →
    Shows (obey trail command).2 (onList stack command).2
  keeps : ∀ trail command, (obey trail command).2.Keeps trail

/-- `Mirrors Shows ops used model`: behind the operations `ops`, a trail in use stands as the
immutable stack does, and so does each of its marks that may still be used. -/
structure Mirrors (Shows : Trail α → List β → Prop) (ops : List (StackOp κ))
    (used : InUse (Trail α) Bookmark) (model : InUse (List β) (List β)) : Prop where
  shows : Shows used.stack model.stack
  count : used.marks.length = markCount ops
  count_model : model.marks.length = markCount ops
  /-- A mark that may be used is one of a past trail, which is kept. -/
  live : ∀ {number}, LiveMark ops number → ∃ past stack,
    used.marks[number]? = some past.bookmark ∧ model.marks[number]? = some stack ∧
      Shows past stack ∧ used.stack.Keeps past
  /-- Of two such marks, the later one has at least as many entries below it. -/
  ascending : ∀ {number other mark mark'}, LiveMark ops number → LiveMark ops other →
    number ≤ other → used.marks[number]? = some mark → used.marks[other]? = some mark' →
      mark.size ≤ mark'.size

variable {ops : List (StackOp κ)} {used : InUse (Trail α) Bookmark}
  {model : InUse (List β) (List β)}

theorem mirrors_nil {trail : Trail α} {stack : List β} (shows : Shows trail stack) :
    Mirrors Shows ([] : List (StackOp κ)) { stack := trail } { stack := stack } where
  shows := shows
  count := rfl
  count_model := rfl
  live := fun live => absurd live.lt_markCount (Nat.not_lt_zero _)
  ascending := fun live => absurd live.lt_markCount (Nat.not_lt_zero _)

/-- No mark is taken, the stack changes, and what the marks that are left protect is kept. -/
theorem Mirrors.move (mirrors : Mirrors Shows ops used model) {op : StackOp κ} {trail : Trail α}
    {stack : List β} (unmarked : op ≠ .mark) (shows : Shows trail stack)
    (kept : ∀ {number past}, LiveMark ops number → (∀ other, op = .rewind other → number ≤ other) →
      used.marks[number]? = some past.bookmark → used.stack.Keeps past → trail.Keeps past) :
    Mirrors Shows (ops ++ [op]) { used with stack := trail } { model with stack := stack } := by
  have count : markCount (ops ++ [op]) = markCount ops := by
    cases op with
    | mark => exact absurd rfl unmarked
    | command _ | rewind _ => exact markCount_concat _ _
  have earlier {number : Nat} (live : LiveMark (ops ++ [op]) number) :
      LiveMark ops number ∧ ∀ other, op = .rewind other → number ≤ other := by
    rcases live.of_concat with earlier | ⟨marked, -⟩
    · exact earlier
    · exact absurd marked unmarked
  refine ⟨shows, mirrors.count.trans count.symm, mirrors.count_model.trans count.symm, ?_, ?_⟩
  · intro number live
    obtain ⟨live, spared⟩ := earlier live
    obtain ⟨past, stack, found, found', shows, kept'⟩ := mirrors.live live
    exact ⟨past, stack, found, found', shows, kept live spared found kept'⟩
  · intro _ _ _ _ live live'
    exact mirrors.ascending (earlier live).1 (earlier live').1

theorem Mirrors.command (mirrors : Mirrors Shows ops used model)
    (follows : Follows obey onList allowed Shows) {command : κ} (permitted : allowed command) :
    Mirrors Shows (ops ++ [.command command])
      ((markedStack obey).perform used (.command command)).2
      ((immutableStack onList).perform model (.command command)).2 := by
  refine mirrors.move (by simp) (follows.shows mirrors.shows permitted) ?_
  intro number past _ _ _ kept
  exact (follows.keeps used.stack command).trans kept

/-- Going back gives the past trail of the mark again, in which those of earlier marks are kept. -/
theorem Mirrors.rewind (mirrors : Mirrors Shows ops used model) {number : Nat}
    (usable : LiveMark ops number) :
    Mirrors Shows (ops ++ [.rewind number]) ((markedStack obey).perform used (.rewind number)).2
      ((immutableStack onList).perform model (.rewind number)).2 := by
  obtain ⟨past, stack, mark, mark', shows, kept⟩ := mirrors.live usable
  have back : ((markedStack obey).perform used (.rewind number)).2 =
      { used with stack := past } := by
    simp [MarkedStack.perform, mark, markedStack, kept.rewind]
  have back' : ((immutableStack onList).perform model (.rewind number)).2 =
      { model with stack := stack } := by
    simp [MarkedStack.perform, mark', immutableStack]
  rw [back, back']
  refine mirrors.move (by simp) shows ?_
  -- marks later than this one are void now, and an earlier one had no more entries below it
  intro other older live spared found kept'
  have size : older.entries.size ≤ past.entries.size :=
    mirrors.ascending live usable (spared number rfl) found mark
  exact kept'.of_size_le kept size

/-- The trail has at least as many entries as there were at any of these marks. -/
theorem Mirrors.size_le (mirrors : Mirrors Shows ops used model) {number : Nat} {mark : Bookmark}
    (live : LiveMark ops number) (found : used.marks[number]? = some mark) :
    mark.size ≤ used.stack.entries.size := by
  obtain ⟨past, -, found', -, -, newer, grown⟩ := mirrors.live live
  rw [found'] at found
  cases found
  simp [bookmark, grown]

theorem Mirrors.mark (mirrors : Mirrors Shows ops used model) :
    Mirrors Shows (ops ++ [.mark]) ((markedStack obey).perform used .mark).2
      ((immutableStack onList).perform model .mark).2 where
  shows := mirrors.shows
  count := by simp [MarkedStack.perform, markCount_concat, StackOp.isMark, mirrors.count]
  count_model := by
    simp [MarkedStack.perform, markCount_concat, StackOp.isMark, mirrors.count_model]
  live := by
    intro number live
    simp only [MarkedStack.perform]
    rcases live.of_concat with ⟨live, -⟩ | ⟨-, rfl⟩
    · rw [live.getElem?_concat mirrors.count, live.getElem?_concat mirrors.count_model]
      exact mirrors.live live
    · rw [getElem?_markCount mirrors.count, getElem?_markCount mirrors.count_model]
      exact ⟨used.stack, model.stack, rfl, rfl, mirrors.shows, .refl _⟩
  ascending := by
    intro number other mark mark' live live' le found found'
    simp only [MarkedStack.perform] at found found'
    rcases live.of_concat with ⟨live, -⟩ | ⟨-, rfl⟩
    · rw [live.getElem?_concat mirrors.count] at found
      rcases live'.of_concat with ⟨live', -⟩ | ⟨-, rfl⟩
      · rw [live'.getElem?_concat mirrors.count] at found'
        exact mirrors.ascending live live' le found found'
      · rw [getElem?_markCount mirrors.count] at found'
        cases found'
        exact mirrors.size_le live found
    · -- behind the mark just taken there is none but itself
      obtain rfl : other = markCount ops := by
        have last := live'.lt_markCount
        simp only [markCount_concat, StackOp.isMark, if_true] at last
        omega
      cases found.symm.trans found'
      exact Nat.le_refl _

/-- The step: an operation that may be carried out keeps trail and immutable stack alike. -/
theorem Mirrors.perform (mirrors : Mirrors Shows ops used model)
    (follows : Follows obey onList allowed Shows) {op : StackOp κ}
    (permitted : ∀ command, op = .command command → allowed command)
    (usable : ∀ number, op = .rewind number → LiveMark ops number) :
    ((markedStack obey).perform used op).1 = ((immutableStack onList).perform model op).1 ∧
      Mirrors Shows (ops ++ [op]) ((markedStack obey).perform used op).2
        ((immutableStack onList).perform model op).2 := by
  cases op with
  | command command =>
    have here := permitted command rfl
    exact ⟨congrArg some (follows.answer mirrors.shows here), mirrors.command follows here⟩
  | mark => exact ⟨rfl, mirrors.mark⟩
  | rewind number =>
    have live := usable number rfl
    obtain ⟨past, stack, mark, mark', -, -⟩ := mirrors.live live
    exact ⟨by simp [MarkedStack.perform, mark, mark'], mirrors.rewind live⟩

/-- The run: whatever is done, trail and immutable stack stay alike and give the same answers. -/
theorem answers_eq (follows : Follows obey onList allowed Shows) {trail : Trail α}
    {stack : List β} (shows : Shows trail stack) (admissible : Admissible ops)
    (permitted : ∀ command, .command command ∈ ops → allowed command) :
    (markedStack obey).answers { stack := trail } ops =
        (immutableStack onList).answers { stack := stack } ops ∧
      Mirrors Shows ops ((markedStack obey).after { stack := trail } ops)
        ((immutableStack onList).after { stack := stack } ops) := by
  induction ops using List.reverseRecOn with
  | nil => exact ⟨rfl, mirrors_nil shows⟩
  | append_singleton ops op ih =>
    obtain ⟨answered, mirrors⟩ := ih admissible.of_append fun command member =>
      permitted command (List.mem_append_left _ member)
    rw [MarkedStack.answers_concat, MarkedStack.answers_concat, MarkedStack.after_concat,
      MarkedStack.after_concat, answered]
    have usable : ∀ number, op = .rewind number → LiveMark ops number := by
      rintro number rfl
      exact admissible.liveMark
    obtain ⟨same, next⟩ := mirrors.perform follows
      (fun command here => permitted command (by simp [here])) usable
    exact ⟨by rw [same], next⟩

end Mirror

end Trail

/-! ## Saved margins -/

namespace SavedMargins

/-- What can be asked of the saved margins. -/
inductive Command where
  | save (margin : Margin)
  | takeBack
  | last
  | isEmpty
deriving DecidableEq

/-- What the saved margins answer. -/
inductive Answer where
  | saved
  /-- The margin taken back, if one was saved. -/
  | taken (margin? : Option Margin)
  | last (margin : Margin)
  | isEmpty (empty : Bool)
deriving DecidableEq

/-- The answer to a command, and the margins that are saved then. -/
def obey (saved : SavedMargins) : Command → Answer × SavedMargins
  | .save margin => (.saved, saved.push margin)
  | .takeBack =>
    match saved.pop? with
    | some (margin, rest) => (.taken margin, rest)
    | none => (.taken none, saved)
  | .last => (.last saved.last, saved)
  | .isEmpty => (.isEmpty saved.isEmpty, saved)

/-- The commands on an immutable stack of margins. Below the saved margins there is the empty
one. -/
def obeyOnList (stack : List Margin) : Command → Answer × List Margin
  | .save margin => (.saved, margin :: stack)
  | .takeBack => (.taken stack.head?, stack.tail)
  | .last => (.last (stack.head?.getD ⟨0, 0⟩), stack)
  | .isEmpty => (.isEmpty stack.isEmpty, stack)

/-- The saved margins are those of the list. -/
def Shows (saved : SavedMargins) (stack : List Margin) : Prop :=
  Trail.Sound saved ∧ saved.toList = stack

theorem isEmpty_eq {saved : SavedMargins} (sound : Trail.Sound saved) :
    saved.isEmpty = saved.toList.isEmpty := by
  rw [Bool.eq_iff_iff, ← Layout.pop?_eq_none_iff_isEmpty sound.top_le, Trail.pop?_eq_none_iff,
    List.isEmpty_iff]

theorem follows : Trail.Follows obey obeyOnList (fun _ => True) Shows where
  answer := by
    rintro saved stack command ⟨sound, rfl⟩ -
    cases command with
    | save margin => rfl
    | takeBack =>
      cases popped : saved.pop? with
      | none => simp [obey, obeyOnList, popped, Trail.pop?_eq_none_iff.1 popped]
      | some top => simp [obey, obeyOnList, popped, Trail.toList_of_pop? sound popped]
    | last => simp [obey, obeyOnList, last, Trail.peek?_eq_head?]
    | isEmpty => simp [obey, obeyOnList, isEmpty_eq sound]
  shows := by
    rintro saved stack command ⟨sound, rfl⟩ -
    cases command with
    | save margin => exact ⟨sound.push margin, Trail.toList_push sound margin⟩
    | takeBack =>
      cases popped : saved.pop? with
      | none =>
        simp only [obey, obeyOnList, popped, Trail.pop?_eq_none_iff.1 popped]
        exact ⟨sound, Trail.pop?_eq_none_iff.1 popped⟩
      | some top =>
        simp only [obey, obeyOnList, popped, Trail.toList_of_pop? sound popped]
        exact ⟨sound.of_pop? popped, rfl⟩
    | last | isEmpty => exact ⟨sound, rfl⟩
  keeps := by
    intro saved command
    cases command with
    | save margin => exact Trail.keeps_push saved margin
    | takeBack =>
      cases popped : saved.pop? with
      | none => simpa [obey, popped] using Trail.Keeps.refl saved
      | some top => simpa [obey, popped] using Trail.keeps_of_pop? popped
    | last | isEmpty => exact Trail.Keeps.refl saved

end SavedMargins

/-! ## Open brackets -/

namespace OpenLists

/-- What can be asked of the open brackets. -/
inductive Command where
  | enter (state : ListState)
  | leave
  | state
  | depth
deriving DecidableEq

/-- What the open brackets answer. -/
inductive Answer where
  | entered
  /-- The state in which the innermost bracket is closed, if one is open. -/
  | left (state? : Option ListState)
  | state (state : ListState)
  | depth (depth : Nat)
deriving DecidableEq

/-- The answer to a command, and the brackets that are open then. -/
def obey (lists : OpenLists) : Command → Answer × OpenLists
  | .enter state => (.entered, lists.enter state)
  | .leave =>
    match lists.leave? with
    | some (state, rest) => (.left state, rest)
    | none => (.left none, lists)
  | .state => (.state lists.state, lists)
  | .depth => (.depth lists.depth, lists)

/-- The commands on an immutable stack of states. The depth is counted and not kept. -/
def obeyOnList (stack : List ListState) : Command → Answer × List ListState
  | .enter state => (.entered, state :: stack)
  | .leave => (.left stack.head?, stack.tail)
  | .state => (.state (stack.head?.getD .outside), stack)
  | .depth => (.depth stack.length, stack)

/-- The open brackets have the states of the list, and know how many they are. -/
structure Shows (lists : OpenLists) (stack : List ListState) : Prop where
  sound : Trail.Sound lists
  counted : ListFrame.Counted lists.toList
  states : lists.toList.map (·.state) = stack
  inside : .outside ∉ stack

theorem Shows.depth_eq {lists : OpenLists} {stack : List ListState} (shows : Shows lists stack) :
    lists.depth = stack.length := by
  rw [depth_eq_length shows.counted, ← shows.states, List.length_map]

theorem Shows.state_eq {lists : OpenLists} {stack : List ListState} (shows : Shows lists stack) :
    lists.state = stack.head?.getD .outside := by
  rw [OpenLists.state, Trail.peek?_eq_head?, ← shows.states, List.head?_map]
  cases lists.toList.head? <;> rfl

/-- Nothing is open, or the innermost bracket can be closed. -/
theorem Shows.leave?_cases {lists : OpenLists} {stack : List ListState}
    (shows : Shows lists stack) :
    (lists.leave? = none ∧ stack = []) ∨
      ∃ state rest below, lists.leave? = some (state, rest) ∧ stack = state :: below ∧
        Shows rest below := by
  cases left : lists.leave? with
  | none =>
    refine Or.inl ⟨rfl, ?_⟩
    unfold leave? at left
    cases popped : lists.pop? with
    | none => rw [← shows.states, Trail.pop?_eq_none_iff.1 popped, List.map_nil]
    | some top =>
      obtain ⟨⟨state, depth⟩, rest⟩ := top
      cases state with
      | inside bracket shape => simp [popped] at left
      | outside =>
        refine absurd ?_ shows.inside
        rw [← shows.states, Trail.toList_of_pop? shows.sound popped]
        exact List.mem_cons_self
  | some top =>
    obtain ⟨state, rest⟩ := top
    obtain ⟨depth, popped⟩ := pop?_of_leave? left
    have frames := Trail.toList_of_pop? shows.sound popped
    have states := shows.states
    have counted := shows.counted
    rw [frames] at states counted
    refine Or.inr ⟨state, rest, _, rfl, states.symm, shows.sound.of_pop? popped, counted.2, rfl, ?_⟩
    intro member
    exact shows.inside (states ▸ List.mem_cons_of_mem _ member)

theorem follows : Trail.Follows obey obeyOnList (· ≠ .enter .outside) Shows where
  answer := by
    intro lists stack command shows _
    cases command with
    | enter state => rfl
    | leave =>
      rcases shows.leave?_cases with ⟨bottom, rfl⟩ | ⟨state, rest, below, left, rfl, -⟩
      · simp [obey, obeyOnList, bottom]
      · simp [obey, obeyOnList, left]
    | state => simp [obey, obeyOnList, shows.state_eq]
    | depth => simp [obey, obeyOnList, shows.depth_eq]
  shows := by
    intro lists stack command shows permitted
    cases command with
    | enter state =>
      refine ⟨shows.sound.push _, counted_enter shows.sound shows.counted state, ?_, ?_⟩
      · simp [obey, obeyOnList, enter, Trail.toList_push shows.sound, shows.states]
      · have proper : state ≠ .outside := fun same => permitted (congrArg _ same)
        simp [obeyOnList, proper.symm, shows.inside]
    | leave =>
      rcases shows.leave?_cases with ⟨bottom, rfl⟩ | ⟨state, rest, below, left, rfl, inner⟩
      · simpa [obey, obeyOnList, bottom] using shows
      · simpa [obey, obeyOnList, left] using inner
    | state | depth => exact shows
  keeps := by
    intro lists command
    cases command with
    | enter state => exact Trail.keeps_push lists _
    | leave =>
      cases left : OpenLists.leave? lists with
      | none => simpa [obey, left] using Trail.Keeps.refl lists
      | some top =>
        obtain ⟨depth, popped⟩ := pop?_of_leave? left
        simpa [obey, left] using Trail.keeps_of_pop? popped
    | state | depth => exact Trail.Keeps.refl lists

end OpenLists

/-! ## Both are persistent -/

/-- Saved margins and open brackets answer every command as an immutable stack does, of which a mark
is the stack itself: also where values were popped since the mark, or others pushed in their place.
At all times the top is an entry or the bottom, and each entry lies on an earlier one. -/
theorem trails_are_persistent_stacks :
    (∀ ops : List (StackOp SavedMargins.Command), Admissible ops →
      (Trail.markedStack SavedMargins.obey).answers { stack := {} } ops =
          (immutableStack SavedMargins.obeyOnList).answers { stack := [] } ops ∧
        ∀ front, front <+: ops →
          Trail.Sound ((Trail.markedStack SavedMargins.obey).after { stack := {} } front).stack) ∧
    (∀ ops : List (StackOp OpenLists.Command), Admissible ops →
      .command (.enter .outside) ∉ ops →
      (Trail.markedStack OpenLists.obey).answers { stack := {} } ops =
          (immutableStack OpenLists.obeyOnList).answers { stack := [] } ops ∧
        ∀ front, front <+: ops →
          Trail.Sound ((Trail.markedStack OpenLists.obey).after { stack := {} } front).stack) := by
  constructor
  · intro ops admissible
    have start : SavedMargins.Shows {} [] := ⟨.empty, Trail.toList_empty⟩
    refine ⟨(Trail.answers_eq SavedMargins.follows start admissible fun _ _ => trivial).1, ?_⟩
    rintro front ⟨rest, rfl⟩
    have front := Trail.answers_eq SavedMargins.follows start admissible.of_append
      fun _ _ => trivial
    exact front.2.shows.1
  · intro ops admissible proper
    have start : OpenLists.Shows {} [] := by
      refine ⟨.empty, ?_, ?_, List.not_mem_nil⟩
      · simp [Trail.toList_empty, ListFrame.Counted]
      · simp [Trail.toList_empty]
    have permitted {command : OpenLists.Command} (member : .command command ∈ ops) :
        command ≠ .enter .outside := by
      rintro rfl
      exact proper member
    refine ⟨(Trail.answers_eq OpenLists.follows start admissible fun _ => permitted).1, ?_⟩
    rintro front ⟨rest, rfl⟩
    have front := Trail.answers_eq OpenLists.follows start admissible.of_append
      fun command member => permitted (List.mem_append_left _ member)
    exact front.2.shows.sound

/-- A margin and a bracket that were popped behind the mark come back, from under others that were
pushed since. -/
theorem trails_are_persistent_stacks_popped :
    let margins : List (StackOp SavedMargins.Command) :=
      [.command (.save ⟨2, 0⟩), .mark, .command .takeBack, .command (.save ⟨4, 1⟩), .mark,
        .command (.save ⟨6, 0⟩), .rewind 1, .command .last, .rewind 0, .command .last,
        .command .takeBack, .command .isEmpty]
    let brackets : List (StackOp OpenLists.Command) :=
      [.command (.enter (.inside .list .flat)), .mark, .command .leave,
        .command (.enter (.inside .paren .flat)), .command (.enter (.inside .list .broken)),
        .rewind 0, .command .depth, .command .leave]
    Admissible margins ∧ Admissible brackets ∧ .command (.enter .outside) ∉ brackets ∧
      (Trail.markedStack SavedMargins.obey).answers { stack := {} } margins =
        [some .saved, none, some (.taken (some ⟨2, 0⟩)), some .saved, none, some .saved, none,
          some (.last ⟨4, 1⟩), none, some (.last ⟨2, 0⟩), some (.taken (some ⟨2, 0⟩)),
          some (.isEmpty true)] ∧
      (Trail.markedStack OpenLists.obey).answers { stack := {} } brackets =
        [some .entered, none, some (.left (some (.inside .list .flat))), some .entered,
          some .entered, none, some (.depth 1), some (.left (some (.inside .list .flat)))] := by
  intro margins brackets
  have admissible : Admissible margins := by
    have first : LiveMark (margins.take 8) 0 :=
      ⟨margins.take 1, (margins.take 8).drop 2, rfl, rfl, by simp [margins]⟩
    have second : LiveMark (margins.take 6) 1 :=
      ⟨margins.take 4, (margins.take 6).drop 5, rfl, rfl, by simp [margins]⟩
    have front : Admissible (margins.take 6) := .of_forall_notMem (by simp [margins])
    have middle : Admissible (margins.take 8) := front.append_rewind second (by simp)
    exact middle.append_rewind first (by simp)
  have admissible' : Admissible brackets := by
    have first : LiveMark (brackets.take 5) 0 :=
      ⟨brackets.take 1, (brackets.take 5).drop 2, rfl, rfl, by simp [brackets]⟩
    have front : Admissible (brackets.take 5) := .of_forall_notMem (by simp [brackets])
    exact front.append_rewind first (by simp)
  have proper : .command (.enter .outside) ∉ brackets := by decide
  obtain ⟨onMargins, onBrackets⟩ := trails_are_persistent_stacks
  refine ⟨admissible, admissible', proper, ?_, ?_⟩
  · rw [(onMargins margins admissible).1]
    rfl
  · rw [(onBrackets brackets admissible' proper).1]
    rfl

end LineLayout
