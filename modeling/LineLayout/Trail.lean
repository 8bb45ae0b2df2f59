/-!
# Trails

A trail is a stack that can go back to any state it was bookmarked in, in constant space per
bookmark. Entries are never moved: each one knows which entry lies below it, popping only moves the
top down, and going back drops the entries pushed since and moves the top to where it was.

Entries are numbered from one, so that zero stands for the empty stack. `toList` is the stack that
a trail represents, topmost value first.
-/

namespace LineLayout

/-- A value on a trail, with the number of the entry below it. -/
structure Trail.Entry (α : Type) where
  value : α
  below : Nat
deriving DecidableEq

/-- A stack that keeps what was popped. -/
structure Trail (α : Type) where
  entries : Array (Trail.Entry α) := #[]
  /-- The number of the topmost entry. -/
  top : Nat := 0
deriving DecidableEq

/-- A state to go back to: which entry was topmost, and how many entries there were. -/
structure Trail.Bookmark where
  top : Nat
  size : Nat
deriving DecidableEq

namespace Trail

variable {α : Type}

/-- The entry with a number, if there is one. -/
def entry? (trail : Trail α) : Nat → Option (Entry α)
  | 0 => none
  | index + 1 => trail.entries[index]?

/-- The topmost value. -/
def peek? (trail : Trail α) : Option α :=
  (trail.entry? trail.top).map (·.value)

/-- Pushes a value. -/
def push (trail : Trail α) (value : α) : Trail α :=
  let number := trail.entries.size + 1
  ⟨trail.entries.push ⟨value, trail.top⟩, number⟩

/-- The topmost value and the trail without it; the entry itself stays behind. -/
def pop? (trail : Trail α) : Option (α × Trail α) :=
  (trail.entry? trail.top).map fun entry => (entry.value, { trail with top := entry.below })

/-- The present state, to go back to. -/
def bookmark (trail : Trail α) : Bookmark :=
  ⟨trail.top, trail.entries.size⟩

/-- Goes back to a bookmarked state. -/
def rewind (trail : Trail α) (mark : Bookmark) : Trail α where
  entries := trail.entries.shrink mark.size
  top := mark.top

/-! ## The stack that a trail represents -/

/-- The values from the entry with a number down. -/
def chain (entries : Array (Entry α)) : Nat → List α
  | 0 => []
  | index + 1 =>
    match entries[index]? with
    | some entry =>
      if entry.below ≤ index then entry.value :: chain entries entry.below else [entry.value]
    | none => []
termination_by number => number

/-- The stack that the trail represents, topmost value first. -/
def toList (trail : Trail α) : List α :=
  chain trail.entries trail.top

/-- The top is an entry or the bottom, and each entry lies on one pushed before it. -/
structure Sound (trail : Trail α) : Prop where
  top_le : trail.top ≤ trail.entries.size
  below_le : ∀ {index : Nat} {entry : Entry α},
    trail.entries[index]? = some entry → entry.below ≤ index

theorem toList_empty : ({} : Trail α).toList = [] := by
  simp [toList, chain]

theorem Sound.empty : ({} : Trail α).Sound :=
  ⟨Nat.le_refl 0, by simp⟩

/-- A chain depends on the entries it runs through only. -/
theorem chain_congr {entries others : Array (Entry α)} {number : Nat}
    (same : ∀ index < number, entries[index]? = others[index]?) :
    chain entries number = chain others number := by
  induction number using Nat.strongRecOn with
  | ind number ih =>
    cases number with
    | zero => simp [chain]
    | succ index =>
      have here := same index (Nat.lt_succ_self index)
      simp only [chain, here]
      split
      · split
        · rename_i below
          rw [ih _ (Nat.lt_succ_of_le below) fun k hk => same k (by omega)]
        · rfl
      · rfl

theorem toList_push {trail : Trail α} (sound : trail.Sound) (value : α) :
    (trail.push value).toList = value :: trail.toList := by
  have top : (trail.entries.push ⟨value, trail.top⟩)[trail.entries.size]? =
      some ⟨value, trail.top⟩ := by simp
  simp only [toList, push, chain, top, if_pos sound.top_le]
  rw [chain_congr fun index below => ?_]
  have inside : index < trail.entries.size := Nat.lt_of_lt_of_le below sound.top_le
  simp [Array.getElem?_push, Nat.ne_of_lt inside]

theorem peek?_eq_head? (trail : Trail α) : trail.peek? = trail.toList.head? := by
  obtain ⟨entries, top⟩ := trail
  cases top with
  | zero => simp [peek?, entry?, toList, chain]
  | succ index =>
    simp only [peek?, entry?, toList, chain]
    cases entries[index]? with
    | none => rfl
    | some entry => by_cases below : entry.below ≤ index <;> simp [below]

theorem pop?_eq_none_iff {trail : Trail α} : trail.pop? = none ↔ trail.toList = [] := by
  rw [← List.head?_eq_none_iff, ← peek?_eq_head?]
  simp [pop?, peek?]

theorem toList_of_pop? {trail rest : Trail α} {value : α} (sound : trail.Sound)
    (popped : trail.pop? = some (value, rest)) : trail.toList = value :: rest.toList := by
  obtain ⟨entries, top⟩ := trail
  obtain ⟨entry, found, same⟩ := Option.map_eq_some_iff.1 popped
  cases same
  cases top with
  | zero => cases found
  | succ index =>
    have below : entry.below ≤ index := sound.below_le found
    have here : entries[index]? = some entry := found
    simp [toList, chain, here, below]

/-- A trail that still has all the entries of a bookmarked one goes back to it exactly. -/
theorem rewind_bookmark {trail later : Trail α}
    (kept : later.entries.take trail.entries.size = trail.entries) :
    later.rewind trail.bookmark = trail := by
  obtain ⟨entries, top⟩ := trail
  simpa [rewind, bookmark] using kept

theorem Sound.push {trail : Trail α} (sound : trail.Sound) (value : α) :
    (trail.push value).Sound where
  top_le := by simp [Trail.push]
  below_le := by
    intro index entry found
    simp only [Trail.push, Array.getElem?_push] at found
    split at found
    · cases found
      have := sound.top_le
      simp only
      omega
    · exact sound.below_le found

theorem Sound.of_pop? {trail rest : Trail α} {value : α} (sound : trail.Sound)
    (popped : trail.pop? = some (value, rest)) : rest.Sound := by
  obtain ⟨entries, top⟩ := trail
  obtain ⟨entry, found, same⟩ := Option.map_eq_some_iff.1 popped
  cases same
  refine ⟨?_, sound.below_le⟩
  cases top with
  | zero => cases found
  | succ index =>
    have below : entry.below ≤ index := sound.below_le found
    have inside : index + 1 ≤ entries.size := sound.top_le
    simp only
    omega

end Trail

end LineLayout
