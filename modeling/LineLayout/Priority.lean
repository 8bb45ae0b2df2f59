/-!
# Break priorities

Breaking an outer list is preferred to breaking an inner one: a priority is a weight halved once
for each open bracket. Weights are whole halves, so with unit `2 ^ -1024` every priority down to a
depth of 1023 is a whole number of units. Deeper down the unit no longer tells priorities apart and
all of them are zero.
-/

namespace LineLayout

/-- A break priority, in units of `2 ^ -1024`. -/
structure Priority where
  units : Nat
deriving DecidableEq

namespace Priority

instance : LT Priority := ⟨fun p q => p.units < q.units⟩

instance : LE Priority := ⟨fun p q => p.units ≤ q.units⟩

instance (p q : Priority) : Decidable (p < q) :=
  inferInstanceAs (Decidable (p.units < q.units))

instance (p q : Priority) : Decidable (p ≤ q) :=
  inferInstanceAs (Decidable (p.units ≤ q.units))

theorem lt_iff_units {p q : Priority} : p < q ↔ p.units < q.units :=
  Iff.rfl

theorem le_iff_units {p q : Priority} : p ≤ q ↔ p.units ≤ q.units :=
  Iff.rfl

theorem eq_iff_units {p q : Priority} : p = q ↔ p.units = q.units := by
  cases p
  cases q
  simp

/-- A weight of `halves` halves, scaled to a nesting depth. -/
def scaled (halves depth : Nat) : Priority :=
  if depth < 1024 then ⟨halves <<< (1023 - depth)⟩ else ⟨0⟩

/-- A pending break goes before a hard break exactly if its priority is above this one, of weight
one and a half. -/
def hardBreak (depth : Nat) : Priority :=
  scaled 3 depth

/-- The bit pattern of the priority as a binary64 number. A number with leading bit `2 ^ e` units,
`e ≥ 2`, is normal and has exponent field `e - 1`; below that it is a multiple of `2 ^ -1074`. -/
def binary64 (p : Priority) : Nat :=
  let e := p.units.log2
  if p.units < 4 then p.units <<< 50
  else (e - 1) <<< 52 + (p.units - 1 <<< e) <<< 52 >>> e

end Priority

end LineLayout
