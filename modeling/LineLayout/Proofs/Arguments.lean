import LineLayout.Command.Options
import Mathlib.Data.List.Count
import Mathlib.Data.List.Induction
import Mathlib.Data.Nat.Digits.Defs
import Mathlib.Tactic.Ring

/-!
# What the arguments of the render command say

By its text alone, an argument sets the width limit, sets the indent unit, is a path or is bad
(`ArgumentClass.Has`). An argument offends if it is bad, or if it is a path and another one stands
in front of it. As long as no argument offends, reading them keeps the path found and the last
settings (`RenderOptions.collect_append`); the first one that offends is reported.
-/

namespace LineLayout

/-! ## Numerals -/

/-- Decimal digits, at least one, that denote a number of columns that can be told apart. -/
structure Numeral (digits : List Char) (n : Nat) : Prop where
  nonempty : digits ≠ []
  decimal : ∀ c ∈ digits, '0'.toNat ≤ c.toNat ∧ c.toNat ≤ '9'.toNat
  value : Nat.ofDigits 10 (digits.map fun c => c.toNat - '0'.toNat).reverse = n
  bounded : n < 2 ^ 64

/-- A numeral, possibly with a plus sign in front of it. -/
def Denotes (text : List Char) (n : Nat) : Prop :=
  Numeral text n ∨ ∃ digits, text = '+' :: digits ∧ Numeral digits n

theorem foldl_decimal (digits : List Char) (front : Nat) :
    digits.foldl (fun value c => 10 * value + (c.toNat - '0'.toNat)) front =
      front * 10 ^ digits.length +
        Nat.ofDigits 10 (digits.map fun c => c.toNat - '0'.toNat).reverse := by
  induction digits generalizing front with
  | nil => simp
  | cons c digits ih =>
    rw [List.foldl_cons, ih, List.map_cons, List.reverse_cons, Nat.ofDigits_append,
      Nat.ofDigits_singleton, List.length_reverse, List.length_map, List.length_cons]
    ring

theorem decimalValue_eq_ofDigits (digits : List Char) :
    decimalValue digits =
      Nat.ofDigits 10 (digits.map fun c => c.toNat - '0'.toNat).reverse := by
  rw [decimalValue, foldl_decimal, Nat.zero_mul, Nat.zero_add]

theorem Numeral.head_ne_plus {digits : List Char} {n : Nat} : ¬ Numeral ('+' :: digits) n :=
  fun numeral => absurd (numeral.decimal '+' List.mem_cons_self).1 (by decide)

theorem numeral_dropPlus_iff {text : List Char} {n : Nat} :
    Numeral (dropPlus text) n ↔ Denotes text n := by
  unfold dropPlus
  split
  · rename_i digits
    constructor
    · exact fun numeral => Or.inr ⟨digits, rfl, numeral⟩
    · rintro (numeral | ⟨_, ⟨⟩, numeral⟩)
      · exact absurd numeral Numeral.head_ne_plus
      · exact numeral
  · rename_i unsigned
    constructor
    · exact Or.inl
    · rintro (numeral | ⟨digits, rfl, -⟩)
      · exact numeral
      · exact absurd rfl (unsigned digits)

theorem numeral_iff {digits : List Char} {n : Nat} :
    Numeral digits n ↔
      (digits ≠ [] ∧ digits.all Char.isDigit ∧ decimalValue digits ≤ maxColumns) ∧
        decimalValue digits = n := by
  have bound : n ≤ maxColumns ↔ n < 2 ^ 64 := Nat.lt_succ_iff.symm
  have decimal : digits.all Char.isDigit = true ↔
      ∀ c ∈ digits, '0'.toNat ≤ c.toNat ∧ c.toNat ≤ '9'.toNat := by
    rw [List.all_eq_true]
    exact forall₂_congr fun c _ => Char.isDigit_iff_toNat
  rw [decimal, decimalValue_eq_ofDigits]
  constructor
  · rintro ⟨nonempty, decimal, rfl, bounded⟩
    exact ⟨⟨nonempty, decimal, bound.2 bounded⟩, rfl⟩
  · rintro ⟨⟨nonempty, decimal, counted⟩, rfl⟩
    exact ⟨nonempty, decimal, rfl, bound.1 counted⟩

theorem count?_eq_some_iff {text : List Char} {n : Nat} :
    count? text = some n ↔ Denotes text n := by
  rw [count?, ← numeral_dropPlus_iff, numeral_iff]
  simp only [Option.ite_none_right_eq_some, Option.some.injEq]

/-! ## Classes of arguments -/

/-- The argument sets the width limit. -/
def SetsWidth (arg : String) (n : Nat) : Prop :=
  ∃ value, arg.toList = "--width=".toList ++ value ∧ Denotes value n ∧ 1 ≤ n

/-- The argument sets the indent unit. -/
def SetsIndent (arg : String) (n : Nat) : Prop :=
  ∃ value, arg.toList = "--indent=".toList ++ value ∧ Denotes value n

/-- The argument names a script, standard input included. -/
def IsPath (arg : String) : Prop :=
  arg.toList.head? ≠ some '-' ∨ arg = "-"

/-- The argument is none of what an argument can be. -/
def IsBad (arg : String) : Prop :=
  (∀ n, ¬ SetsWidth arg n) ∧ (∀ n, ¬ SetsIndent arg n) ∧ ¬ IsPath arg

/-- What an argument can be by its text alone. -/
inductive ArgumentClass where
  | width
  | indent
  | path
  | bad
deriving DecidableEq

/-- The argument is of the class. -/
def ArgumentClass.Has : ArgumentClass → String → Prop
  | width, arg => ∃ n, SetsWidth arg n
  | indent, arg => ∃ n, SetsIndent arg n
  | path, arg => IsPath arg
  | bad, arg => IsBad arg

namespace Argument

variable {arg : String} {value : List Char} {n : Nat}

theorem ofText_of_width (text : arg.toList = "--width=".toList ++ value) :
    ofText arg = ofWidth value := by
  have found := List.isPrefixOf?_eq_some_iff_append_eq.2 text.symm
  rw [ofText, found]

theorem ofText_of_indent (text : arg.toList = "--indent=".toList ++ value) :
    ofText arg = ofIndent value := by
  have other : "--width=".toList.isPrefixOf? arg.toList = none := by rw [text]; rfl
  have found := List.isPrefixOf?_eq_some_iff_append_eq.2 text.symm
  rw [ofText, other, found]

theorem isPath_iff : IsPath arg ↔ ¬ (['-'].isPrefixOf arg.toList = true ∧ arg ≠ "-") := by
  have hyphen : arg.toList.head? = some '-' ↔ ['-'].isPrefixOf arg.toList = true := by
    cases arg.toList with
    | nil => simp
    | cons c rest =>
      simp only [List.head?_cons, Option.some.injEq, List.isPrefixOf, Bool.and_true, beq_iff_eq]
      exact eq_comm
  rw [IsPath, ne_eq, hyphen, not_and_or, not_not]

/-- A path starts with none of the options, since it does not start with two hyphens. -/
theorem isPrefixOf?_of_isPath (path : IsPath arg) (option : List Char) :
    ('-' :: '-' :: option).isPrefixOf? arg.toList = none := by
  rw [Option.eq_none_iff_forall_ne_some]
  intro value found
  have text := (List.isPrefixOf?_eq_some_iff_append_eq.1 found).symm
  rcases path with other | rfl
  · exact other (by rw [text]; rfl)
  · cases text

theorem ofText_of_isPath (path : IsPath arg) : ofText arg = .path := by
  have notWidth : "--width=".toList.isPrefixOf? arg.toList = none := isPrefixOf?_of_isPath path _
  have notIndent : "--indent=".toList.isPrefixOf? arg.toList = none := isPrefixOf?_of_isPath path _
  rw [ofText, notWidth, notIndent]
  exact if_neg (isPath_iff.1 path)

/-- What an argument is read as holds of its text. -/
def Fits : Argument → String → Prop
  | width n, arg => SetsWidth arg n
  | indent n, arg => SetsIndent arg n
  | path, arg => IsPath arg
  | refused _, _ => True

theorem fits_ofText (arg : String) : (ofText arg).Fits arg := by
  unfold ofText
  split
  · rename_i value found
    have text := (List.isPrefixOf?_eq_some_iff_append_eq.1 found).symm
    unfold ofWidth
    split
    · trivial
    · trivial
    · rename_i limit positive counted
      exact ⟨value, text, count?_eq_some_iff.1 counted, Nat.pos_of_ne_zero positive⟩
  · split
    · rename_i value found
      have text := (List.isPrefixOf?_eq_some_iff_append_eq.1 found).symm
      unfold ofIndent
      split
      · trivial
      · rename_i unit counted
        exact ⟨value, text, count?_eq_some_iff.1 counted⟩
    · split
      · trivial
      · rename_i other
        exact isPath_iff.2 other

theorem ofText_eq_width_iff : ofText arg = width n ↔ SetsWidth arg n := by
  constructor
  · intro same
    have fits := fits_ofText arg
    rwa [same] at fits
  · rintro ⟨value, text, denotes, positive⟩
    rw [ofText_of_width text, ofWidth, count?_eq_some_iff.2 denotes]
    cases n with
    | zero => exact absurd positive (by decide)
    | succ n => rfl

theorem ofText_eq_indent_iff : ofText arg = indent n ↔ SetsIndent arg n := by
  constructor
  · intro same
    have fits := fits_ofText arg
    rwa [same] at fits
  · rintro ⟨value, text, denotes⟩
    rw [ofText_of_indent text, ofIndent, count?_eq_some_iff.2 denotes]

theorem ofText_eq_path_iff : ofText arg = path ↔ IsPath arg := by
  refine ⟨fun same => ?_, ofText_of_isPath⟩
  have fits := fits_ofText arg
  rwa [same] at fits

/-- An argument is bad if and only if it is refused for what it says. -/
theorem isBad_iff : IsBad arg ↔ ∃ refusal, ofText arg = refused refusal := by
  simp only [IsBad, ← ofText_eq_width_iff, ← ofText_eq_indent_iff, ← ofText_eq_path_iff]
  cases ofText arg <;> simp

/-- The class of an argument that has been read. -/
def toClass : Argument → ArgumentClass
  | width _ => .width
  | indent _ => .indent
  | path => .path
  | refused _ => .bad

theorem toClass_ofText_iff {cls : ArgumentClass} :
    (ofText arg).toClass = cls ↔ cls.Has arg := by
  cases cls <;>
    simp only [ArgumentClass.Has, isBad_iff, ← ofText_eq_width_iff, ← ofText_eq_indent_iff,
      ← ofText_eq_path_iff] <;>
    cases ofText arg <;> simp [toClass]

end Argument

instance (cls : ArgumentClass) (arg : String) : Decidable (cls.Has arg) :=
  decidable_of_iff _ Argument.toClass_ofText_iff

instance : DecidablePred IsPath :=
  fun arg => inferInstanceAs (Decidable (ArgumentClass.path.Has arg))

/-! ## Offences -/

/-- The argument is bad, or it is a path behind another one. -/
def Offends (front : List String) (arg : String) : Prop :=
  IsBad arg ∨ IsPath arg ∧ ∃ earlier ∈ front, IsPath earlier

/-- No argument offends. -/
def Inoffensive (args : List String) : Prop :=
  ∀ front arg back, args = front ++ arg :: back → ¬ Offends front arg

/-- The leftmost argument that offends. -/
def FirstOffence (args : List String) (arg : String) : Prop :=
  ∃ front back, args = front ++ arg :: back ∧ Offends front arg ∧ Inoffensive front

theorem inoffensive_nil : Inoffensive [] := by
  intro front arg back split
  simp at split

theorem inoffensive_concat {front : List String} {arg : String} :
    Inoffensive (front ++ [arg]) ↔ Inoffensive front ∧ ¬ Offends front arg := by
  constructor
  · intro clean
    refine ⟨?_, clean front arg [] rfl⟩
    rintro before other back rfl
    exact clean before other (back ++ [arg]) (by simp)
  · rintro ⟨clean, harmless⟩ before other back split
    rcases List.eq_nil_or_concat back with rfl | ⟨back, last, rfl⟩
    · obtain ⟨rfl, same⟩ := List.append_inj' split rfl
      cases same
      exact harmless
    · rw [List.concat_eq_append, ← List.cons_append, ← List.append_assoc] at split
      exact clean before other back (List.append_inj' split rfl).1

theorem inoffensive_or_exists (args : List String) :
    Inoffensive args ∨ ∃ arg, FirstOffence args arg := by
  induction args using List.reverseRecOn with
  | nil => exact Or.inl inoffensive_nil
  | append_singleton front arg ih =>
    rcases ih with clean | ⟨other, before, back, rfl, offends, clean⟩
    · by_cases offends : Offends front arg
      · exact Or.inr ⟨arg, front, [], rfl, offends, clean⟩
      · exact Or.inl (inoffensive_concat.2 ⟨clean, offends⟩)
    · exact Or.inr ⟨other, before, back ++ [arg], by simp, offends, clean⟩

/-- No argument offends if none is bad and at most one is a path. -/
theorem inoffensive_iff {args : List String} :
    Inoffensive args ↔
      (∀ arg ∈ args, ¬ IsBad arg) ∧ (args.filter (IsPath ·)).length ≤ 1 := by
  induction args using List.reverseRecOn with
  | nil => simp [inoffensive_nil]
  | append_singleton front arg ih =>
    have earlier : (∃ other ∈ front, IsPath other) ↔ 0 < (front.filter (IsPath ·)).length := by
      simp [List.length_pos_iff_exists_mem]
    have good : (∀ other ∈ front ++ [arg], ¬ IsBad other) ↔
        (∀ other ∈ front, ¬ IsBad other) ∧ ¬ IsBad arg := by
      simp [or_imp, forall_and]
    rw [inoffensive_concat, ih, Offends, earlier, good, List.filter_append, List.length_append]
    by_cases path : IsPath arg
    · have one : ([arg].filter (IsPath ·)).length = 1 := by simp [path]
      have few : (front.filter (IsPath ·)).length + 1 ≤ 1 ↔
          (front.filter (IsPath ·)).length ≤ 1 ∧ ¬ 0 < (front.filter (IsPath ·)).length := by omega
      rw [one, few, and_iff_right path, not_or]
      exact and_and_and_comm
    · have none : ([arg].filter (IsPath ·)).length = 0 := by simp [path]
      simp only [none, path, false_and, or_false, Nat.add_zero]
      exact and_right_comm

/-! ## Reading the arguments -/

/-- The value that the last argument to set it gives, or the default if none does. -/
inductive LastSet (Sets : String → Nat → Prop) (args : List String) (default : Nat) : Nat → Prop
    where
  | last {front back : List String} {arg : String} {value : Nat}
      (split : args = front ++ arg :: back) (sets : Sets arg value)
      (unset : ∀ other ∈ back, ∀ n, ¬ Sets other n) : LastSet Sets args default value
  | absent (unset : ∀ arg ∈ args, ∀ n, ¬ Sets arg n) : LastSet Sets args default default

namespace Argument

/-- The width limit that an argument sets. -/
def width? : Argument → Option Nat
  | width n => some n
  | _ => none

/-- The indent unit that an argument sets. -/
def indent? : Argument → Option Nat
  | indent n => some n
  | _ => none

end Argument

theorem LastSet.concat {Sets : String → Nat → Prop} {front : List String} {arg : String}
    {default value : Nat} (last : LastSet Sets front default value) (unset : ∀ n, ¬ Sets arg n) :
    LastSet Sets (front ++ [arg]) default value := by
  cases last with
  | @last before back other _ split sets unset' =>
    refine .last (split ▸ List.append_assoc before (other :: back) [arg]) sets ?_
    simpa [or_imp, forall_and] using ⟨unset', unset⟩
  | absent unset' =>
    refine .absent ?_
    simpa [or_imp, forall_and] using ⟨unset', unset⟩

theorem lastSet_getLastD {Sets : String → Nat → Prop} {value? : String → Option Nat}
    (sets : ∀ {arg n}, value? arg = some n ↔ Sets arg n) (args : List String) (default : Nat) :
    LastSet Sets args default ((args.filterMap value?).getLastD default) := by
  induction args using List.reverseRecOn with
  | nil => exact .absent (by simp)
  | append_singleton front arg ih =>
    rw [List.filterMap_append]
    cases value : value? arg with
    | some n =>
      have here : [arg].filterMap value? = [n] := by simp [value]
      rw [here, List.getLastD_concat]
      exact .last (rfl : front ++ [arg] = front ++ arg :: []) (sets.1 value) (by simp)
    | none =>
      have here : [arg].filterMap value? = [] := by simp [value]
      rw [here, List.append_nil]
      refine ih.concat fun n set => ?_
      rw [← sets, value] at set
      cases set

namespace RenderOptions

/-- The settings that the arguments leave. -/
def settings (args : List String) : Config where
  widthLimit := (args.filterMap fun arg => (Argument.ofText arg).width?).getLastD 80
  indentUnit := (args.filterMap fun arg => (Argument.ofText arg).indent?).getLastD 2

/-- The paths among the arguments. -/
def paths (args : List String) : List String :=
  args.filter (IsPath ·)

/-- Arguments that do not offend are read one after another, and leave what they say to be read on
with. -/
theorem collect_append {front : List String} (clean : Inoffensive front) (rest : List String) :
    collect none {} (front ++ rest) = collect (paths front).head? (settings front) rest := by
  induction front using List.reverseRecOn generalizing rest with
  | nil => rfl
  | append_singleton front arg ih =>
    obtain ⟨clean, harmless⟩ := inoffensive_concat.1 clean
    rw [List.append_assoc, ih clean, List.singleton_append, collect.eq_def]
    dsimp only
    cases read : Argument.ofText arg with
    | width n =>
      have other : ¬ IsPath arg := by simp [← Argument.ofText_eq_path_iff, read]
      simp [paths, settings, other, read, Argument.width?, Argument.indent?]
    | indent n =>
      have other : ¬ IsPath arg := by simp [← Argument.ofText_eq_path_iff, read]
      simp [paths, settings, other, read, Argument.width?, Argument.indent?]
    | path =>
      have path := Argument.ofText_eq_path_iff.1 read
      have first : paths front = [] := by
        rw [paths, List.filter_eq_nil_iff]
        intro other member path'
        exact harmless (Or.inr ⟨path, other, member, of_decide_eq_true path'⟩)
      have added : paths (front ++ [arg]) = [arg] := by
        rw [paths, List.filter_append, ← paths, first]
        simp [path]
      rw [first, added]
      simp [settings, read, Argument.width?, Argument.indent?]
    | refused refusal => exact absurd (Or.inl (Argument.isBad_iff.2 ⟨refusal, read⟩)) harmless

theorem parse_of_inoffensive {args : List String} (clean : Inoffensive args) :
    parse args = collect (paths args).head? (settings args) [] := by
  rw [parse, ← collect_append clean, List.append_nil]

theorem parse_of_firstOffence {args : List String} {arg : String} (first : FirstOffence args arg) :
    ∃ refusal, parse args = .error (.invalidOption arg refusal) := by
  obtain ⟨front, back, rfl, offends, clean⟩ := first
  rw [parse, collect_append clean, collect.eq_def]
  dsimp only
  rcases offends with bad | ⟨path, earlier, member, path'⟩
  · obtain ⟨refusal, read⟩ := Argument.isBad_iff.1 bad
    exact ⟨refusal, by rw [read]⟩
  · have found : earlier ∈ paths front := List.mem_filter.2 ⟨member, decide_eq_true path'⟩
    cases earlierPaths : paths front with
    | nil => rw [earlierPaths] at found; cases found
    | cons one more => exact ⟨.secondPath, by rw [Argument.ofText_of_isPath path]; rfl⟩

theorem inoffensive_of_parse {args : List String}
    (valid : ∀ arg refusal, parse args ≠ .error (.invalidOption arg refusal)) :
    Inoffensive args := by
  rcases inoffensive_or_exists args with clean | ⟨arg, first⟩
  · exact clean
  · obtain ⟨refusal, failed⟩ := parse_of_firstOffence first
    exact absurd failed (valid arg refusal)

theorem parse_eq_ok_iff {args : List String} {options : RenderOptions} :
    parse args = .ok options ↔
      (∀ arg ∈ args, ¬ IsBad arg) ∧ paths args = [options.path] ∧
        options.config = settings args := by
  constructor
  · intro read
    have clean : Inoffensive args := inoffensive_of_parse (by simp [read])
    obtain ⟨good, few⟩ := inoffensive_iff.1 clean
    rw [parse_of_inoffensive clean] at read
    rw [← paths] at few
    cases found : paths args with
    | nil => rw [found] at read; cases read
    | cons path more =>
      rw [found] at read few
      cases read
      obtain rfl : more = [] := by simpa using few
      exact ⟨good, rfl, rfl⟩
  · rintro ⟨good, one, config⟩
    have few : (paths args).length ≤ 1 := by simp [one]
    rw [parse_of_inoffensive (inoffensive_iff.2 ⟨good, few⟩), one, ← config]
    rfl

theorem parse_eq_missingPath_iff {args : List String} :
    parse args = .error .missingPath ↔
      (∀ arg ∈ args, ¬ IsBad arg) ∧ ∀ arg ∈ args, ¬ IsPath arg := by
  have none : (∀ arg ∈ args, ¬ IsPath arg) ↔ paths args = [] := by simp [paths]
  rw [none]
  constructor
  · intro failed
    have clean : Inoffensive args := inoffensive_of_parse (by simp [failed])
    rw [parse_of_inoffensive clean] at failed
    refine ⟨(inoffensive_iff.1 clean).1, ?_⟩
    cases found : paths args with
    | nil => rfl
    | cons path more => rw [found] at failed; cases failed
  · rintro ⟨good, nothing⟩
    have few : (paths args).length ≤ 1 := by simp [nothing]
    rw [parse_of_inoffensive (inoffensive_iff.2 ⟨good, few⟩), nothing]
    rfl

theorem parse_eq_invalidOption_iff {args : List String} {arg : String} :
    (∃ refusal, parse args = .error (.invalidOption arg refusal)) ↔ FirstOffence args arg := by
  refine ⟨fun ⟨refusal, failed⟩ => ?_, parse_of_firstOffence⟩
  rcases inoffensive_or_exists args with clean | ⟨other, first⟩
  · rw [parse_of_inoffensive clean] at failed
    cases found : (paths args).head? with
    | none => rw [found] at failed; cases failed
    | some path => rw [found] at failed; cases failed
  · obtain ⟨refusal', failed'⟩ := parse_of_firstOffence first
    rw [failed] at failed'
    cases failed'
    exact first

/-! ## Reordering -/

/-- The arguments of each class come in the same order. -/
def Reorders (others args : List String) : Prop :=
  ∀ cls : ArgumentClass, others.filter (cls.Has ·) = args.filter (cls.Has ·)

/-- What only arguments of one class say can be read off those. -/
theorem filterMap_of_class (cls : ArgumentClass) (value? : Argument → Option Nat)
    (only : ∀ argument, argument.toClass ≠ cls → value? argument = none) (args : List String) :
    (args.filter (cls.Has ·)).filterMap (fun arg => value? (Argument.ofText arg)) =
      args.filterMap fun arg => value? (Argument.ofText arg) := by
  rw [List.filterMap_filter]
  congr 1
  funext arg
  by_cases has : cls.Has arg
  · simp [has]
  · simp [has, only _ (mt Argument.toClass_ofText_iff.1 has)]

theorem Reorders.settings {others args : List String} (reorders : Reorders others args) :
    settings others = settings args := by
  have widths := filterMap_of_class .width Argument.width?
    fun argument => by cases argument <;> simp [Argument.toClass, Argument.width?]
  have indents := filterMap_of_class .indent Argument.indent?
    fun argument => by cases argument <;> simp [Argument.toClass, Argument.indent?]
  rw [RenderOptions.settings, RenderOptions.settings, ← widths others, ← indents others,
    reorders .width, reorders .indent, widths, indents]

theorem Reorders.parse {others args : List String} (reorders : Reorders others args)
    {options : RenderOptions} (read : RenderOptions.parse args = .ok options) :
    RenderOptions.parse others = .ok options := by
  have good_iff (args : List String) :
      (∀ arg ∈ args, ¬ IsBad arg) ↔ args.filter (ArgumentClass.bad.Has ·) = [] := by
    rw [List.filter_eq_nil_iff]
    simp only [decide_eq_true_eq]
    rfl
  obtain ⟨good, one, config⟩ := parse_eq_ok_iff.1 read
  refine parse_eq_ok_iff.2 ⟨?_, (reorders .path).trans one, config.trans reorders.settings.symm⟩
  rw [good_iff, reorders .bad, ← good_iff]
  exact good

/-- Every argument is of one class. Arguments that are read without an error are one path and
settings, of which the last ones hold, and it does not matter how they are mixed. Otherwise the
leftmost argument that offends is reported, or that there is no path. -/
theorem parse_by_class (args : List String) :
    (∀ arg, ∃! cls : ArgumentClass, cls.Has arg) ∧
      ((∃ options, parse args = .ok options) ↔
        (∀ arg ∈ args, ¬ IsBad arg) ∧ (args.filter (IsPath ·)).length = 1) ∧
      (∀ options, parse args = .ok options → args.filter (IsPath ·) = [options.path] ∧
        LastSet SetsWidth args 80 options.config.widthLimit ∧
        LastSet SetsIndent args 2 options.config.indentUnit) ∧
      (∀ options others, parse args = .ok options → Reorders others args →
        parse others = .ok options) ∧
      (∀ arg, (∃ refusal, parse args = .error (.invalidOption arg refusal)) ↔
        FirstOffence args arg) ∧
      ((∃ front arg back, args = front ++ arg :: back ∧ Offends front arg) →
        ∃ arg, FirstOffence args arg) ∧
      (parse args = .error .missingPath ↔
        (∀ arg ∈ args, ¬ IsBad arg) ∧ ∀ arg ∈ args, ¬ IsPath arg) := by
  refine ⟨?_, ?_, ?_, fun options others read reorders => reorders.parse read,
    fun arg => parse_eq_invalidOption_iff, ?_, parse_eq_missingPath_iff⟩
  · intro arg
    refine ⟨_, Argument.toClass_ofText_iff.1 rfl, fun cls has => ?_⟩
    exact (Argument.toClass_ofText_iff.2 has).symm
  · simp only [parse_eq_ok_iff, List.length_eq_one_iff]
    constructor
    · rintro ⟨options, good, one, -⟩
      exact ⟨good, _, one⟩
    · rintro ⟨good, path, one⟩
      exact ⟨⟨path, settings args⟩, good, one, rfl⟩
  · intro options read
    obtain ⟨-, one, config⟩ := parse_eq_ok_iff.1 read
    rw [config]
    refine ⟨one, lastSet_getLastD ?_ args 80, lastSet_getLastD ?_ args 2⟩
    · intro arg n
      rw [← Argument.ofText_eq_width_iff]
      cases Argument.ofText arg <;> simp [Argument.width?]
    · intro arg n
      rw [← Argument.ofText_eq_indent_iff]
      cases Argument.ofText arg <;> simp [Argument.indent?]
  · rintro ⟨front, arg, back, split, offends⟩
    rcases inoffensive_or_exists args with clean | first
    · exact absurd offends (clean front arg back split)
    · exact first

/-- Settings may stand behind the path and be given twice, and of a width of zero and a second path
the one that comes first is reported. -/
theorem parse_by_class_mixed :
    parse ["--width=+7", "a.tok", "--indent=3", "--width=40"] = .ok ⟨"a.tok", ⟨40, 3⟩⟩ ∧
      FirstOffence ["--indent=0", "-", "--width=0", "a.tok"] "--width=0" := by
  have read : parse ["--width=+7", "--width=40", "--indent=3", "a.tok"] =
      .ok ⟨"a.tok", ⟨40, 3⟩⟩ := by decide
  have reorders : Reorders ["--width=+7", "a.tok", "--indent=3", "--width=40"]
      ["--width=+7", "--width=40", "--indent=3", "a.tok"] := by
    intro cls
    cases cls <;> decide
  obtain ⟨-, -, -, reordered, -⟩ := parse_by_class ["--width=+7", "--width=40", "--indent=3", "a.tok"]
  obtain ⟨-, -, -, -, offence, -⟩ := parse_by_class ["--indent=0", "-", "--width=0", "a.tok"]
  exact ⟨reordered _ _ read reorders, (offence "--width=0").1 ⟨.zeroWidth, by decide⟩⟩

end RenderOptions

end LineLayout
