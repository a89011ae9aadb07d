import Decomment.Glob.Matching

/-!
# Patterns as regular expressions

A pattern that is matched in full is written as a regular expression first.  The parts of such an
expression may be nested only so deep: groups, alternatives, repetitions, classes, and rows of more
than one part.  Patterns that are used together are refused if the expression of one goes deeper.

**Results.**
* `rowShape_append`: what two rows have and how deep they go.
* `refusal_eq_none_iff`: patterns can be used together exactly if no expression goes too deep.
-/

namespace Decomment
namespace Glob

section Written

/-- A byte in an expression.  Signs with a meaning are escaped, and so is what is not ASCII. -/
def writtenByte (b : UInt8) : Text :=
  let c := Char.ofNat b.toNat
  if b < 0x80 then
    if "\\.+*?()|[]\x7b\x7d^$#&-~".toList.contains c then ['\\', c] else [c]
  else ['\\', 'x', Text.hexDigit (b.toNat / 16), Text.hexDigit (b.toNat % 16)]

def writtenChar (c : Char) : Text :=
  (bytesOf c).flatMap writtenByte

/-- The range of a class in an expression. -/
def writtenRange : Char × Char → Text
  | (low, high) =>
      if low = high then writtenChar low else writtenChar low ++ '-' :: writtenChar high

/-- One byte in an expression.  With `within`, it is no separator. -/
def writtenAny (within : Bool) : Text :=
  if within then "[^/]".toList else ['.']

mutual

def written (within : Bool) : Token → Text
  | .literal c => writtenChar c
  | .any => writtenAny within
  | .many => writtenAny within ++ ['*']
  | .leading => "(?:/?|.*/)".toList
  | .trailing => "/.*".toList
  | .between => "(?:/|/.*/)".toList
  | .oneOf isNegated ranges =>
      '[' :: (if isNegated then ['^'] else []) ++ ranges.flatMap writtenRange ++ [']']
  | .either branches =>
      match writtenBranches within branches with
      | [] => []
      | t => "(?:".toList ++ t ++ [')']

/-- The branches of a group in an expression, without those that take nothing. -/
def writtenBranches (within : Bool) : List (List Token) → Text
  | [] => []
  | b :: bs =>
      match writtenRow within b, writtenBranches within bs with
      | [], u => u
      | t, [] => t
      | t, u => t ++ '|' :: u

/-- Tokens in a row in an expression. -/
def writtenRow (within : Bool) : List Token → Text
  | [] => []
  | t :: ts => written within t ++ writtenRow within ts

end

/-- The expression of a pattern.  Two stars alone take everything. -/
def expression (within : Bool) (toks : List Token) : Text :=
  let row :=
    match toks with
    | [.leading] => ".*".toList
    | toks => writtenRow within toks
  "(?-u)^".toList ++ row ++ ['$']

end Written

section Depth

/-- How deep the parts of an expression may be nested. -/
def maxDepth : Nat :=
  250

/-- How many parts stand in a row, and how deep the deepest of them goes. -/
structure Shape where
  width : Nat
  depth : Nat
deriving DecidableEq, Repr

namespace Shape

/-- The shape of two rows one after the other. -/
def append (a b : Shape) : Shape :=
  ⟨a.width + b.width, max a.depth b.depth⟩

/-- How deep a row goes.  More than one part are nested in the row. -/
def rowDepth (a : Shape) : Nat :=
  if a.width ≤ 1 then a.depth else a.depth + 1

end Shape

mutual

def shape (within : Bool) : Token → Shape
  | .literal c => ⟨(bytesOf c).length, 0⟩
  | .any => ⟨1, if within then 1 else 0⟩
  | .many => ⟨1, if within then 2 else 1⟩
  | .leading => ⟨1, 4⟩
  | .trailing => ⟨2, 1⟩
  | .between => ⟨1, 4⟩
  | .oneOf _ ranges => ⟨1, if (ranges.flatMap byteRanges).length ≤ 1 then 1 else 2⟩
  | .either branches =>
      let s := branchesShape within branches
      if s.width = 0 then ⟨0, 0⟩ else ⟨1, s.rowDepth + 1⟩

/-- How many branches take something, and how deep the deepest of them goes. -/
def branchesShape (within : Bool) : List (List Token) → Shape
  | [] => ⟨0, 0⟩
  | b :: bs =>
      let s := rowShape within b
      (if s.width = 0 then ⟨0, 0⟩ else ⟨1, s.rowDepth⟩ : Shape).append (branchesShape within bs)

/-- The shape of tokens in a row. -/
def rowShape (within : Bool) : List Token → Shape
  | [] => ⟨0, 0⟩
  | t :: ts => (shape within t).append (rowShape within ts)

end

theorem Shape.append_assoc (a b c : Shape) :
    (a.append b).append c = a.append (b.append c) := by
  simp [Shape.append, Nat.add_assoc, Nat.max_assoc]

theorem rowShape_append (within : Bool) (us : List Token) : ∀ ts : List Token,
    rowShape within (ts ++ us) = (rowShape within ts).append (rowShape within us)
  | [] => by simp [rowShape, Shape.append]
  | t :: ts => by
      rw [List.cons_append, rowShape, rowShape, rowShape_append within us ts, Shape.append_assoc]

/-- The expression of a pattern, which is a row, goes too deep. -/
def isTooDeep (within : Bool) (toks : List Token) : Bool :=
  maxDepth < (rowShape within toks).depth + 1

end Depth

section Sets

/-- Why patterns cannot be used together, if they cannot.  Those that are also compared by their
extension are looked at first, each alone, and then those that are matched in full. -/
def refusal (within : Bool) (ps : List (List Token)) : Option GlobSetError :=
  let compared (c : Comparison) := ps.filter fun p => comparison within p = c
  match (compared .extension).find? (isTooDeep within) with
  | some p => some (.tooDeep (String.ofList (expression within p)))
  | none => ((compared .whole).findIdx? (isTooDeep within)).map .tooDeepAt

theorem refusal_eq_none_iff (within : Bool) (ps : List (List Token)) :
    refusal within ps = none ↔
      ∀ p ∈ ps, comparison within p = .extension ∨ comparison within p = .whole →
        isTooDeep within p = false := by
  rw [refusal]
  split
  · rename_i p h
    have hp := List.mem_filter.1 (List.mem_of_find?_eq_some h)
    have deep := List.find?_some h
    constructor
    · exact nofun
    · intro all
      have := all p hp.1 (.inl (of_decide_eq_true hp.2))
      simp [this] at deep
  · rename_i h
    rw [Option.map_eq_none_iff, List.findIdx?_eq_none_iff]
    simp only [List.find?_eq_none, List.mem_filter, decide_eq_true_eq, Bool.not_eq_true,
      and_imp] at h ⊢
    constructor
    · intro g p hp c
      exact c.elim (h p hp) (g p hp)
    · intro g p hp c
      exact g p hp (.inr c)

end Sets

end Glob
end Decomment
