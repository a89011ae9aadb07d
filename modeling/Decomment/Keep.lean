import Decomment.Text.Search

/-!
# Comments that are kept

A comment is kept when one of the preserve patterns matches it.  The comment is trimmed first.
A pattern without a star matches every comment that contains it.  A pattern with stars is matched
from end to end: its segments, disjoint and in order, with anything at each star.

**Results.**
* `joinStars_splitStars`: the segments of a pattern, joined by stars, are the pattern.
-/

namespace Decomment
namespace Keep

section Defs

/-- The first segment of a pattern, and the segments after its stars. -/
def splitStars : Text → Text × List Text
  | [] => ([], [])
  | c :: cs =>
      let (first, rest) := splitStars cs
      if c = '*' then ([], first :: rest) else (c :: first, rest)

/-- The segments occur in the text one after the other. -/
def inOrder : List Text → Text → Bool
  | [], _ => true
  | segment :: rest, t =>
      match Text.afterFirst segment t with
      | some t => inOrder rest t
      | none => false

/-- The text between a head and a tail that do not overlap. -/
def between (head tail t : Text) : Option Text :=
  if head.isPrefixOf t then
    let t := t.drop head.length
    if tail.isSuffixOf t then some (t.take (t.length - tail.length)) else none
  else none

/-- The pattern matches the text. -/
def fits (pattern t : Text) : Bool :=
  match splitStars pattern with
  | (word, []) => Text.hasSegment t word
  | (first, segment :: rest) =>
      match between first ((segment :: rest).getLast (by simp)) t with
      | some middle => inOrder (segment :: rest).dropLast middle
      | none => false

/-- Some pattern matches the comment, trimmed. -/
def shouldKeep (patterns : List Text) (comment : Text) : Bool :=
  patterns.any fun pattern => fits pattern (Text.trim comment)

/-- The patterns that hold where no configuration names any. -/
def defaults : List Text :=
  ["TODO:", "FIXME:", "HACK:", "XXX:", "@ts-ignore", "@ts-expect-error", "eslint-",
    "prettier-ignore", "pylint:", "mypy:", "type: ignore"].map String.toList

end Defs

section Laws

/-- The segments of a pattern with a star between each and the next. -/
def joinStars (first : Text) (rest : List Text) : Text :=
  first ++ rest.flatMap ('*' :: ·)

theorem joinStars_cons (c : Char) (first : Text) (rest : List Text) :
    joinStars (c :: first) rest = c :: joinStars first rest := rfl

theorem joinStars_nil_cons (first : Text) (rest : List Text) :
    joinStars [] (first :: rest) = '*' :: joinStars first rest := rfl

theorem joinStars_splitStars : ∀ p : Text,
    joinStars (splitStars p).1 (splitStars p).2 = p
  | [] => rfl
  | c :: cs => by
      have ih := joinStars_splitStars cs
      rw [splitStars]
      by_cases h : c = '*'
      · simp only [if_pos h]
        rw [joinStars_nil_cons, ih, h]
      · simp only [if_neg h]
        rw [joinStars_cons, ih]

end Laws

end Keep
end Decomment
