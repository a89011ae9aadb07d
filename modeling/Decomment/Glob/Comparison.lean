import Decomment.Glob.Pattern

/-!
# How patterns are compared with paths

Not every pattern needs all of a path.  One that ends in letters and a dot before them, or is
nothing else than a name, looks at the name with which the path ends; a path that ends in two dots
has no such name.  Others compare one end of the path as text, and the rest are matched in full.

**Results.**
* `comparison_nil`: the empty pattern is matched in full.
* `isLiteralRow_append`: text and text are text.
-/

namespace Decomment
namespace Glob

/-- What of a path a pattern is compared with. -/
inductive Comparison
  /-- The text of the path, or of one of its ends. -/
  | text
  /-- The name at the end of the path, or the extension of that name. -/
  | name
  /-- The extension, and then all of it. -/
  | extension
  /-- All of it. -/
  | whole
deriving DecidableEq, Repr

section Literals

def Token.isLiteral : Token → Bool
  | .literal _ => true
  | _ => false

/-- The token is a character of a name. -/
def Token.isNameLiteral : Token → Bool
  | .literal c => c ≠ '/'
  | _ => false

/-- The token is a character of an extension. -/
def Token.isExtensionLiteral : Token → Bool
  | .literal c => c ≠ '/' && c ≠ '.'
  | _ => false

/-- The token is a character `c`. -/
def Token.isChar (c : Char) : Token → Bool
  | .literal d => c = d
  | _ => false

def isLiteralRow (toks : List Token) : Bool :=
  toks.all Token.isLiteral

theorem isLiteralRow_append (ts us : List Token) :
    isLiteralRow (ts ++ us) = (isLiteralRow ts && isLiteralRow us) :=
  List.all_append

end Literals

section Kinds

/-- A name in any directory. -/
def isName : List Token → Bool
  | .leading :: toks => !toks.isEmpty && toks.all Token.isNameLiteral
  | _ => false

/-- An extension of any name.  With `within`, the name may be in any directory. -/
def isExtension (within : Bool) : List Token → Bool
  | .leading :: .many :: t :: toks => t.isChar '.' && toks.all Token.isExtensionLiteral
  | .many :: t :: toks => !within && t.isChar '.' && toks.all Token.isExtensionLiteral
  | _ => false

/-- Text at the start of the path. -/
def isStart (within : Bool) (toks : List Token) : Bool :=
  match toks.getLast? with
  | some .trailing => isLiteralRow toks.dropLast
  | some .many => !within && !toks.dropLast.isEmpty && isLiteralRow toks.dropLast
  | _ => false

/-- Text at the end of the path, after what may be any directory. -/
def isEnd (within : Bool) (toks : List Token) : Bool :=
  let (inDirectory, toks) :=
    match toks with
    | .leading :: toks => (true, toks)
    | toks => (false, toks)
  let (any, toks) :=
    match toks with
    | .many :: toks => (true, toks)
    | toks => (false, toks)
  !(any && within) && !toks.isEmpty && isLiteralRow toks
    && !(toks.length = 1 && toks.all (Token.isChar '/') && (any || !inDirectory))

/-- A dot and the characters of an extension after it at the end. -/
def endsInExtension (toks : List Token) : Bool :=
  match toks.reverse.dropWhile Token.isExtensionLiteral with
  | t :: _ => t.isChar '.'
  | [] => false

end Kinds

/-- How a pattern is compared with paths. -/
def comparison (within : Bool) (toks : List Token) : Comparison :=
  if isName toks then .name
  else if !toks.isEmpty && isLiteralRow toks then .text
  else if isExtension within toks then .name
  else if isStart within toks || isEnd within toks then .text
  else if endsInExtension toks then .extension
  else .whole

theorem comparison_nil (within : Bool) : comparison within [] = .whole :=
  rfl

end Glob
end Decomment
