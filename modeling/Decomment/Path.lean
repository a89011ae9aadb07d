import Decomment.Language

/-!
# Paths

A path is the text of a way through directories.  Its parts are the names between its separators:
empty pieces do not count, nor does a single dot, except at the very start.

**Results.**
* `before_irrefl`: no path comes before itself.
* `pieces_ne_nil`: a path has at least one piece.
-/

namespace Decomment
namespace Path

/-- A part of a path. -/
inductive Part
  | root
  | here
  | up
  | name (s : String)
deriving DecidableEq, Repr

section Parts

/-- The pieces between the separators. -/
def pieces (p : String) : List String :=
  (p.toList.splitOn '/').map String.ofList

/-- The path starts at the root. -/
def isAbsolute (p : String) : Bool :=
  p.toList.head? = some '/'

/-- The part that a piece stands for after the start. -/
def partOfPiece (s : String) : Option Part :=
  if s = "" || s = "." then none
  else if s = ".." then some .up
  else some (.name s)

def parts (p : String) : List Part :=
  (if isAbsolute p then [.root] else if (pieces p).head? = some "." then [.here] else [])
    ++ (pieces p).filterMap partOfPiece

/-- The name that a path ends with. -/
def fileName (p : String) : Option String :=
  match (parts p).getLast? with
  | some (.name s) => some s
  | _ => none

/-- The letters after the last dot of a name, unless the name starts with that dot. -/
def extensionOfName (s : String) : Option String :=
  match s.toList.reverse.span (· != '.') with
  | (_, []) => none
  | (_, ['.']) => none
  | (ext, _) => some (String.ofList ext.reverse)

def extension (p : String) : Option String :=
  (fileName p).bind extensionOfName

/-- The second path, read from the first. -/
def join (p q : String) : String :=
  if isAbsolute q then q
  else if p = "" || p.toList.getLast? = some '/' then p ++ q
  else p ++ "/" ++ q

/-- The pieces without those at the end that do not count.  A dot in front of all does. -/
def dropIdle : List String → List String
  | "." :: ps => "." :: (ps.reverse.dropWhile fun s => s = "" || s = ".").reverse
  | ps => (ps.reverse.dropWhile fun s => s = "" || s = ".").reverse

/-- The path without its last part, for a path that does not start at the root. -/
def parent (p : String) : Option String :=
  match dropIdle (pieces p) with
  | [] => none
  | ps => some ("/".intercalate (dropIdle ps.dropLast))

/-- The path as it is shown and matched: slashes for backslashes, without a dot in front. -/
def display (p : String) : String :=
  let t := p.toList.map fun c => if c = '\\' then '/' else c
  match t with
  | '.' :: '/' :: t => String.ofList t
  | t => String.ofList t

theorem pieces_ne_nil (p : String) : pieces p ≠ [] := by
  simp [pieces, List.splitOn_ne_nil]

end Parts

section Order

/-- The place of a kind of part in the order. -/
def Part.rank : Part → Nat
  | root => 0
  | here => 1
  | up => 2
  | name _ => 3

/-- The order of parts: names come last and are ordered among themselves. -/
def Part.before : Part → Part → Bool
  | name s, name t => s < t
  | a, b => a.rank < b.rank

/-- The order of lists of parts: part by part, a list before its extensions. -/
def partsBefore : List Part → List Part → Bool
  | _, [] => false
  | [], _ :: _ => true
  | a :: as, b :: bs => a.before b || (a = b && partsBefore as bs)

/-- The order of paths. -/
def before (p q : String) : Bool :=
  partsBefore (parts p) (parts q)

def sort (ps : List String) : List String :=
  ps.mergeSort fun p q => !before q p

theorem Part.before_irrefl (a : Part) : a.before a = false := by
  cases a <;> simp [before, rank]

theorem partsBefore_irrefl : ∀ as : List Part, partsBefore as as = false
  | [] => rfl
  | a :: as => by simp [partsBefore, Part.before_irrefl, partsBefore_irrefl as]

theorem before_irrefl (p : String) : before p p = false :=
  partsBefore_irrefl _

end Order

section Languages

def language (p : String) : Except Failure (Rule Char) :=
  match extension p with
  | some ext => Language.detect ext
  | none => .error .noExtension

/-- There is a rule for the path. -/
def isSupported (p : String) : Bool :=
  match language p with
  | .ok _ => true
  | .error _ => false

/-- The display name of the language of a path. -/
def languageLabel (p : String) : String :=
  Language.name ((extension p).getD "")

end Languages

end Path
end Decomment
