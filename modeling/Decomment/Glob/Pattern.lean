import Decomment.Text.Blank
import Decomment.Failure

/-!
# Glob patterns

A pattern is read into tokens.  Two stars that fill a whole component are a token of their own,
which depends on where the component stands; elsewhere they are two stars.  Groups of alternatives
nest.  A class runs up to the first closing bracket that is not its first member; ignore files
take a bracket without an end as itself.

**Results.**
* `length_readClass_le`: reading a class does not lengthen the text.
* `parse_nil`: the empty text is the empty pattern.
-/

namespace Decomment
namespace Glob

/-- A token of a pattern. -/
inductive Token
  | literal (c : Char)
  /-- One byte. -/
  | any
  /-- Any number of bytes. -/
  | many
  /-- Any number of whole components at the start. -/
  | leading
  /-- A separator, and whatever follows. -/
  | trailing
  /-- A separator, or several with whole components between them. -/
  | between
  | oneOf (isNegated : Bool) (ranges : List (Char × Char))
  | either (branches : List (List Token))
deriving Repr

section Classes

/-- The members of a class with the end of a range put in. -/
def closeRange (high : Char) : List (Char × Char) → Except GlobError (List (Char × Char))
  | [] => .ok [(high, high)]
  | (low, _) :: done =>
      if high < low then .error (.invalidRange low high) else .ok ((low, high) :: done)

/-- Reads a class on, with the members `done`, last first, and tells what follows it, if it
ends. -/
def readClass (isFirst inRange : Bool) (done : List (Char × Char)) :
    Text → Except GlobError (Option (List (Char × Char) × Text))
  | [] => .ok none
  | c :: t =>
      if c = ']' && !isFirst then
        .ok (some ((if inRange then ('-', '-') :: done else done).reverse, t))
      else if c = '-' && !isFirst && !inRange then readClass false true done t
      else if inRange then
        match closeRange c done with
        | .error e => .error e
        | .ok done => readClass false false done t
      else readClass false false ((c, c) :: done) t

theorem length_readClass_le {isFirst inRange : Bool} {done rs : List (Char × Char)} {t u : Text}
    (h : readClass isFirst inRange done t = .ok (some (rs, u))) : u.length ≤ t.length := by
  fun_induction readClass isFirst inRange done t with
  | case1 => cases h
  | case2 =>
      cases h
      simp
  | case3 _ _ _ _ _ _ _ ih => exact Nat.le_succ_of_le (ih h)
  | case4 => cases h
  | case5 _ _ _ _ _ _ _ _ ih => exact Nat.le_succ_of_le (ih h)
  | case6 _ _ _ _ _ _ _ _ ih => exact Nat.le_succ_of_le (ih h)

end Classes

section Reading

/-- A group of alternatives that is open: the tokens before it and its branches so far, all last
first. -/
structure Group where
  before : List Token
  branches : List (List Token)

/-- What has been read: the last character, the tokens of the present branch, last first, and the
groups around it, innermost first. -/
structure State where
  last : Option Char := none
  tokens : List Token := []
  groups : List Group := []
  /-- A bracket without an end was found, so that all brackets stand for themselves. -/
  plainBrackets : Bool := false

namespace State

/-- The state after a token that ends with a character. -/
def push (s : State) (last : Char) (ts : List Token) : State :=
  { s with last := some last, tokens := ts ++ s.tokens }

/-- The present branch belongs to a group. -/
def isGrouped (s : State) : Bool :=
  !s.groups.isEmpty

/-- The state in a new group. -/
def openGroup (s : State) : State :=
  { s with last := some '\x7b', tokens := [], groups := ⟨s.tokens, []⟩ :: s.groups }

/-- The state after a comma. -/
def nextBranch (s : State) : State :=
  match s.groups with
  | [] => s.push ',' [.literal ',']
  | g :: gs =>
      { s with
        last := some ','
        tokens := []
        groups := { g with branches := s.tokens :: g.branches } :: gs }

/-- The branches of the present group. -/
def allBranches (s : State) (g : Group) : List (List Token) :=
  ((s.tokens :: g.branches).map List.reverse).reverse

/-- The state after the end of a group. -/
def closeGroup (s : State) : Except GlobError State :=
  match s.groups with
  | [] => .error .unopenedAlternates
  | g :: gs =>
      .ok { s with
        last := some '\x7d'
        tokens := .either (s.allBranches g) :: g.before
        groups := gs }

/-- The state in which the last token, a separator, is taken into a token for components. -/
def absorb (s : State) (last : Char) (t : Token) : State :=
  match s.tokens with
  | .leading :: ts => { s with last := some last, tokens := .leading :: ts }
  | .trailing :: ts => { s with last := some last, tokens := .trailing :: ts }
  | _ :: ts => { s with last := some last, tokens := t :: ts }
  | [] => { s with last := some last, tokens := [t] }

/-- Two stars may fill a component here: they come after a separator, or open a branch. -/
def startsComponent (s : State) : Bool :=
  s.last = some '/' || (s.isGrouped && (s.last = some ',' || s.last = some '\x7b'))

/-- The state after two stars, and the text after what they took in of `t`. -/
def doubleStar (s : State) (t : Text) : State × Text :=
  let plain := (s.push '*' [.many, .many], t)
  if s.tokens.isEmpty then
    match t with
    | [] => (s.push '*' [.leading], [])
    | '/' :: t => (s.push '/' [.leading], t)
    | _ => plain
  else if s.startsComponent then
    match t with
    | [] => (s.absorb '*' .trailing, [])
    | '/' :: t => (s.absorb '/' .between, t)
    | c :: _ =>
        if (c = ',' || c = '\x7d') && s.isGrouped then (s.absorb '*' .trailing, t) else plain
  else plain

/-- The tokens, if no group is open. -/
def finish (s : State) : Except GlobError (List Token) :=
  if s.isGrouped then .error .unclosedAlternates else .ok s.tokens.reverse

theorem length_doubleStar_le (s : State) (t : Text) : (s.doubleStar t).2.length ≤ t.length := by
  unfold doubleStar
  simp only
  split
  · split <;> simp_all
  · split
    · split
      · simp_all
      · simp_all
      · split <;> simp_all
    · simp

end State

/-- Splits off the mark of a negated class. -/
def takeNegation : Text → Bool × Text
  | '!' :: t => (true, t)
  | '^' :: t => (true, t)
  | t => (false, t)

theorem length_takeNegation_le (t : Text) : (takeNegation t).2.length ≤ t.length := by
  unfold takeNegation
  split <;> simp

/-- Reads a pattern on.  With `lenient`, a bracket without an end stands for itself. -/
def readFrom (lenient : Bool) (s : State) (t : Text) : Except GlobError (List Token) :=
  match t with
  | [] => s.finish
  | '?' :: t => readFrom lenient (s.push '?' [.any]) t
  | '*' :: '*' :: t =>
      let r := s.doubleStar t
      readFrom lenient r.1 r.2
  | '*' :: t => readFrom lenient (s.push '*' [.many]) t
  | '\x7b' :: t => readFrom lenient s.openGroup t
  | '\x7d' :: t =>
      match s.closeGroup with
      | .error e => .error e
      | .ok s => readFrom lenient s t
  | ',' :: t => readFrom lenient s.nextBranch t
  | '\\' :: t =>
      match t with
      | [] => .error .danglingEscape
      | c :: t => readFrom lenient (s.push c [.literal c]) t
  | c :: t =>
      if c = '[' && !s.plainBrackets then
        match _h : readClass true false [] (takeNegation t).2 with
        | .error e => .error e
        | .ok (some (ranges, rest)) =>
            readFrom lenient (s.push ']' [.oneOf (takeNegation t).1 ranges]) rest
        | .ok none =>
            if lenient then
              readFrom lenient { s.push '[' [.literal '['] with plainBrackets := true } t
            else .error .unclosedClass
      else readFrom lenient (s.push c [.literal c]) t
termination_by t.length
decreasing_by
  all_goals simp only [List.length_cons]
  all_goals first
    | omega
    | exact Nat.lt_succ_of_le (Nat.le_succ_of_le (State.length_doubleStar_le _ _))
    | exact Nat.lt_succ_of_le (Nat.le_trans (length_readClass_le _h) (length_takeNegation_le _))

end Reading

def parse (lenient : Bool) (t : Text) : Except GlobError (List Token) :=
  readFrom lenient {} t

theorem parse_nil (lenient : Bool) : parse lenient [] = .ok [] := by
  rw [parse, readFrom]
  rfl

end Glob
end Decomment
