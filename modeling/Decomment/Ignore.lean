import Decomment.Glob.Expression
import Decomment.Text.Lines
import Decomment.Text.Digit
import Decomment.Tree

/-!
# Ignore rules

A line of an ignore file is a glob with some marks around it: an exclamation mark in front admits
what other rules ignore, a slash in front or within ties the glob to the directory of the file, a
slash at the end limits it to directories.  Of the rules of a file the last that matches counts.

Lines that are no glob are left out and reported.  Reading stops at a line that is no text.

**Results.**
* `verdict_nil`: without rules there is no verdict.
* `verdict_append`: later rules outrank earlier ones.
* `compile_eq_self`: rules without a fault are used as they are.
-/

namespace Decomment
namespace Ignore

/-- What a rule says of a path that it matches. -/
inductive Verdict
  | ignored
  | admitted
deriving DecidableEq, Repr

/-- A rule. -/
structure Rule where
  verdict : Verdict
  onlyDirectories : Bool
  tokens : List Glob.Token
deriving Repr

/-- What is wrong with a line. -/
inductive LineFault
  | glob (written : String) (cause : GlobError)
  | notText
deriving DecidableEq, Repr

/-- The wording of what is wrong with a line. -/
def LineFault.message : LineFault → String
  | glob written cause => cause.report written
  | notText => FsError.notText.message

/-- What is wrong with ignore rules: a line of a file, a file as a whole, or all rules
together. -/
inductive Fault
  | line (path : String) (number : Nat) (cause : LineFault)
  | file (path : String) (cause : FsError)
  | rules (cause : GlobSetError)
deriving DecidableEq, Repr

def Fault.message : Fault → String
  | line path number cause =>
      path ++ ": line " ++ String.ofList (Text.numeral number) ++ ": " ++ cause.message
  | file path cause => path ++ ": " ++ cause.message
  | rules cause => cause.message

section Lines

/-- The line without blanks at the end, unless the last one is escaped. -/
def trimLine (t : Text) : Text :=
  if ['\\', ' '].isSuffixOf t then t else Text.trimEnd t

/-- The parts of a line: what its rule says, whether the glob is tied to the directory by a slash
in front, and the glob. -/
def takeMarks : Text → Verdict × Bool × Text
  | '\\' :: '!' :: t => (.ignored, false, '!' :: t)
  | '\\' :: '#' :: t => (.ignored, false, '#' :: t)
  | '!' :: '/' :: t => (.admitted, true, t)
  | '!' :: t => (.admitted, false, t)
  | '/' :: t => (.ignored, true, t)
  | t => (.ignored, false, t)

/-- The glob without a slash at its end, if there is one, which may be escaped. -/
def takeSlash (t : Text) : Bool × Text :=
  if t.getLast? = some '/' then
    let t := t.dropLast
    (true, if t.getLast? = some '\\' then t.dropLast else t)
  else (false, t)

/-- The glob for the whole path.  One without a slash applies in every directory, and one that
ends with two stars does not apply to the directory itself. -/
def wholeGlob (isTied : Bool) (t : Text) : Text :=
  let t :=
    if !isTied && !t.contains '/' && t ≠ ['*', '*'] then ['*', '*', '/'] ++ t
    else t
  if ['/', '*', '*'].isSuffixOf t then t ++ ['/', '*'] else t

/-- The rule of a line, if it has one. -/
def readLine (t : Text) : Except LineFault (Option Rule) :=
  if t.head? = some '#' then .ok none
  else
    let written := trimLine t
    if written.isEmpty then .ok none
    else
      let (verdict, isTied, t) := takeMarks written
      let (onlyDirectories, t) := takeSlash t
      match Glob.parse true (wholeGlob isTied t) with
      | .ok tokens => .ok (some ⟨verdict, onlyDirectories, tokens⟩)
      | .error e => .error (.glob (String.ofList written) e)

end Lines

section Files

/-- The lines of a file, of which some may be no text. -/
def byteLines (b : ByteArray) : List (Option Text) :=
  let pieces := b.toList.splitOn 0x0A
  let decode (bs : List UInt8) : Option Text :=
    (String.fromUTF8? bs.toByteArray).map String.toList
  let last := pieces.getLast?.getD []
  pieces.dropLast.map (fun bs => (decode bs).map Text.dropCarriageReturn)
    ++ (if last.isEmpty then [] else [decode last])

/-- The rules and the faults of the lines from a number on. -/
def readLines (path : String) (number : Nat) : List (Option Text) → List Rule × List Fault
  | [] => ([], [])
  | none :: _ => ([], [.line path number .notText])
  | some t :: rest =>
      let t := if number = 1 then t.dropWhile (· = '\ufeff') else t
      let (rules, faults) := readLines path (number + 1) rest
      match readLine t with
      | .ok (some r) => (r :: rules, faults)
      | .ok none => (rules, faults)
      | .error f => (rules, .line path number f :: faults)

/-- The rules and the faults of an ignore file. -/
def readFile (path : String) (b : ByteArray) : List Rule × List Fault :=
  readLines path 1 (byteLines b)

/-- The rules and the faults of the ignore file at a path, if it is a file. -/
def readAt (tree : Tree) (cwd : Location) (path : String) : Option (List Rule × List Fault) :=
  match tree.read cwd path with
  | .ok b => some (readFile path b)
  | .error _ => none

/-- The rules, if they can be used together. -/
def compile (rules : List Rule) : List Rule × List Fault :=
  match Glob.refusal true (rules.map Rule.tokens) with
  | some e => ([], [.rules e])
  | none => (rules, [])

/-- The rules and the faults of what was read, with the rules left out if they cannot be used
together. -/
def settle (read : List Rule × List Fault) : List Rule × List Fault :=
  let (rules, faults) := compile read.1
  (rules, read.2 ++ faults)

theorem compile_eq_self {rules : List Rule} (h : (compile rules).2 = []) :
    (compile rules).1 = rules := by
  revert h
  rw [compile]
  split
  · exact nofun
  · exact fun _ => rfl

end Files

section Verdicts

/-- The rule applies to the path. -/
def Rule.applies (r : Rule) (isDirectory : Bool) (path : String) : Bool :=
  (isDirectory || !r.onlyDirectories) && Glob.matchesPath true r.tokens path

/-- What the last rule that applies says. -/
def verdict (rules : List Rule) (isDirectory : Bool) (path : String) : Option Verdict :=
  (rules.reverse.find? (·.applies isDirectory path)).map Rule.verdict

/-- The text without a beginning, if it has that beginning. -/
def dropStart (start t : Text) : Option Text :=
  if start.isPrefixOf t then some (t.drop start.length) else none

/-- The path without one dot and a separator in front. -/
def dropDot (path : String) : String :=
  String.ofList ((dropStart ['.', '/'] path.toList).getD path.toList)

/-- The path without a beginning and one separator after it, if it has that beginning. -/
def dropBase (base path : String) : String :=
  match dropStart base.toList path.toList with
  | some t => String.ofList ((dropStart ['/'] t).getD t)
  | none => path

/-- The path as rules that belong to the directory `base` see it. -/
def relativeTo (base path : String) : String :=
  let base := dropDot base
  let path := dropDot path
  if Path.parts base = [.here] || !path.toList.contains '/' then path else dropBase base path

/-- The paths above a path, nearest first.  There are no more than it has characters. -/
def above (path : String) : (steps : Nat) → List String
  | 0 => []
  | steps + 1 =>
      match Path.parent path with
      | some p => p :: above p steps
      | none => []

/-- What the rules say of a file, or else of the nearest directory above it. -/
def verdictOrAbove (rules : List Rule) (path : String) : Option Verdict :=
  (verdict rules false path).or
    ((above path (path.length + 1)).findSome? (verdict rules true))

theorem verdict_nil (isDirectory : Bool) (path : String) : verdict [] isDirectory path = none :=
  rfl

theorem verdict_append (rs ss : List Rule) (isDirectory : Bool) (path : String) :
    verdict (rs ++ ss) isDirectory path =
      (verdict ss isDirectory path).or (verdict rs isDirectory path) := by
  rw [verdict, List.reverse_append, List.find?_append, verdict, verdict]
  cases ss.reverse.find? (·.applies isDirectory path) <;> rfl

end Verdicts

end Ignore
end Decomment
