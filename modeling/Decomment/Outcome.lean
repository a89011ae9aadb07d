import Decomment.Text.Lines
import Decomment.Strip
import Decomment.LineSpan

/-!
# Outcome of a file

Every line of a file is stripped if the selection includes it, and passed on as it is otherwise.
The outcome keeps each line with what became of it; the new text, the counts and the question
whether anything changed are read off it.

**Results.**
* `lines_run`: the outcome has one entry for each line of the text, with its number.
* `numbers_run`, `texts_run`: the lines are those of the text, numbered from one on.
* `exists_of_mem_run`: each of them has been processed under its number.
* `render_run`: the new text is what is left of the lines.
* `hasChanges_run_all`, `render_run_all`: what a run over a whole file comes to, line by line.
-/

namespace Decomment

/-- How a line fared. -/
inductive Fate
  /-- Not selected, or without a comment. -/
  | kept
  /-- Selected and unchanged, but with a comment. -/
  | preserved
  | modified
  | removed
deriving DecidableEq, Repr

/-- A line, counted from one, and what became of it. -/
structure ProcessedLine where
  number : Nat
  text : Text
  change : LineChange
  kind : Fate
deriving DecidableEq, Repr

namespace ProcessedLine

/-- The text written back for the line, if any. -/
def output (l : ProcessedLine) : Option Text :=
  l.change.output l.text

end ProcessedLine

/-- The lines of a file and what became of them. -/
structure Outcome where
  lines : List ProcessedLine
deriving DecidableEq, Repr

/-- What decides how a line is stripped. -/
structure Stripper where
  rule : Rule Char
  preserve : List Text
  options : Removal

namespace Stripper

def strip (s : Stripper) (t : Text) : LineChange :=
  Strip.strip (Keep.shouldKeep s.preserve) s.rule s.options t

/-- The kind of a selected line. -/
def kindOf (s : Stripper) (t : Text) : LineChange → Fate
  | .removed => .removed
  | .shortened _ => .modified
  | .unchanged => if Strip.hasComment s.rule t then .preserved else .kept

/-- The outcome of the line with a number. -/
def processLine (s : Stripper) (selection : Selection) (number : Nat) (raw : Text) :
    ProcessedLine :=
  let t := Text.dropCarriageReturn raw
  if selection.includes number then
    let stripped := s.strip t
    ⟨number, t, stripped, s.kindOf t stripped⟩
  else ⟨number, t, .unchanged, .kept⟩

/-- The outcomes of the lines from a number on, put before `done` backwards. -/
def processFrom (s : Stripper) (selection : Selection) (done : List ProcessedLine) (number : Nat) :
    List Text → List ProcessedLine
  | [] => done.reverse
  | l :: ls => processFrom s selection (s.processLine selection number l :: done) (number + 1) ls

/-- What is left of some lines, numbered from one, when the chosen ones are stripped. -/
def stripWhere (s : Stripper) (chosen : Nat → Bool) (ls : List Text) : List Text :=
  (ls.zipIdx 1).filterMap fun (l, n) => if chosen n then (s.strip l).output l else some l

/-- The outcome of a text, of which the selected lines are stripped. -/
def run (s : Stripper) (selection : Selection) (t : Text) : Outcome :=
  ⟨s.processFrom selection [] 1 (Text.lines t)⟩

theorem processFrom_eq (s : Stripper) (selection : Selection) :
    ∀ (ls : List Text) (done : List ProcessedLine) (number : Nat),
      s.processFrom selection done number ls =
        done.reverse ++ (ls.zipIdx number).map fun (l, n) => s.processLine selection n l
  | [], done, number => by simp [processFrom]
  | l :: ls, done, number => by
      rw [processFrom, processFrom_eq s selection ls]
      simp

theorem lines_run (s : Stripper) (selection : Selection) (t : Text) :
    (s.run selection t).lines =
      ((Text.lines t).zipIdx 1).map fun (l, n) => s.processLine selection n l := by
  rw [run, processFrom_eq, List.reverse_nil, List.nil_append]

theorem length_lines (s : Stripper) (selection : Selection) (t : Text) :
    (s.run selection t).lines.length = (Text.lines t).length := by
  rw [lines_run, List.length_map, List.length_zipIdx]

theorem number_processLine (s : Stripper) (selection : Selection) (number : Nat) (raw : Text) :
    (s.processLine selection number raw).number = number := by
  unfold processLine
  dsimp only
  split <;> rfl

/-- The lines of an outcome are numbered from one on. -/
theorem numbers_run (s : Stripper) (selection : Selection) (t : Text) :
    (s.run selection t).lines.map ProcessedLine.number =
      List.range' 1 (s.run selection t).lines.length := by
  rw [length_lines, ← List.zipIdx_map_snd 1 (Text.lines t), lines_run, List.map_map]
  exact List.map_congr_left fun (l, n) _ => number_processLine s selection n l

/-- The lines of a run are those of the text, processed under their numbers. -/
theorem exists_of_mem_run {s : Stripper} {selection : Selection} {t : Text}
    {l : ProcessedLine} (h : l ∈ (s.run selection t).lines) :
    ∃ raw ∈ Text.lines t, l = s.processLine selection l.number raw := by
  rw [lines_run] at h
  obtain ⟨⟨raw, n⟩, hraw, rfl⟩ := List.mem_map.1 h
  exact ⟨raw, List.fst_mem_of_mem_zipIdx hraw, by rw [number_processLine]⟩

theorem text_processLine (s : Stripper) (selection : Selection) (number : Nat) (raw : Text) :
    (s.processLine selection number raw).text = Text.dropCarriageReturn raw := by
  unfold processLine
  dsimp only
  split <;> rfl

/-- The lines of an outcome are those of the text. -/
theorem texts_run (s : Stripper) (selection : Selection) (t : Text) :
    (s.run selection t).lines.map ProcessedLine.text =
      (Text.lines t).map Text.dropCarriageReturn := by
  rw [lines_run, List.map_map]
  conv => rhs; rw [← List.zipIdx_map_fst 1 (Text.lines t), List.map_map]
  exact List.map_congr_left fun e _ => text_processLine s selection e.2 e.1

end Stripper

namespace Outcome

/-- Some line does not stay as it was. -/
def hasChanges (o : Outcome) : Bool :=
  o.lines.any (·.change.differs)

/-- The number of lines of a kind. -/
def count (o : Outcome) (kind : Fate) : Nat :=
  o.lines.countP (·.kind == kind)

/-- The number of lines that were modified or removed. -/
def numChanged (o : Outcome) : Nat :=
  o.count .modified + o.count .removed

/-- The new text, in which every line ends with a line feed. -/
def render (o : Outcome) : Text :=
  Text.unlines (o.lines.filterMap ProcessedLine.output)

/-- The lines that are not merely kept. -/
def notable (o : Outcome) : List ProcessedLine :=
  o.lines.filter (·.kind != .kept)

end Outcome

namespace Stripper

/-- A run over a whole file changes something exactly when some line is changed. -/
theorem hasChanges_run_all (s : Stripper) (t : Text) :
    (s.run .all t).hasChanges =
      (Text.lines t).any fun l => (s.strip (Text.dropCarriageReturn l)).differs := by
  rw [Outcome.hasChanges, lines_run, List.any_map]
  conv => rhs; rw [← List.zipIdx_map_fst 1 (Text.lines t), List.any_map]
  rfl

theorem output_processLine (s : Stripper) (selection : Selection) (number : Nat) (raw : Text) :
    (s.processLine selection number raw).output =
      if selection.includes number then
        (s.strip (Text.dropCarriageReturn raw)).output (Text.dropCarriageReturn raw)
      else some (Text.dropCarriageReturn raw) := by
  by_cases h : selection.includes number <;>
    simp [processLine, ProcessedLine.output, LineChange.output, h]

/-- A run writes what it leaves of the lines. -/
theorem render_run (s : Stripper) (selection : Selection) (t : Text) :
    (s.run selection t).render = Text.unlines
      (s.stripWhere selection.includes ((Text.lines t).map Text.dropCarriageReturn)) := by
  rw [Outcome.render, lines_run, stripWhere, List.filterMap_map, List.zipIdx_map,
    List.filterMap_map]
  congr 2
  funext ⟨l, n⟩
  exact s.output_processLine selection n l

theorem render_run_all (s : Stripper) (t : Text) :
    (s.run .all t).render = Text.unlines ((Text.lines t).filterMap fun l =>
      (s.strip (Text.dropCarriageReturn l)).output (Text.dropCarriageReturn l)) := by
  rw [render_run, stripWhere, List.zipIdx_map, List.filterMap_map]
  conv => rhs; rw [← List.zipIdx_map_fst 1 (Text.lines t), List.filterMap_map]
  rfl

end Stripper

/-- Running counts over files. -/
structure Tally where
  files : Nat := 0
  changed : Nat := 0
  kept : Nat := 0
  preserved : Nat := 0
deriving DecidableEq, Repr, Inhabited

namespace Tally

/-- The counts with those of one more file. -/
def add (t : Tally) (o : Outcome) : Tally :=
  ⟨t.files + 1, t.changed + o.numChanged, t.kept + o.count .kept,
    t.preserved + o.count .preserved⟩

end Tally
end Decomment
