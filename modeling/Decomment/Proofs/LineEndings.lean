import Decomment.Outcome

/-!
# Line endings

A line ends in a line feed, which a carriage return may precede.  The last line of a text may also
end in a carriage return alone, or not at all if it is not empty.  Two carriage returns may be
dropped from a line that is read, one with its ending and one more before it is processed.  Where
the lines themselves hold none, either is that of the ending, and the ending does not matter.

**Results.**
* `run_congr`: a run depends on the lines of the text as they are after both drops.
* `lines_endLines`: these are the lines that were written, with any endings.
* `run_endLines`: a run does not depend on the line endings.
-/

namespace Decomment

namespace Text

section Defs

/-- What a line ends in. -/
inductive Ending
  | lf
  | crlf
  /-- A carriage return without a line feed. -/
  | cr
  /-- Nothing at all. -/
  | bare
deriving DecidableEq, Repr

def Ending.text : Ending → Text
  | lf => ['\n']
  | crlf => ['\r', '\n']
  | cr => ['\r']
  | bare => []

/-- The text of lines with their endings. -/
def endLines (es : List (Text × Ending)) : Text :=
  es.flatMap fun (l, e) => l ++ e.text

/-- Every line but the last one ends in a line feed.  The last line may also end in a carriage
return, or in nothing if it is not empty. -/
inductive AreEnded : List (Text × Ending) → Prop
  | nil : AreEnded []
  | cr (l : Text) : AreEnded [(l, .cr)]
  | bare {l : Text} (h : l ≠ []) : AreEnded [(l, .bare)]
  | lf (l : Text) {es : List (Text × Ending)} (rest : AreEnded es) : AreEnded ((l, .lf) :: es)
  | crlf (l : Text) {es : List (Text × Ending)} (rest : AreEnded es) : AreEnded ((l, .crlf) :: es)

end Defs

section Laws

theorem areClean_cons {l : Text} {ls : List Text} (h : AreClean (l :: ls)) :
    ('\n' ∉ l ∧ '\r' ∉ l) ∧ AreClean ls :=
  ⟨h l List.mem_cons_self, fun m hm => h m (List.mem_cons_of_mem l hm)⟩

theorem lf_not_mem_append_cr {l : Text} (h : '\n' ∉ l) : '\n' ∉ l ++ ['\r'] := by
  simpa using h

theorem dropCarriageReturn_append_cr (l : Text) : dropCarriageReturn (l ++ ['\r']) = l := by
  simp [dropCarriageReturn]

/-- Lines are read back as they were written, whatever their endings are. -/
theorem lines_endLines {es : List (Text × Ending)} (clean : AreClean (es.map Prod.fst))
    (ended : AreEnded es) : (lines (endLines es)).map dropCarriageReturn = es.map Prod.fst := by
  induction ended with
  | nil => rfl
  | cr l =>
      obtain ⟨⟨hlf, -⟩, -⟩ := areClean_cons clean
      have text : endLines [(l, .cr)] = l ++ ['\r'] := by simp [endLines, Ending.text]
      rw [text, lines_of_lf_not_mem (lf_not_mem_append_cr hlf) (by simp), List.map_singleton,
        dropCarriageReturn_append_cr, List.map_singleton]
  | @bare l hne =>
      obtain ⟨⟨hlf, hcr⟩, -⟩ := areClean_cons clean
      have text : endLines [(l, .bare)] = l := by simp [endLines, Ending.text]
      rw [text, lines_of_lf_not_mem hlf hne, List.map_singleton,
        dropCarriageReturn_of_not_mem hcr, List.map_singleton]
  | @lf l es _ ih =>
      obtain ⟨⟨hlf, hcr⟩, rest⟩ := areClean_cons clean
      have text : endLines ((l, .lf) :: es) = l ++ '\n' :: endLines es := by
        simp [endLines, Ending.text]
      rw [text, lines_append_lf l _ hlf, closeLine_reverse, List.map_cons, List.map_cons, ih rest,
        dropCarriageReturn_of_not_mem hcr, dropCarriageReturn_of_not_mem hcr]
  | @crlf l es _ ih =>
      obtain ⟨⟨hlf, hcr⟩, rest⟩ := areClean_cons clean
      have text : endLines ((l, .crlf) :: es) = (l ++ ['\r']) ++ '\n' :: endLines es := by
        simp [endLines, Ending.text]
      rw [text, lines_append_lf _ _ (lf_not_mem_append_cr hlf), closeLine_reverse, List.map_cons,
        List.map_cons, ih rest, dropCarriageReturn_append_cr, dropCarriageReturn_of_not_mem hcr]

end Laws

end Text

namespace Stripper

variable (s : Stripper) (selection : Selection)

theorem map_processLine_congr : ∀ {ls ms : List Text} (n : Nat),
    ls.map Text.dropCarriageReturn = ms.map Text.dropCarriageReturn →
      (ls.zipIdx n).map (fun (l, n) => s.processLine selection n l) =
        (ms.zipIdx n).map fun (l, n) => s.processLine selection n l
  | [], [], _, _ => rfl
  | l :: ls, m :: ms, n, h => by
      obtain ⟨first, rest⟩ := List.cons.inj h
      have same : s.processLine selection n l = s.processLine selection n m := by
        simp only [processLine, first]
      simp only [List.zipIdx_cons, List.map_cons, same, map_processLine_congr (n + 1) rest]

/-- A run depends on the lines of the text without their carriage returns. -/
theorem run_congr {t u : Text} (h : (Text.lines t).map Text.dropCarriageReturn =
    (Text.lines u).map Text.dropCarriageReturn) : s.run selection t = s.run selection u := by
  have lines := map_processLine_congr s selection 1 h
  rw [← lines_run, ← lines_run] at lines
  exact congrArg Outcome.mk lines

open Text

/-- **Line endings do not matter.**  Lines without line feeds and carriage returns have the same
outcome with all endings, and it is an outcome of these lines. -/
theorem run_endLines {es : List (Text × Ending)} (clean : AreClean (es.map Prod.fst))
    (ended : AreEnded es) :
    s.run selection (endLines es) = s.run selection (unlines (es.map Prod.fst)) ∧
      (s.run selection (endLines es)).lines.map ProcessedLine.text = es.map Prod.fst := by
  have read := lines_endLines clean ended
  constructor
  · refine run_congr s selection ?_
    rw [read, lines_unlines_of_areClean clean, map_dropCarriageReturn clean]
  · rw [texts_run, read]

/-- Mixed endings, an empty line between two others, and a range that counts the lines. -/
theorem run_endLines_mixed :
    let es : List (Text × Ending) :=
      [("a".toList, .crlf), ([], .crlf), ("// b".toList, .lf), ("c // d".toList, .cr)]
    let s : Stripper := ⟨Language.slashes, [], ⟨.both, false⟩⟩
    AreClean (es.map Prod.fst) ∧ AreEnded es ∧
      endLines es = "a\r\n\r\n// b\nc // d\r".toList ∧
      s.run ⟨[⟨4, 4⟩]⟩ (endLines es) = s.run ⟨[⟨4, 4⟩]⟩ "a\n\n// b\nc // d\n".toList ∧
      (s.run ⟨[⟨4, 4⟩]⟩ (endLines es)).render = "a\n\n// b\nc\n".toList := by
  intro es s
  have clean : AreClean (es.map Prod.fst) := by
    unfold AreClean
    decide +kernel
  have ended : AreEnded es := .crlf _ (.crlf _ (.lf _ (.cr _)))
  have same := (run_endLines s ⟨[⟨4, 4⟩]⟩ clean ended).1
  refine ⟨clean, ended, by decide +kernel, same, ?_⟩
  rw [same]
  decide +kernel

end Stripper
end Decomment
