import Decomment.Proofs.TrailingBlanks
import Mathlib.Data.List.Basic

/-!
# Changes shorten

A comment that is cut out of a line leaves a shorter line, and so does the blank line that may stay
for a line of nothing but comment.  So every change deletes characters and does nothing else, and
what one line has lost no other line makes up for: a run that changes something writes less than it
has read, and never the text that it has read.

**Results.**
* `length_rest_cuts_lt`: what is left of a line with a comment is shorter.
* `length_lt_of_strip`: what is written for a line that is changed is shorter.
* `hasChanges_eq_false_iff`: where changes only delete, the text shows whether there are any.
* `render_ne_of_hasChanges`: a run that changes a line does not write the text that it has read.
* `numChanged_pos_iff`: a run counts changed lines exactly if it changes something.
* `changes_are_deletions`: for every extension, what is written for a line that is changed is the
  line less some of its characters, and a run changes nothing exactly if it writes all lines back.
-/

namespace Decomment

namespace LineChange

/-- What is written for the line `t`, if it is changed and stays, is `t` less some of its
characters. -/
def Deletes (t : Text) (c : LineChange) : Prop :=
  ∀ u, c = .shortened u → u.Sublist t ∧ u.length < t.length

variable {t u : Text} {c : LineChange}

theorem Deletes.output_sublist (h : c.Deletes t) (hu : c.output t = some u) : u.Sublist t := by
  cases c with
  | unchanged =>
      obtain rfl := Option.some.inj hu
      exact List.Sublist.refl t
  | shortened v =>
      obtain rfl := Option.some.inj hu
      exact (h v rfl).1
  | removed => cases hu

theorem Deletes.length_lt (h : c.Deletes t) (hd : c.differs = true) (hu : c.output t = some u) :
    u.length < t.length := by
  cases c with
  | unchanged => cases hd
  | shortened v =>
      obtain rfl := Option.some.inj hu
      exact (h v rfl).2
  | removed => cases hu

/-- A line is changed exactly if it is not written as it was. -/
theorem Deletes.differs_iff (h : c.Deletes t) : c.differs = true ↔ c.output t ≠ some t := by
  constructor
  · intro hd same
    exact Nat.lt_irrefl _ (h.length_lt hd same)
  · intro other
    cases c with
    | unchanged => exact absurd rfl other
    | shortened v => rfl
    | removed => rfl

end LineChange

namespace Strip

open Marker

section Cutting

variable {α : Type} [DecidableEq α] [QuoteAlphabet α] {rule : Rule α} {t : List α}

theorem lt_length_of_find {m : List α} {i : Nat} (h : find m t = some i) : i < t.length := by
  have room := add_length_le_of_find h
  have positive := pos_of_find h
  omega

theorem length_rest_lineCuts_lt (h : (lineCuts rule t).comments ≠ []) :
    (lineCuts rule t).rest.length < t.length := by
  cases e : (find rule.line t).or (find rule.altLine t) with
  | none =>
      rw [lineCuts, e] at h
      exact absurd rfl h
  | some i =>
      have hi : i < t.length := by
        rcases Option.or_eq_some_iff.1 e with hi | ⟨-, hi⟩ <;> exact lt_length_of_find hi
      simp only [lineCuts, e, List.length_take]
      omega

theorem length_rest_blockCuts_le (b : Delimiters α) (t : List α) :
    (blockCuts b t).rest.length ≤ t.length := by
  refine rest_blockCuts_of_step (P := fun r => r.length ≤ t.length) ?_ ?_ t (Nat.le_refl _)
  · intro s i _ h
    exact Nat.le_trans (List.take_sublist i s).length_le h
  · intro s i j hi hj h
    exact Nat.le_trans (Nat.le_of_lt (length_splice_lt hi hj)) h

theorem length_rest_blockCuts_lt (b : Delimiters α) (t : List α)
    (h : (blockCuts b t).comments ≠ []) : (blockCuts b t).rest.length < t.length := by
  induction t using blockCuts_induction b with
  | clear t hi =>
      rw [blockCuts_of_none hi] at h
      exact absurd rfl h
  | unclosed t i hi hj =>
      have inside := lt_length_of_find hi
      rw [blockCuts_of_open hi hj, List.length_take]
      omega
  | closed t i j hi hj _ =>
      rw [blockCuts_of_closed hi hj]
      exact Nat.lt_of_le_of_lt (length_rest_blockCuts_le b _) (length_splice_lt hi hj)

/-- What is left of a line with a comment is shorter. -/
theorem length_rest_cuts_lt {mode : Mode} (h : (cuts rule mode t).comments ≠ []) :
    (cuts rule mode t).rest.length < t.length := by
  have first : ∀ c : Cuts α, c = (if mode = .blockOnly then ⟨[], t⟩ else lineCuts rule t) →
      c.rest.length ≤ t.length ∧ (c.comments ≠ [] → c.rest.length < t.length) := by
    rintro c rfl
    split
    · exact ⟨Nat.le_refl _, fun hne => absurd rfl hne⟩
    · exact ⟨(rest_lineCuts_isPrefix rule t).length_le, length_rest_lineCuts_lt⟩
  obtain ⟨le, lt⟩ := first _ rfl
  cases hb : rule.block with
  | none =>
      simp only [cuts, hb] at h ⊢
      exact lt h
  | some b =>
      by_cases hm : mode = .lineOnly
      · simp only [cuts, hb, if_pos hm] at h ⊢
        exact lt h
      · simp only [cuts, hb, if_neg hm] at h ⊢
        have block := length_rest_blockCuts_le b
          (if mode = .blockOnly then Cuts.mk [] t else lineCuts rule t).rest
        by_cases hc : (if mode = .blockOnly then Cuts.mk [] t else lineCuts rule t).comments = []
        · rw [hc, List.nil_append] at h
          exact Nat.lt_of_lt_of_le (length_rest_blockCuts_lt b _ h) le
        · exact Nat.lt_of_le_of_lt block (lt hc)

/-- A text without comments is what stays as it is. -/
theorem comments_cuts_eq_nil_iff {mode : Mode} :
    (cuts rule mode t).comments = [] ↔ (cuts rule mode t).rest = t := by
  constructor
  · intro none
    rw [cuts_of_isClear (isClear_of_comments_cuts none)]
  · intro same
    refine Classical.byContradiction fun some_cut => ?_
    have shorter := length_rest_cuts_lt some_cut
    rw [same] at shorter
    exact Nat.lt_irrefl _ shorter

end Cutting

section Lines

variable {rule : Rule Char} {options : Removal} {t u : Text}

/-- What is written for a line that is changed is shorter. -/
theorem length_lt_of_strip (hrule : ∀ m ∈ rule.markers, BlankFree m) (patterns : List Text)
    (h : strip (Keep.shouldKeep patterns) rule options t = .shortened u) :
    u.length < t.length := by
  cases hr : reduce (Keep.shouldKeep patterns) rule options.mode t with
  | none =>
      rw [strip_of_reduce_eq_none hr] at h
      cases h
  | some rest =>
      rw [strip_of_reduce_eq_some hr, tidy_eq] at h
      split at h
      · split at h
        · obtain rfl := LineChange.shortened.inj h
          have indented : Text.indentation t <+: t := List.takeWhile_prefix _
          refine Nat.lt_of_le_of_ne indented.length_le fun same => ?_
          -- A line of nothing but indentation has no comment.
          have blank : IsBlankText t := by
            refine isBlankText_of_isIndent fun c hc => ?_
            rw [← indented.eq_of_length same] at hc
            exact Text.isIndent_of_mem_indentation hc
          rw [reduce_of_isBlankText hrule patterns options.mode blank] at hr
          cases hr
        · cases h
      · obtain rfl := LineChange.shortened.inj h
        have cut : rest.length < t.length := by
          rw [eq_rest_of_reduce_eq_some hr]
          refine length_rest_cuts_lt fun none => ?_
          rw [reduce_eq, none] at hr
          cases hr
        exact Nat.lt_of_le_of_lt (Text.dropTrailing_isPrefix _ rest).length_le cut

theorem deletes_strip (hrule : ∀ m ∈ rule.markers, BlankFree m) (patterns : List Text)
    (options : Removal) (t : Text) :
    (strip (Keep.shouldKeep patterns) rule options t).Deletes t := by
  intro u hu
  have written : (strip (Keep.shouldKeep patterns) rule options t).output t = some u := by
    rw [hu]
    rfl
  exact ⟨output_strip_sublist written, length_lt_of_strip hrule patterns hu⟩

end Lines

end Strip

namespace Text

theorem length_unlines_cons (l : Text) (ls : List Text) :
    (unlines (l :: ls)).length = l.length + 1 + (unlines ls).length := by
  simp [unlines]
  omega

theorem length_unlines_append (ls ms : List Text) :
    (unlines (ls ++ ms)).length = (unlines ls).length + (unlines ms).length := by
  simp [unlines]

end Text

namespace ProcessedLine

variable {ls : List ProcessedLine}

/-- Lines that only lose characters take up no more room than before. -/
theorem length_outputs_le (h : ∀ l ∈ ls, l.change.Deletes l.text) :
    (Text.unlines (ls.filterMap output)).length ≤ (Text.unlines (ls.map text)).length := by
  induction ls with
  | nil => exact Nat.le_refl _
  | cons l ls ih =>
      have rest := ih fun k hk => h k (List.mem_cons_of_mem l hk)
      rw [List.filterMap_cons, List.map_cons, Text.length_unlines_cons]
      cases hu : l.output with
      | none => exact Nat.le_trans rest (Nat.le_add_left _ _)
      | some u =>
          have first := ((h l List.mem_cons_self).output_sublist hu).length_le
          simp only [Text.length_unlines_cons]
          omega

/-- If one of them is changed, they take up less. -/
theorem length_outputs_lt (h : ∀ l ∈ ls, l.change.Deletes l.text) {l : ProcessedLine}
    (mem : l ∈ ls) (hd : l.change.differs = true) :
    (Text.unlines (ls.filterMap output)).length < (Text.unlines (ls.map text)).length := by
  obtain ⟨before, after, rfl⟩ := List.append_of_mem mem
  have start := length_outputs_le fun k hk => h k (List.mem_append_left _ hk)
  have rest := length_outputs_le fun k hk =>
    h k (List.mem_append_right before (List.mem_cons_of_mem l hk))
  rw [List.filterMap_append, List.map_append, Text.length_unlines_append,
    Text.length_unlines_append, List.filterMap_cons, List.map_cons, Text.length_unlines_cons]
  cases hu : l.output with
  | none =>
      simp only
      omega
  | some u =>
      have here := (h l mem).length_lt hd hu
      simp only [Text.length_unlines_cons]
      omega

end ProcessedLine

namespace Outcome

variable {o : Outcome}

theorem length_render_lt_of_hasChanges (h : ∀ l ∈ o.lines, l.change.Deletes l.text)
    (hc : o.hasChanges = true) :
    o.render.length < (Text.unlines (o.lines.map ProcessedLine.text)).length := by
  obtain ⟨l, hl, hd⟩ := List.any_eq_true.1 hc
  exact ProcessedLine.length_outputs_lt h hl hd

/-- Where changes only delete, nothing is changed exactly if all lines are written back. -/
theorem hasChanges_eq_false_iff (h : ∀ l ∈ o.lines, l.change.Deletes l.text) :
    o.hasChanges = false ↔ o.render = Text.unlines (o.lines.map ProcessedLine.text) := by
  constructor
  · intro hc
    have same : ∀ l ∈ o.lines, l.output = some l.text := by
      intro l hl
      have unchanged : ¬ l.change.differs = true := List.any_eq_false.1 hc l hl
      rw [(h l hl).differs_iff, not_not] at unchanged
      exact unchanged
    rw [render, List.filterMap_congr same, ← List.filterMap_eq_map]
    rfl
  · intro same
    refine Bool.eq_false_iff.2 fun hc => ?_
    have shorter := length_render_lt_of_hasChanges h hc
    rw [same] at shorter
    exact Nat.lt_irrefl _ shorter

end Outcome

namespace Stripper

open Strip

variable {s : Stripper} {selection : Selection} {n : Nat} {raw : Text}

theorem output_processLine_sublist {u : Text}
    (h : (s.processLine selection n raw).output = some u) : u.Sublist raw := by
  have line : (Text.dropCarriageReturn raw).Sublist raw :=
    (Text.dropCarriageReturn_isPrefix raw).sublist
  rw [output_processLine] at h
  split at h
  · exact (output_strip_sublist h).trans line
  · obtain rfl := Option.some.inj h
    exact line

theorem lf_not_mem_of_mem_outputs {t u : Text}
    (h : u ∈ (s.run selection t).lines.filterMap ProcessedLine.output) : '\n' ∉ u := by
  obtain ⟨l, hl, hu⟩ := List.mem_filterMap.1 h
  obtain ⟨raw, hraw, e⟩ := exists_of_mem_run hl
  rw [e] at hu
  exact fun hlf => Text.lf_not_mem_of_mem_lines hraw ((output_processLine_sublist hu).subset hlf)

theorem deletes_processLine (hrule : ∀ m ∈ s.rule.markers, BlankFree m) :
    (s.processLine selection n raw).change.Deletes (s.processLine selection n raw).text := by
  unfold processLine
  dsimp only
  split
  · exact deletes_strip hrule s.preserve s.options _
  · intro u hu
    cases hu

theorem deletes_of_mem_run (hrule : ∀ m ∈ s.rule.markers, BlankFree m) (t : Text) :
    ∀ l ∈ (s.run selection t).lines, l.change.Deletes l.text := by
  intro l hl
  obtain ⟨raw, -, e⟩ := exists_of_mem_run hl
  rw [e]
  exact deletes_processLine hrule

theorem differs_processLine :
    (s.processLine selection n raw).change.differs = true ↔
      (s.processLine selection n raw).kind = .modified ∨
        (s.processLine selection n raw).kind = .removed := by
  by_cases hn : selection.includes n
  · simp only [processLine, hn, if_true]
    cases s.strip (Text.dropCarriageReturn raw) with
    | unchanged =>
        simp only [LineChange.differs, kindOf]
        split <;> simp
    | shortened u => simp [LineChange.differs, kindOf]
    | removed => simp [LineChange.differs, kindOf]
  · simp [processLine, hn, LineChange.differs]

/-- A run counts changed lines exactly if it changes something. -/
theorem numChanged_pos_iff (s : Stripper) (selection : Selection) (t : Text) :
    0 < (s.run selection t).numChanged ↔ (s.run selection t).hasChanges = true := by
  have counted : 0 < (s.run selection t).numChanged ↔ ∃ l ∈ (s.run selection t).lines,
      l.kind = .modified ∨ l.kind = .removed := by
    rw [Outcome.numChanged, Outcome.count, Outcome.count, Nat.add_pos_iff_pos_or_pos,
      List.countP_pos_iff, List.countP_pos_iff]
    simp only [beq_iff_eq, and_or_left, exists_or]
  rw [counted, Outcome.hasChanges, List.any_eq_true]
  refine exists_congr fun l => and_congr_right fun hl => ?_
  obtain ⟨raw, -, e⟩ := exists_of_mem_run hl
  rw [e]
  exact differs_processLine.symm

/-- **A change is a deletion.**  For every extension, what is written for a line that is changed is
the line less some of its characters, in their order.  So a line is changed exactly if it is not
written as it was, and a run changes nothing exactly if it writes all lines back. -/
theorem changes_are_deletions {ext : String} {rule : Rule Char}
    (h : Language.detect ext = .ok rule) (patterns : List Text) (options : Removal) :
    let s : Stripper := ⟨rule, patterns, options⟩
    (∀ t u : Text, s.strip t = .shortened u → u.Sublist t ∧ u.length < t.length) ∧
      (∀ t : Text, (s.strip t).differs = true ↔ (s.strip t).output t ≠ some t) ∧
      ∀ (selection : Selection) (src : Text),
        (s.run selection src).hasChanges = false ↔
          (s.run selection src).render =
            Text.unlines ((s.run selection src).lines.map ProcessedLine.text) := by
  intro s
  have blankFree := Language.blankFree_of_mem_markers rule (Language.mem_rules_of_detect h)
  have deletes (t : Text) : (s.strip t).Deletes t := deletes_strip blankFree patterns options t
  refine ⟨deletes, fun t => (deletes t).differs_iff, fun selection src => ?_⟩
  exact Outcome.hasChanges_eq_false_iff (deletes_of_mem_run (s := s) blankFree src)

/-- A line with two blocks, a line of nothing but comment that keeps its indentation, and a run
over the second line only, whose ending does not count. -/
theorem changes_are_deletions_indented :
    let s : Stripper := ⟨Language.slashes, ["TODO:".toList], ⟨.both, true⟩⟩
    let src := "a /* b */ c /* d */ e\n\t // f\r\ng // TODO: h".toList
    Language.detect "JS" = .ok Language.slashes ∧
      s.strip "a /* b */ c /* d */ e".toList = .shortened "a  c  e".toList ∧
      "a  c  e".toList.Sublist "a /* b */ c /* d */ e".toList ∧
      s.strip "\t // f".toList = .shortened "\t ".toList ∧
      "\t ".toList.length < "\t // f".toList.length ∧
      (s.strip "g // TODO: h".toList).differs = false ∧
      (s.run ⟨[⟨2, 2⟩]⟩ src).render ≠
        Text.unlines ((s.run ⟨[⟨2, 2⟩]⟩ src).lines.map ProcessedLine.text) := by
  intro s src
  have h : Language.detect "JS" = .ok Language.slashes := rfl
  obtain ⟨deletes, differs, changes⟩ :=
    changes_are_deletions h ["TODO:".toList] ⟨.both, true⟩
  have blocks : s.strip "a /* b */ c /* d */ e".toList = .shortened "a  c  e".toList := by
    decide +kernel
  have comment : s.strip "\t // f".toList = .shortened "\t ".toList := by decide +kernel
  refine ⟨h, blocks, (deletes _ _ blocks).1, comment, (deletes _ _ comment).2, ?_, ?_⟩
  · rw [Bool.eq_false_iff, ne_eq, differs, not_not]
    decide +kernel
  · rw [ne_eq, ← changes]
    decide +kernel

end Stripper
end Decomment
