import Decomment.Proofs.TrailingBlanks

/-!
# Stripping a line once more

Stripping what a first pass has written for a line comes to cutting comments out of what the first
cuts have left.  Only a line comment can be there.  A steady rule leaves none, so that a second
pass changes nothing.  The two rules that are not steady can leave one:

* a semicolon comment stands before a hash comment, and only the hash comment is cut;
* the block comments between two dashes are cut, and the two dashes meet.

**Results.**
* `reduce_rest_eq_none_iff`: what a second round of cuts finds.
* `strip_output_of_isSteady`: with a steady rule, a second pass changes nothing.
* `strip_output_eq_unchanged_iff`: for every extension, when a second pass changes nothing.
-/

namespace Decomment
namespace Strip

open Marker

section SecondCuts

variable {α : Type} [DecidableEq α] [QuoteAlphabet α]

/-- Among what the cuts have left only a line comment can be found. -/
theorem cuts_rest (rule : Rule α) (mode : Mode) (t : List α) :
    cuts rule mode (cuts rule mode t).rest =
      if mode = .blockOnly then ⟨[], (cuts rule mode t).rest⟩
      else lineCuts rule (cuts rule mode t).rest := by
  generalize hr : (cuts rule mode t).rest = r
  cases hb : rule.block with
  | none => simp only [cuts, hb]
  | some b =>
      by_cases hl : mode = .lineOnly
      · simp only [cuts, hb, if_pos hl]
      · have hstart : find b.start r = none := by
          rw [← hr]
          exact find_start_rest_cuts hb hl t
        by_cases hm : mode = .blockOnly
        · simp only [cuts, hb, if_pos hm, if_neg hl, blockCuts_of_none hstart, List.append_nil]
        · have hfirst : find b.start (lineCuts rule r).rest = none :=
            find_eq_none_of_isPrefix hstart (rest_lineCuts_isPrefix rule r)
          simp only [cuts, hb, if_neg hm, if_neg hl, blockCuts_of_none hfirst, List.append_nil]

theorem reduce_rest_eq_none_iff (keep : List α → Bool) (rule : Rule α) (mode : Mode)
    (t : List α) :
    reduce keep rule mode (cuts rule mode t).rest = none ↔
      (mode ≠ .blockOnly → ∀ k, (find rule.line (cuts rule mode t).rest).or
          (find rule.altLine (cuts rule mode t).rest) = some k →
        keep ((cuts rule mode t).rest.drop k) = true) := by
  rw [reduce_eq, cuts_rest]
  generalize (cuts rule mode t).rest = r
  by_cases hm : mode = .blockOnly
  · simp [hm]
  · cases e : (find rule.line r).or (find rule.altLine r) with
    | none => simp [hm, lineCuts, e]
    | some k => simp [hm, lineCuts, e]

/-- Neither round of cuts comes to nothing exactly when all comments of the text may go and what
they leave has a line comment that may go too. -/
theorem reduce_or_reduce_rest_iff (keep : List α → Bool) (rule : Rule α) (mode : Mode)
    (t : List α) :
    (reduce keep rule mode t = none ∨ reduce keep rule mode (cuts rule mode t).rest = none) ↔
      ¬ ((∀ c ∈ (cuts rule mode t).comments, keep c = false) ∧ mode ≠ .blockOnly ∧
        ∃ k, (find rule.line (cuts rule mode t).rest).or
            (find rule.altLine (cuts rule mode t).rest) = some k ∧
          keep ((cuts rule mode t).rest.drop k) = false) := by
  constructor
  · rintro (h | h) ⟨all_go, hmode, k, hk, goes⟩
    · have hnil : (cuts rule mode t).comments = [] := by
        rw [reduce_eq] at h
        split at h
        · rename_i hc
          have not_kept : (cuts rule mode t).comments.any keep = false := by
            simpa [List.any_eq_false] using all_go
          rw [not_kept, Bool.or_false] at hc
          exact List.isEmpty_iff.1 hc
        · cases h
      -- Nothing is cut from the text, so that it has no line comment to begin with.
      have clear := isClear_of_comments_cuts hnil
      have hline := clear rule.line (mem_openers_iff.2 (.inl ⟨hmode, .inl rfl⟩))
      have halt := clear rule.altLine (mem_openers_iff.2 (.inl ⟨hmode, .inr rfl⟩))
      rw [cuts_of_isClear clear, hline, halt] at hk
      cases hk
    · rw [(reduce_rest_eq_none_iff keep rule mode t).1 h hmode k hk] at goes
      cases goes
  · intro h
    by_cases all_go : ∀ c ∈ (cuts rule mode t).comments, keep c = false
    · right
      rw [reduce_rest_eq_none_iff]
      intro hmode k hk
      cases e : keep ((cuts rule mode t).rest.drop k) with
      | true => rfl
      | false => exact absurd ⟨all_go, hmode, k, hk, e⟩ h
    · left
      have kept : (cuts rule mode t).comments.any keep = true := by
        simpa [List.any_eq_true] using all_go
      rw [reduce_eq, kept, Bool.or_true, if_pos rfl]

end SecondCuts

section SecondPass

variable {rule : Rule Char}

/-- A second pass changes nothing exactly when the first one changes nothing, or has left nothing
that could be cut. -/
theorem strip_output_iff (hrule : ∀ m ∈ rule.markers, BlankFree m) (patterns : List Text)
    (options : Removal) (t : Text) :
    strip (Keep.shouldKeep patterns) rule options
        (((strip (Keep.shouldKeep patterns) rule options t).output t).getD []) = .unchanged ↔
      reduce (Keep.shouldKeep patterns) rule options.mode t = none ∨
        reduce (Keep.shouldKeep patterns) rule options.mode (cuts rule options.mode t).rest =
          none := by
  cases h : reduce (Keep.shouldKeep patterns) rule options.mode t with
  | none =>
      rw [strip_of_reduce_eq_none h]
      exact ⟨fun _ => .inl rfl, fun _ => strip_of_reduce_eq_none h⟩
  | some rest =>
      rw [strip_of_reduce_eq_some h, strip_eq_unchanged_iff,
        reduce_output_tidy_iff hrule patterns, eq_rest_of_reduce_eq_some h]
      simp

theorem strip_output_of_isSteady (hrule : ∀ m ∈ rule.markers, BlankFree m)
    (patterns : List Text) {options : Removal} (h : IsSteady rule options.mode) (t : Text) :
    strip (Keep.shouldKeep patterns) rule options
      (((strip (Keep.shouldKeep patterns) rule options t).output t).getD []) = .unchanged :=
  (strip_output_iff hrule patterns options t).2
    (.inr (reduce_of_isClear _ (isClear_rest_cuts h t)))

end SecondPass

section Resurfacing

open Decomment.Language

/-- A semicolon starts a comment before the first hash outside quotes, and both comments may go. -/
def SemicolonIsLeft (patterns : List Text) (mode : Mode) (t : Text) : Prop :=
  mode ≠ .blockOnly ∧ ∃ i, find ['#'] t = some i ∧
    Keep.shouldKeep patterns (t.drop i) = false ∧
    ∃ j, find [';'] (t.take i) = some j ∧ Keep.shouldKeep patterns ((t.take i).drop j) = false

/-- All comments of the line may go, and two dashes that meet in what they leave start a comment
that may go too. -/
def DashesMeet (patterns : List Text) (mode : Mode) (t : Text) : Prop :=
  mode = .both ∧
    (∀ c ∈ (cuts dashesAndBlocks mode t).comments, Keep.shouldKeep patterns c = false) ∧
    ∃ k, find ['-', '-'] (cuts dashesAndBlocks mode t).rest = some k ∧
      Keep.shouldKeep patterns ((cuts dashesAndBlocks mode t).rest.drop k) = false

/-- A comment that may go comes to light when the comments of the line are cut. -/
def Resurfaces (patterns : List Text) (ext : String) (mode : Mode) (t : Text) : Prop :=
  (ext = "ini" ∧ SemicolonIsLeft patterns mode t) ∨ (ext = "sql" ∧ DashesMeet patterns mode t)

variable {patterns : List Text} {mode : Mode} {t : Text}

theorem reduce_rest_of_isSteady {keep : Text → Bool} {rule : Rule Char}
    (h : IsSteady rule mode) : reduce keep rule mode (cuts rule mode t).rest = none :=
  reduce_of_isClear keep (isClear_rest_cuts h t)

theorem reduce_hashOrSemicolon_iff :
    (reduce (Keep.shouldKeep patterns) hashOrSemicolon mode t = none ∨
      reduce (Keep.shouldKeep patterns) hashOrSemicolon mode
        (cuts hashOrSemicolon mode t).rest = none) ↔
      ¬ SemicolonIsLeft patterns mode t := by
  rw [reduce_or_reduce_rest_iff]
  refine not_congr ?_
  by_cases hm : mode = .blockOnly
  · simp [SemicolonIsLeft, hm]
  have hcuts : cuts hashOrSemicolon mode t = lineCuts hashOrSemicolon t := by
    simp [cuts, hm, hashOrSemicolon]
  rw [hcuts]
  change (_ ∧ _ ∧ ∃ k, (find ['#'] _).or (find [';'] _) = some k ∧ _) ↔ _
  cases hi : find ['#'] t with
  | some i =>
      have left : lineCuts hashOrSemicolon t = ⟨[t.drop i], t.take i⟩ := by
        simp [lineCuts, hashOrSemicolon, hi]
      have hash : find ['#'] (t.take i) = none := find_take_of_find hi
      simp [SemicolonIsLeft, hm, hi, left, hash]
  | none =>
      -- Without a hash the semicolon comment itself is cut.
      have clear : (find ['#'] (lineCuts hashOrSemicolon t).rest).or
          (find [';'] (lineCuts hashOrSemicolon t).rest) = none := by
        have hash : find ['#'] (lineCuts hashOrSemicolon t).rest = none :=
          find_eq_none_of_isPrefix hi (rest_lineCuts_isPrefix _ t)
        cases hj : find [';'] t with
        | none => simp [lineCuts, hashOrSemicolon, hi, hj]
        | some j => simpa [lineCuts, hashOrSemicolon, hi, hj] using
            ⟨find_eq_none_of_isPrefix hi (List.take_prefix j t), find_take_of_find hj⟩
      simp [SemicolonIsLeft, hi, clear]

theorem reduce_dashesAndBlocks_iff :
    (reduce (Keep.shouldKeep patterns) dashesAndBlocks mode t = none ∨
      reduce (Keep.shouldKeep patterns) dashesAndBlocks mode
        (cuts dashesAndBlocks mode t).rest = none) ↔
      ¬ DashesMeet patterns mode t := by
  by_cases hm : mode = .both
  · rw [reduce_or_reduce_rest_iff]
    refine not_congr ?_
    change (_ ∧ _ ∧ ∃ k, (find ['-', '-'] _).or (find [] _) = some k ∧ _) ↔ _
    simp [DashesMeet, hm]
  · have steady : IsSteady dashesAndBlocks mode :=
      isSteady_of_mem_rules (by decide) (fun e => by cases e) fun _ => hm
    simp [DashesMeet, hm, reduce_rest_of_isSteady steady]

end Resurfacing

end Strip

namespace Stripper

open Strip Decomment.Language

/-- **When a second pass changes nothing.**  What is written for a line is stripped to itself
exactly when no comment comes to light by stripping, which happens with two extensions only. -/
theorem strip_output_eq_unchanged_iff {ext : String} {rule : Rule Char}
    (h : detect ext = .ok rule) (patterns : List Text) (options : Removal) (t : Text) :
    strip ⟨rule, patterns, options⟩
        (((strip ⟨rule, patterns, options⟩ t).output t).getD []) = .unchanged ↔
      ¬ Resurfaces patterns (normalize ext) options.mode t := by
  have blankFree := blankFree_of_mem_markers rule (mem_rules_of_detect h)
  obtain ⟨ini, sql⟩ := rule_eq_iff_of_detect h
  refine (strip_output_iff blankFree patterns options t).trans ?_
  by_cases hini : normalize ext = "ini"
  · obtain rfl := ini.2 hini
    rw [reduce_hashOrSemicolon_iff]
    simp [Resurfaces, hini]
  by_cases hsql : normalize ext = "sql"
  · obtain rfl := sql.2 hsql
    rw [reduce_dashesAndBlocks_iff]
    simp [Resurfaces, hsql]
  · have steady : IsSteady rule options.mode :=
      isSteady_of_detect h (fun e => absurd e hini) fun e => absurd e hsql
    simp [Resurfaces, hini, hsql, reduce_rest_of_isSteady steady]

/-- Where a hash comment and a block are cut, a semicolon comment and two dashes come to light. -/
theorem strip_output_differs :
    (detect "ini" = .ok hashOrSemicolon ∧
      strip ⟨hashOrSemicolon, [], {}⟩ "a ; b # c".toList = .shortened "a ; b".toList ∧
      strip ⟨hashOrSemicolon, [], {}⟩ "a ; b".toList = .shortened "a".toList) ∧
    detect "sql" = .ok dashesAndBlocks ∧
      strip ⟨dashesAndBlocks, [], {}⟩ "a -/* b */- c".toList = .shortened "a -- c".toList ∧
      strip ⟨dashesAndBlocks, [], {}⟩ "a -- c".toList = .shortened "a".toList := by
  refine ⟨⟨rfl, ?_, ?_⟩, rfl, ?_, ?_⟩ <;> decide +kernel

/-- The dot and the case of an extension do not matter to it. -/
theorem resurfaces_around_block :
    detect ".SQL" = .ok dashesAndBlocks ∧
      Resurfaces [] (normalize ".SQL") .both "a -/* b */- c".toList := by
  have h : detect ".SQL" = .ok dashesAndBlocks := rfl
  refine ⟨h, Classical.not_not.1 fun e => ?_⟩
  have unchanged := (strip_output_eq_unchanged_iff h [] {} "a -/* b */- c".toList).2 e
  exact absurd unchanged (by decide +kernel)

end Stripper
end Decomment
