import Decomment.Proofs.RuleTable

/-!
# Blanks at the end of a line

No marker holds a blank, and comments are trimmed before a pattern is matched.  So blanks at the
end of a line neither bring a comment about nor change whether one must be kept: they belong to one
of the comments, or are left.

**Results.**
* `reduce_append_blank_iff`: blanks at the end do not decide whether comments are cut from a line.
* `reduce_output_tidy_iff`: nor does the tidying of what the cuts have left.
-/

namespace Decomment
namespace Strip

open Marker

def IsBlankText (t : Text) : Prop :=
  ∀ c ∈ t, Text.isBlank c = true

instance (t : Text) : Decidable (IsBlankText t) :=
  List.decidableBAll (fun c => Text.isBlank c = true) t

section Blanks

variable {m t w : Text}

theorem isBlankText_of_isIndent (h : ∀ c ∈ w, Text.isIndent c = true) : IsBlankText w :=
  fun c hc => Text.isBlank_of_isIndent (h c hc)

theorem disjoint_of_blankFree (hm : BlankFree m) (hw : IsBlankText w) : ∀ c ∈ w, c ∉ m := by
  intro c hc hmem
  have h := hw c hc
  rw [hm c hmem] at h
  cases h

theorem find_append_blank (hm : BlankFree m) (hw : IsBlankText w) (t : Text) :
    find m (t ++ w) = find m t :=
  find_append_of_disjoint (disjoint_of_blankFree hm hw)

theorem find_of_isBlankText (hm : BlankFree m) (hw : IsBlankText w) : find m w = none := by
  have h := find_append_blank hm hw []
  rw [List.nil_append] at h
  rw [h]
  unfold find
  split <;> rfl

/-- Only the trimmed comments decide whether one of them must be kept. -/
theorem any_shouldKeep_congr {patterns comments others : List Text}
    (h : comments.map Text.trim = others.map Text.trim) :
    comments.any (Keep.shouldKeep patterns) = others.any (Keep.shouldKeep patterns) := by
  have e (l : List Text) : l.any (Keep.shouldKeep patterns) =
      (l.map Text.trim).any fun c => patterns.any fun p => Keep.fits p c := by
    rw [List.any_map]
    rfl
  rw [e, e, h]

end Blanks

section Cutting

variable {t w : Text}

/-- Blanks at the end of a text belong to its last block comment, or are left. -/
theorem blockCuts_append {b : Delimiters Char} (hstart : BlankFree b.start)
    (hstop : BlankFree b.stop) (hw : IsBlankText w) (t : Text) :
    (blockCuts b (t ++ w)).comments.map Text.trim = (blockCuts b t).comments.map Text.trim ∧
      ((blockCuts b (t ++ w)).rest = (blockCuts b t).rest ∨
        (blockCuts b (t ++ w)).rest = (blockCuts b t).rest ++ w) := by
  induction t using blockCuts_induction b with
  | clear t hi =>
      rw [blockCuts_of_none hi, blockCuts_of_none (by rw [find_append_blank hstart hw, hi])]
      exact ⟨rfl, .inr rfl⟩
  | unclosed t i hi hj =>
      have hle := add_length_le_of_find hi
      have hd : (t ++ w).drop i = t.drop i ++ w := List.drop_append_of_le_length (by omega)
      rw [blockCuts_of_open hi hj, blockCuts_of_open (t := t ++ w) (i := i)]
      · rw [hd, List.map_singleton, List.map_singleton, Text.trim_append_of_blank _ hw]
        exact ⟨rfl, .inl (List.take_append_of_le_length (by omega))⟩
      · rw [find_append_blank hstart hw, hi]
      · rw [hd, find_append_blank hstop hw, hj]
  | closed t i j hi hj ih =>
      have hle := add_length_le_of_find hi
      have hend := add_length_le_of_find hj
      rw [List.length_drop] at hend
      have hd : (t ++ w).drop i = t.drop i ++ w := List.drop_append_of_le_length (by omega)
      have hs : splice i (i + j + b.stop.length) (t ++ w) =
          splice i (i + j + b.stop.length) t ++ w := by
        rw [splice, splice, List.take_append_of_le_length (by omega),
          List.drop_append_of_le_length (by omega), List.append_assoc]
      rw [blockCuts_of_closed hi hj, blockCuts_of_closed (t := t ++ w) (i := i) (j := j)]
      · rw [hd, hs, List.map_cons, List.map_cons, ih.1,
          List.take_append_of_le_length (by rw [List.length_drop]; omega)]
        exact ⟨rfl, ih.2⟩
      · rw [find_append_blank hstart hw, hi]
      · rw [hd, find_append_blank hstop hw, hj]

/-- Blanks at the end of a line belong to its line comment, or are left. -/
theorem lineCuts_append {rule : Rule Char} (hline : BlankFree rule.line)
    (halt : BlankFree rule.altLine) (hw : IsBlankText w) (t : Text) :
    (lineCuts rule (t ++ w)).comments.map Text.trim =
        (lineCuts rule t).comments.map Text.trim ∧
      ((lineCuts rule (t ++ w)).rest = (lineCuts rule t).rest ∨
        (lineCuts rule (t ++ w)).rest = (lineCuts rule t).rest ++ w) := by
  have same : (find rule.line (t ++ w)).or (find rule.altLine (t ++ w)) =
      (find rule.line t).or (find rule.altLine t) := by
    rw [find_append_blank hline hw, find_append_blank halt hw]
  cases e : (find rule.line t).or (find rule.altLine t) with
  | none => simp [lineCuts, same, e]
  | some i =>
      have hle : i ≤ t.length := by
        rcases Option.or_eq_some_iff.1 e with hi | ⟨-, hi⟩
        · have := add_length_le_of_find hi
          omega
        · have := add_length_le_of_find hi
          omega
      simp only [lineCuts, same, e, List.drop_append_of_le_length hle,
        List.take_append_of_le_length hle, List.map_singleton, true_or, and_true]
      rw [Text.trim_append_of_blank _ hw]

end Cutting

section Rules

variable {rule : Rule Char} {t w : Text}

theorem trim_comments_cuts_append (hrule : ∀ m ∈ rule.markers, BlankFree m) (mode : Mode)
    (hw : IsBlankText w) (t : Text) :
    (cuts rule mode (t ++ w)).comments.map Text.trim =
      (cuts rule mode t).comments.map Text.trim := by
  have hline := hrule rule.line (by simp [Rule.markers])
  have halt := hrule rule.altLine (by simp [Rule.markers])
  obtain ⟨hcomments, hrest⟩ := lineCuts_append hline halt hw t
  cases hb : rule.block with
  | none =>
      by_cases hm : mode = .blockOnly
      · simp [cuts, hb, hm]
      · simpa [cuts, hb, hm] using hcomments
  | some b =>
      have hblock (t : Text) := (blockCuts_append (hrule b.start (by simp [Rule.markers, hb]))
        (hrule b.stop (by simp [Rule.markers, hb])) hw t).1
      cases mode with
      | lineOnly => simpa [cuts, hb] using hcomments
      | blockOnly => simpa [cuts, hb] using hblock t
      | both =>
          have second : (blockCuts b (lineCuts rule (t ++ w)).rest).comments.map Text.trim =
              (blockCuts b (lineCuts rule t).rest).comments.map Text.trim := by
            rcases hrest with e | e
            · rw [e]
            · rw [e, hblock]
          simp [cuts, hb, hcomments, second]

theorem reduce_append_blank_iff (hrule : ∀ m ∈ rule.markers, BlankFree m)
    (patterns : List Text) (mode : Mode) (hw : IsBlankText w) (t : Text) :
    reduce (Keep.shouldKeep patterns) rule mode (t ++ w) = none ↔
      reduce (Keep.shouldKeep patterns) rule mode t = none := by
  have h := trim_comments_cuts_append hrule mode hw t
  have hlen : (cuts rule mode (t ++ w)).comments.isEmpty =
      (cuts rule mode t).comments.isEmpty := by
    have := congrArg List.isEmpty h
    simpa using this
  rw [reduce_eq, reduce_eq, hlen, any_shouldKeep_congr h]
  split <;> simp

theorem isClear_of_isBlankText (hrule : ∀ m ∈ rule.markers, BlankFree m) (mode : Mode)
    (hw : IsBlankText w) : IsClear rule mode w := fun m hm =>
  find_of_isBlankText (hrule m (Language.mem_markers_of_mem_openers hm)) hw

theorem reduce_of_isBlankText (hrule : ∀ m ∈ rule.markers, BlankFree m)
    (patterns : List Text) (mode : Mode) (hw : IsBlankText w) :
    reduce (Keep.shouldKeep patterns) rule mode w = none :=
  reduce_of_isClear _ (isClear_of_isBlankText hrule mode hw)

end Rules

section Tidying

variable {rule : Rule Char}

/-- What is written for a line depends on whether the cuts have left more than blanks. -/
theorem tidy_eq (options : Removal) (t rest : Text) :
    tidy options t rest =
      if IsBlankText rest then
        if options.keepBlank then .shortened (Text.indentation t) else .removed
      else .shortened (Text.dropTrailing Text.isIndent rest) := by
  have trimmed : (Text.trim (Text.dropTrailing Text.isIndent rest)).isEmpty = true ↔
      IsBlankText rest := by
    have tail : IsBlankText (Text.takeTrailing Text.isIndent rest) :=
      isBlankText_of_isIndent fun c hc => Text.mem_takeTrailing hc
    have same := Text.trim_append_of_blank (Text.dropTrailing Text.isIndent rest) tail
    rw [Text.dropTrailing_append_takeTrailing] at same
    rw [← same, List.isEmpty_iff, Text.trim_eq_nil_iff]
    rfl
  simp only [tidy, trimmed]

/-- What the cuts have left is blank and so is what is written for it, or all of it is written but
blanks at its end. -/
theorem tidy_cases (options : Removal) (t rest : Text) :
    (IsBlankText rest ∧ IsBlankText (((tidy options t rest).output t).getD [])) ∨
      ∃ s w, rest = s ++ w ∧ IsBlankText w ∧ tidy options t rest = .shortened s := by
  rw [tidy_eq]
  by_cases h : IsBlankText rest
  · left
    rw [if_pos h]
    refine ⟨h, ?_⟩
    split
    · exact isBlankText_of_isIndent fun c hc => Text.isIndent_of_mem_indentation hc
    · exact fun c hc => by cases hc
  · right
    rw [if_neg h]
    exact ⟨_, _, (Text.dropTrailing_append_takeTrailing Text.isIndent rest).symm,
      isBlankText_of_isIndent fun c hc => Text.mem_takeTrailing hc, rfl⟩

theorem reduce_output_tidy_iff (hrule : ∀ m ∈ rule.markers, BlankFree m)
    (patterns : List Text) (mode : Mode) (options : Removal) (t rest : Text) :
    reduce (Keep.shouldKeep patterns) rule mode (((tidy options t rest).output t).getD []) = none ↔
      reduce (Keep.shouldKeep patterns) rule mode rest = none := by
  rcases tidy_cases options t rest with ⟨hrest, hout⟩ | ⟨s, w, rfl, hw, e⟩
  · simp only [reduce_of_isBlankText hrule patterns mode hrest,
      reduce_of_isBlankText hrule patterns mode hout]
  · rw [reduce_append_blank_iff hrule patterns mode hw, e]
    rfl

end Tidying

end Strip
end Decomment
