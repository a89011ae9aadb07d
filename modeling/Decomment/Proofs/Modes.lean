import Decomment.Proofs.TrailingBlanks

/-!
# What the modes take out of a line

The mode says at which markers a comment may start.  With a steady rule, what is written for a line
that is changed holds none of these markers outside quotes: the cuts leave none, and tidying only
takes blanks from the end, or leaves nothing but blanks.

To strip a line of all comments is to strip it of its line comment and then of its blocks.  In
between the line is tidied, and so the blocks are looked for in a text that has lost blanks at its
end, that is gone, or of which only the indentation is left.  None of this matters: blanks at the
end have no part in a block, a blank text holds none, and the text that is left has the indentation
of the line.

**Results.**
* `isClear_output_tidy`: tidying brings about no marker.
* `find_output_strip`: no marker that the mode looks for is left in what is written.
* `tidy_blockCuts`: the blocks of a tidied text are those of the text itself.
* `output_strip_both`: stripping of all comments comes to stripping of one kind after the other.
-/

namespace Decomment
namespace Strip

open Marker

section Left

variable {rule : Rule Char} {mode : Mode} {options : Removal} {t rest s : Text}

/-- Tidying brings about no marker. -/
theorem isClear_output_tidy (hrule : ∀ m ∈ rule.markers, BlankFree m)
    (hclear : IsClear rule mode rest) (hs : (tidy options t rest).output t = some s) :
    IsClear rule mode s := by
  rcases tidy_cases options t rest with ⟨-, blank⟩ | ⟨u, w, rfl, -, e⟩
  · rw [hs, Option.getD_some] at blank
    exact isClear_of_isBlankText hrule mode blank
  · rw [e] at hs
    obtain rfl := Option.some.inj hs
    exact fun m hm => find_eq_none_of_append (hclear m hm)

theorem isClear_output_strip (hrule : ∀ m ∈ rule.markers, BlankFree m)
    (hsteady : IsSteady rule options.mode) {keep : Text → Bool}
    (hchanged : strip keep rule options t ≠ .unchanged)
    (hs : (strip keep rule options t).output t = some s) : IsClear rule options.mode s := by
  cases hr : reduce keep rule options.mode t with
  | none => exact absurd (strip_of_reduce_eq_none hr) hchanged
  | some rest =>
      rw [strip_of_reduce_eq_some hr, eq_rest_of_reduce_eq_some hr] at hs
      exact isClear_output_tidy hrule (isClear_rest_cuts hsteady t) hs

end Left

section Tidied

variable {b : Delimiters Char} {r t s w : Text}

theorem strip_of_no_patterns (rule : Rule Char) (options : Removal) (t : Text) :
    strip (Keep.shouldKeep []) rule options t =
      if (cuts rule options.mode t).comments = [] then .unchanged
      else tidy options t (cuts rule options.mode t).rest := by
  rw [strip, reduce_eq, Keep.any_shouldKeep_nil]
  by_cases h : (cuts rule options.mode t).comments = [] <;> simp [h]

/-- Tidying has an output that does not depend on the line it is read against. -/
theorem output_tidy (options : Removal) (t rest s s' : Text) :
    (tidy options t rest).output s = (tidy options t rest).output s' := by
  cases e : tidy options t rest with
  | unchanged => exact absurd e (tidy_ne_unchanged options t rest)
  | shortened u => rfl
  | removed => rfl

theorem tidy_append_indent (hw : ∀ c ∈ w, Text.isIndent c = true) (options : Removal)
    (t rest : Text) : tidy options t (rest ++ w) = tidy options t rest := by
  simp only [tidy, Text.dropTrailing_append_of_all rest hw]

theorem tidy_of_prefix (hs : ¬ IsBlankText s) (hpre : s <+: t) (options : Removal)
    (rest : Text) : tidy options t rest = tidy options s rest := by
  obtain ⟨v, rfl⟩ := hpre
  simp only [tidy, Text.indentation_append hs v]

/-- Blocks are cut out of a tidied text as out of the text itself. -/
theorem tidy_blockCuts (hstart : BlankFree b.start) (hstop : BlankFree b.stop)
    (hr : ¬ IsBlankText r) (hpre : r <+: t) (options : Removal) :
    tidy options t (blockCuts b r).rest =
      tidy options (Text.dropTrailing Text.isIndent r)
        (blockCuts b (Text.dropTrailing Text.isIndent r)).rest := by
  have split := Text.dropTrailing_append_takeTrailing Text.isIndent r
  have indent : ∀ c ∈ Text.takeTrailing Text.isIndent r, Text.isIndent c = true :=
    fun c hc => Text.mem_takeTrailing hc
  generalize Text.dropTrailing Text.isIndent r = s at split ⊢
  generalize Text.takeTrailing Text.isIndent r = w at split indent
  subst split
  have visible : ¬ IsBlankText s := by
    intro blank
    refine hr fun c hc => ?_
    exact (List.mem_append.1 hc).elim (blank c) (isBlankText_of_isIndent indent c)
  have same : tidy options t (blockCuts b (s ++ w)).rest =
      tidy options t (blockCuts b s).rest := by
    rcases (blockCuts_append hstart hstop (isBlankText_of_isIndent indent) s).2 with e | e
    · rw [e]
    · rw [e, tidy_append_indent indent]
  rw [same, tidy_of_prefix visible ((List.prefix_append s w).trans hpre)]

end Tidied

section Modes

variable {rule : Rule Char} {b : Delimiters Char} {t : Text}

theorem lineCuts_of_comments (h : (lineCuts rule t).comments = []) :
    lineCuts rule t = ⟨[], t⟩ := by
  obtain ⟨line, alt⟩ := find_of_comments_lineCuts h
  rw [lineCuts, line, alt, Option.or_none]

theorem cuts_blockOnly (hb : rule.block = some b) (t : Text) :
    cuts rule .blockOnly t = blockCuts b t := by
  simp [cuts, hb]

/-- The blocks of a tidy text, cut out of it and tidied. -/
theorem output_strip_blockOnly (hb : rule.block = some b) (keepBlank : Bool) {s : Text}
    (htidy : tidy ⟨.blockOnly, keepBlank⟩ s s = .shortened s) :
    (strip (Keep.shouldKeep []) rule ⟨.blockOnly, keepBlank⟩ s).output s =
      (tidy ⟨.blockOnly, keepBlank⟩ s (blockCuts b s).rest).output s := by
  rw [strip_of_no_patterns, cuts_blockOnly hb]
  split
  · rename_i uncut
    have rest : (blockCuts b s).rest = s := by
      rw [blockCuts_of_none (find_of_comments_blockCuts uncut)]
    rw [rest, htidy]
    rfl
  · rfl

/-- To cut both kinds of comments is to cut the line comment first, and then the blocks out of what
is written for the line. -/
theorem output_strip_of_line_comment (hrule : ∀ m ∈ rule.markers, BlankFree m)
    (hb : rule.block = some b) (keepBlank : Bool) :
    (tidy ⟨.both, keepBlank⟩ t (blockCuts b (lineCuts rule t).rest).rest).output t =
      ((tidy ⟨.lineOnly, keepBlank⟩ t (lineCuts rule t).rest).output t).bind fun s =>
        (strip (Keep.shouldKeep []) rule ⟨.blockOnly, keepBlank⟩ s).output s := by
  have hstart := hrule b.start (by simp [Rule.markers, hb])
  have hstop := hrule b.stop (by simp [Rule.markers, hb])
  have hpre := rest_lineCuts_isPrefix rule t
  generalize (lineCuts rule t).rest = r at hpre ⊢
  by_cases blank : IsBlankText r
  · -- Neither what is left nor the indentation of the line holds a block.
    rw [blockCuts_of_none (find_of_isBlankText hstart blank)]
    change (tidy ⟨.lineOnly, keepBlank⟩ t r).output t = _
    rw [tidy_eq, if_pos blank]
    cases keepBlank with
    | false => rfl
    | true =>
        have indented : IsBlankText (Text.indentation t) :=
          isBlankText_of_isIndent fun c hc => Text.isIndent_of_mem_indentation hc
        have idle : strip (Keep.shouldKeep []) rule ⟨.blockOnly, true⟩ (Text.indentation t) =
            .unchanged :=
          strip_of_reduce_eq_none (reduce_of_isBlankText hrule [] .blockOnly indented)
        simp [LineChange.output, idle]
  · have written (options : Removal) (u : Text) :
        tidy options u r = .shortened (Text.dropTrailing Text.isIndent r) := by
      rw [tidy_eq, if_neg blank]
    have tidied : tidy ⟨.blockOnly, keepBlank⟩ (Text.dropTrailing Text.isIndent r)
        (Text.dropTrailing Text.isIndent r) =
          .shortened (Text.dropTrailing Text.isIndent r) := by
      have indent : ∀ c ∈ Text.takeTrailing Text.isIndent r, Text.isIndent c = true :=
        fun c hc => Text.mem_takeTrailing hc
      rw [← tidy_append_indent indent, Text.dropTrailing_append_takeTrailing, written]
    rw [written, tidy_blockCuts hstart hstop blank hpre]
    change _ = (strip (Keep.shouldKeep []) rule ⟨.blockOnly, keepBlank⟩
      (Text.dropTrailing Text.isIndent r)).output (Text.dropTrailing Text.isIndent r)
    rw [output_strip_blockOnly hb keepBlank tidied]
    exact output_tidy _ _ _ t _

/-- Stripping of all comments comes to stripping of one kind after the other. -/
theorem output_strip_both (hrule : ∀ m ∈ rule.markers, BlankFree m) (keepBlank : Bool) (t : Text) :
    (strip (Keep.shouldKeep []) rule ⟨.both, keepBlank⟩ t).output t =
      ((strip (Keep.shouldKeep []) rule ⟨.lineOnly, keepBlank⟩ t).output t).bind fun s =>
        (strip (Keep.shouldKeep []) rule ⟨.blockOnly, keepBlank⟩ s).output s := by
  cases hb : rule.block with
  | none =>
      have idle : (fun s =>
          (strip (Keep.shouldKeep []) rule ⟨.blockOnly, keepBlank⟩ s).output s) = some := by
        funext s
        simp [strip_of_no_patterns, cuts, hb, LineChange.output]
      have same : cuts rule .both t = cuts rule .lineOnly t := by simp [cuts, hb]
      rw [idle, Option.bind_fun_some, strip_of_no_patterns, strip_of_no_patterns, same]
      rfl
  | some b =>
      have line : cuts rule .lineOnly t = lineCuts rule t := by simp [cuts, hb]
      have both : cuts rule .both t =
          ⟨(lineCuts rule t).comments ++ (blockCuts b (lineCuts rule t).rest).comments,
            (blockCuts b (lineCuts rule t).rest).rest⟩ := by simp [cuts, hb]
      by_cases uncut : (lineCuts rule t).comments = []
      · -- Without a line comment the blocks are looked for in the line itself.
        have blocks : cuts rule .both t = cuts rule .blockOnly t := by
          rw [both, cuts_blockOnly hb, lineCuts_of_comments uncut, List.nil_append]
        rw [strip_of_no_patterns rule ⟨.lineOnly, keepBlank⟩, line, if_pos uncut]
        change _ = (strip (Keep.shouldKeep []) rule ⟨.blockOnly, keepBlank⟩ t).output t
        rw [strip_of_no_patterns, strip_of_no_patterns, blocks]
        rfl
      · rw [strip_of_no_patterns, both, if_neg (by simp [uncut]),
          strip_of_no_patterns rule ⟨.lineOnly, keepBlank⟩, line, if_neg uncut]
        exact output_strip_of_line_comment hrule hb keepBlank

end Modes

end Strip

namespace Stripper

open Marker Strip Decomment.Language

/-- **No marker is left.**  If a line is changed, and the rule is steady in the mode, then what is
written for the line holds none of the markers outside quotes at which the mode lets a comment
start. -/
theorem find_output_strip {ext : String} {rule : Rule Char} (h : detect ext = .ok rule)
    (patterns : List Text) (options : Removal)
    (hini : normalize ext = "ini" → options.mode = .blockOnly)
    (hsql : normalize ext = "sql" → options.mode ≠ .both) {t s : Text}
    (hchanged : strip ⟨rule, patterns, options⟩ t ≠ .unchanged)
    (hs : (strip ⟨rule, patterns, options⟩ t).output t = some s) :
    (options.mode ≠ .blockOnly → find rule.line s = none ∧ find rule.altLine s = none) ∧
      (options.mode ≠ .lineOnly → ∀ b ∈ rule.block, find b.start s = none) := by
  have blankFree := blankFree_of_mem_markers rule (mem_rules_of_detect h)
  have clear : IsClear rule options.mode s :=
    isClear_output_strip blankFree (isSteady_of_detect h hini hsql) hchanged hs
  constructor
  · intro hmode
    exact ⟨clear _ (mem_openers_iff.2 (.inl ⟨hmode, .inl rfl⟩)),
      clear _ (mem_openers_iff.2 (.inl ⟨hmode, .inr rfl⟩))⟩
  · intro hmode b hb
    exact clear _ (mem_openers_iff.2 (.inr ⟨hmode, b, hb, rfl⟩))

/-- Slashes that stood apart at blocks make up no line marker. -/
theorem find_output_strip_slashes :
    let line := "a /* b */ / /* \"c\" */ /* d */ e '/*' // f".toList
    let left := "a  /   e '/*'".toList
    detect "js" = .ok slashes ∧ strip ⟨slashes, [], {}⟩ line = .shortened left ∧
      (find slashes.line left = none ∧ find slashes.altLine left = none) ∧
        ∀ b ∈ slashes.block, find b.start left = none := by
  intro line left
  have h : detect "js" = .ok slashes := rfl
  have stripped : strip ⟨slashes, [], {}⟩ line = .shortened left := by decide +kernel
  have clear := find_output_strip h [] {} (by decide +kernel) (by decide +kernel)
    (t := line) (s := left) (by rw [stripped]; simp) (by rw [stripped]; rfl)
  exact ⟨h, stripped, clear.1 (by decide), clear.2 (by decide)⟩

/-- **One kind after the other.**  Without patterns, what is written for a line when all comments
are stripped is what is left of it when the line comment is stripped first and then, if a line is
left, its blocks. -/
theorem output_strip_modes {ext : String} {rule : Rule Char} (h : detect ext = .ok rule)
    (keepBlank : Bool) (t : Text) :
    (strip ⟨rule, [], ⟨.both, keepBlank⟩⟩ t).output t =
      ((strip ⟨rule, [], ⟨.lineOnly, keepBlank⟩⟩ t).output t).bind fun s =>
        (strip ⟨rule, [], ⟨.blockOnly, keepBlank⟩⟩ s).output s :=
  Strip.output_strip_both (blankFree_of_mem_markers rule (mem_rules_of_detect h)) keepBlank t

/-- Two dashes that meet when a block is cut out are left in either way. -/
theorem output_strip_modes_dashes :
    let line := "\ta -/* b */- c /* d -- e */ ".toList
    detect "sql" = .ok dashesAndBlocks ∧
      (strip ⟨dashesAndBlocks, [], {}⟩ line).output line = some "\ta -- c".toList ∧
      ((strip ⟨dashesAndBlocks, [], ⟨.lineOnly, false⟩⟩ line).output line).bind (fun s =>
        (strip ⟨dashesAndBlocks, [], ⟨.blockOnly, false⟩⟩ s).output s) =
          some "\ta -- c".toList := by
  intro line
  have h : detect "sql" = .ok dashesAndBlocks := rfl
  have all : (strip ⟨dashesAndBlocks, [], {}⟩ line).output line = some "\ta -- c".toList := by
    decide +kernel
  exact ⟨h, all, (output_strip_modes h false line).symm.trans all⟩

end Stripper
end Decomment
