import Decomment.Outcome
import Decomment.Proofs.QuoteScan

/-!
# What is cut out of a line

The passes over a line stop at the first comment that must be kept.  Here they run to their end
instead and note every comment they cut, whether it must be kept or not.  What the passes come to
is then read off the notes: nothing if one of the comments must be kept, and else the text that is
left.

The comments are those of the line, the rule and the mode.  The preserve patterns only decide
whether all of them are cut or none.

**Results.**
* `reduce_eq`: passes that stop early come to what the notes of passes to the end say.
* `rest_cuts_of_step`: what every single cut preserves, all of them preserve.
* `output_strip_sublist`: what is written for a line is the line less some of its characters.
* `strip_eq_of_patterns`: preserve patterns veto a line as a whole.
-/

namespace Decomment
namespace Strip

open Marker

section Defs

variable {α : Type} [DecidableEq α] [QuoteAlphabet α]

/-- The comments of a text, in the order of cutting, and what is left of it without them. -/
structure Cuts (α : Type) where
  comments : List (List α)
  rest : List α
deriving DecidableEq, Repr

/-- The line comment, and what stands before it. -/
def lineCuts (rule : Rule α) (t : List α) : Cuts α :=
  match (find rule.line t).or (find rule.altLine t) with
  | some i => ⟨[t.drop i], t.take i⟩
  | none => ⟨[], t⟩

/-- The block comments that are found when the search starts again after each cut. -/
def blockCuts (b : Delimiters α) (t : List α) : Cuts α :=
  match _hi : find b.start t with
  | none => ⟨[], t⟩
  | some i =>
      match _hj : find b.stop (t.drop i) with
      | none => ⟨[t.drop i], t.take i⟩
      | some j =>
          let next := blockCuts b (splice i (i + j + b.stop.length) t)
          ⟨(t.drop i).take (j + b.stop.length) :: next.comments, next.rest⟩
termination_by t.length
decreasing_by exact length_splice_lt _hi _hj

def cuts (rule : Rule α) (mode : Mode) (t : List α) : Cuts α :=
  let first : Cuts α := if mode = .blockOnly then ⟨[], t⟩ else lineCuts rule t
  match rule.block with
  | some b =>
      if mode = .lineOnly then first
      else ⟨first.comments ++ (blockCuts b first.rest).comments, (blockCuts b first.rest).rest⟩
  | none => first

/-- What passes over a text come to that cut these comments, after others were cut if `changed`
says so, and stop where a comment must be kept. -/
def Cuts.progress (c : Cuts α) (keep : List α → Bool) (changed : Bool) : Option (Progress α) :=
  if c.comments.any keep then none else some ⟨c.rest, changed || !c.comments.isEmpty⟩

end Defs

section Steps

variable {α : Type} [DecidableEq α] [QuoteAlphabet α]
variable {b : Delimiters α} {t : List α} {i j : Nat}

theorem blockCuts_of_none (hi : find b.start t = none) : blockCuts b t = ⟨[], t⟩ := by
  rw [blockCuts]
  split
  · rfl
  · rename_i e
    rw [hi] at e
    cases e

theorem blockCuts_of_open (hi : find b.start t = some i) (hj : find b.stop (t.drop i) = none) :
    blockCuts b t = ⟨[t.drop i], t.take i⟩ := by
  rw [blockCuts]
  split
  · rename_i e
    rw [hi] at e
    cases e
  · rename_i e
    obtain rfl := Option.some.inj (hi.symm.trans e)
    split
    · rfl
    · rename_i e
      rw [hj] at e
      cases e

theorem blockCuts_of_closed (hi : find b.start t = some i)
    (hj : find b.stop (t.drop i) = some j) :
    blockCuts b t =
      ⟨(t.drop i).take (j + b.stop.length) ::
          (blockCuts b (splice i (i + j + b.stop.length) t)).comments,
        (blockCuts b (splice i (i + j + b.stop.length) t)).rest⟩ := by
  rw [blockCuts]
  split
  · rename_i e
    rw [hi] at e
    cases e
  · rename_i e
    obtain rfl := Option.some.inj (hi.symm.trans e)
    split
    · rename_i e
      rw [hj] at e
      cases e
    · rename_i e
      obtain rfl := Option.some.inj (hj.symm.trans e)
      rfl

/-- Induction along the cutting of block comments: no start marker is left, or a block is open to
the end of the text, or one block is cut and the search starts again. -/
theorem blockCuts_induction (b : Delimiters α) {motive : List α → Prop}
    (clear : ∀ t, find b.start t = none → motive t)
    (unclosed : ∀ t i, find b.start t = some i → find b.stop (t.drop i) = none → motive t)
    (closed : ∀ t i j, find b.start t = some i → find b.stop (t.drop i) = some j →
      motive (splice i (i + j + b.stop.length) t) → motive t) (t : List α) : motive t := by
  induction t using blockCuts.induct b with
  | case1 t hi => exact clear t hi
  | case2 t i hi hj => exact unclosed t i hi hj
  | case3 t i hi j hj ih => exact closed t i j hi hj ih

theorem rest_blockCuts_of_step {P : List α → Prop}
    (unclosed : ∀ t i, find b.start t = some i → P t → P (t.take i))
    (closed : ∀ t i j, find b.start t = some i → find b.stop (t.drop i) = some j → P t →
      P (splice i (i + j + b.stop.length) t)) (t : List α) (h : P t) :
    P (blockCuts b t).rest := by
  induction t using blockCuts_induction b with
  | clear t hi => rwa [blockCuts_of_none hi]
  | unclosed t i hi hj =>
      rw [blockCuts_of_open hi hj]
      exact unclosed t i hi h
  | closed t i j hi hj ih =>
      rw [blockCuts_of_closed hi hj]
      exact ih (closed t i j hi hj h)

theorem find_start_rest_blockCuts (b : Delimiters α) (t : List α) :
    find b.start (blockCuts b t).rest = none := by
  induction t using blockCuts_induction b with
  | clear t hi => rwa [blockCuts_of_none hi]
  | unclosed t i hi hj =>
      rw [blockCuts_of_open hi hj]
      exact find_take_of_find hi
  | closed t i j hi hj ih => rwa [blockCuts_of_closed hi hj]

omit [DecidableEq α] [QuoteAlphabet α] in
theorem splice_sublist {k : Nat} (h : i ≤ k) (t : List α) : (splice i k t).Sublist t := by
  have tail : (t.drop k).Sublist (t.drop i) := List.drop_sublist_drop_left t h
  have whole := (List.Sublist.refl (t.take i)).append tail
  rwa [List.take_append_drop] at whole

theorem rest_lineCuts_isPrefix (rule : Rule α) (t : List α) : (lineCuts rule t).rest <+: t := by
  cases e : (find rule.line t).or (find rule.altLine t) with
  | none => simp [lineCuts, e]
  | some i => simpa [lineCuts, e] using List.take_prefix i t

theorem rest_cuts_of_step {rule : Rule α} {mode : Mode} {P : List α → Prop}
    (line : mode ≠ .blockOnly → ∀ i, (find rule.line t).or (find rule.altLine t) = some i →
      P t → P (t.take i))
    (unclosed : mode ≠ .lineOnly → ∀ b ∈ rule.block, ∀ s i, find b.start s = some i →
      P s → P (s.take i))
    (closed : mode ≠ .lineOnly → ∀ b ∈ rule.block, ∀ s i j, find b.start s = some i →
      find b.stop (s.drop i) = some j → P s → P (splice i (i + j + b.stop.length) s))
    (h : P t) : P (cuts rule mode t).rest := by
  have first : P (if mode = .blockOnly then Cuts.mk [] t else lineCuts rule t).rest := by
    split
    · exact h
    · rename_i hmode
      cases e : (find rule.line t).or (find rule.altLine t) with
      | none => simpa [lineCuts, e] using h
      | some i => simpa [lineCuts, e] using line hmode i e h
  cases hb : rule.block with
  | none => simpa only [cuts, hb] using first
  | some b =>
      by_cases hl : mode = .lineOnly
      · simpa only [cuts, hb, if_pos hl] using first
      · simp only [cuts, hb, if_neg hl]
        exact rest_blockCuts_of_step (unclosed hl b (by simp [hb]))
          (closed hl b (by simp [hb])) _ first

theorem rest_cuts_sublist (rule : Rule α) (mode : Mode) (t : List α) :
    (cuts rule mode t).rest.Sublist t := by
  refine rest_cuts_of_step (P := fun r => r.Sublist t) ?_ ?_ ?_ (List.Sublist.refl t)
  · intro _ i _ h
    exact (List.take_sublist i t).trans h
  · intro _ b _ s i _ h
    exact (List.take_sublist i s).trans h
  · intro _ b _ s i j _ _ h
    exact (splice_sublist (by omega) s).trans h

end Steps

section Passes

variable {α : Type} [DecidableEq α] [QuoteAlphabet α] (keep : List α → Bool)

theorem cutLine_eq (rule : Rule α) (t : List α) :
    cutLine keep rule t = (lineCuts rule t).progress keep false := by
  cases e : (find rule.line t).or (find rule.altLine t) with
  | none => simp [cutLine, lineCuts, Cuts.progress, e]
  | some i => simp [cutLine, lineCuts, Cuts.progress, e]

theorem cutBlocks_of_none {b : Delimiters α} {t : List α} (hi : find b.start t = none)
    (changed : Bool) : cutBlocks keep b ⟨t, changed⟩ = some ⟨t, changed⟩ := by
  rw [cutBlocks]
  split
  · rfl
  · rename_i e
    rw [hi] at e
    cases e

theorem cutBlocks_of_open {b : Delimiters α} {t : List α} {i : Nat}
    (hi : find b.start t = some i) (hj : find b.stop (t.drop i) = none) (changed : Bool) :
    cutBlocks keep b ⟨t, changed⟩ =
      if keep (t.drop i) then none else some ⟨t.take i, true⟩ := by
  rw [cutBlocks]
  split
  · rename_i e
    rw [hi] at e
    cases e
  · rename_i e
    obtain rfl := Option.some.inj (hi.symm.trans e)
    split
    · rfl
    · rename_i e
      rw [hj] at e
      cases e

theorem cutBlocks_of_closed {b : Delimiters α} {t : List α} {i j : Nat}
    (hi : find b.start t = some i) (hj : find b.stop (t.drop i) = some j) (changed : Bool) :
    cutBlocks keep b ⟨t, changed⟩ =
      if keep ((t.drop i).take (j + b.stop.length)) then none
      else cutBlocks keep b ⟨splice i (i + j + b.stop.length) t, true⟩ := by
  rw [cutBlocks]
  split
  · rename_i e
    rw [hi] at e
    cases e
  · rename_i e
    obtain rfl := Option.some.inj (hi.symm.trans e)
    split
    · rename_i e
      rw [hj] at e
      cases e
    · rename_i e
      obtain rfl := Option.some.inj (hj.symm.trans e)
      rfl

theorem cutBlocks_eq (b : Delimiters α) (t : List α) : ∀ changed : Bool,
    cutBlocks keep b ⟨t, changed⟩ = (blockCuts b t).progress keep changed := by
  induction t using blockCuts_induction b with
  | clear t hi =>
      intro changed
      rw [blockCuts_of_none hi, cutBlocks_of_none keep hi]
      simp [Cuts.progress]
  | unclosed t i hi hj =>
      intro changed
      rw [blockCuts_of_open hi hj, cutBlocks_of_open keep hi hj]
      simp [Cuts.progress]
  | closed t i j hi hj ih =>
      intro changed
      rw [blockCuts_of_closed hi hj, cutBlocks_of_closed keep hi hj]
      -- A comment that is kept ends the pass here, whatever the later cuts would be.
      by_cases hk : keep ((t.drop i).take (j + b.stop.length)) = true
      · simp [Cuts.progress, hk]
      · rw [if_neg hk, ih true]
        simp [Cuts.progress, hk]

/-- Cutting blocks out of what other passes have left adds to their comments. -/
theorem progress_bind_cutBlocks (c : Cuts α) (b : Delimiters α) (changed : Bool) :
    (c.progress keep changed).bind (cutBlocks keep b) =
      (Cuts.mk (c.comments ++ (blockCuts b c.rest).comments)
        (blockCuts b c.rest).rest).progress keep changed := by
  by_cases h : c.comments.any keep = true
  · simp [Cuts.progress, h]
  · have some_cut (changed : Bool) : ((changed || !c.comments.isEmpty) ||
        !(blockCuts b c.rest).comments.isEmpty) =
          (changed || !(c.comments ++ (blockCuts b c.rest).comments).isEmpty) := by
      cases c.comments <;> simp
    rw [Cuts.progress, if_neg h, Option.bind_some, cutBlocks_eq, Cuts.progress, Cuts.progress,
      some_cut, List.any_append, Bool.eq_false_iff.2 h, Bool.false_or]

theorem runPasses_eq (rule : Rule α) (mode : Mode) (t : List α) :
    runPasses keep rule mode t = (cuts rule mode t).progress keep false := by
  have first : (if mode = .blockOnly then some ⟨t, false⟩ else cutLine keep rule t) =
      (if mode = .blockOnly then Cuts.mk [] t else lineCuts rule t).progress keep false := by
    split
    · rfl
    · exact cutLine_eq keep rule t
  rw [runPasses, first]
  cases hb : rule.block with
  | none => simp only [cuts, hb]
  | some b =>
      by_cases hm : mode = .lineOnly
      · simp only [cuts, hb, if_pos hm]
      · simp only [cuts, hb, if_neg hm, ← progress_bind_cutBlocks]

/-- Passes that stop at the first comment to be kept come to what passes to the end say. -/
theorem reduce_eq (rule : Rule α) (mode : Mode) (t : List α) :
    reduce keep rule mode t =
      if (cuts rule mode t).comments.isEmpty || (cuts rule mode t).comments.any keep then none
      else some (cuts rule mode t).rest := by
  rw [reduce, runPasses_eq]
  by_cases h : (cuts rule mode t).comments.any keep = true
  · simp [Cuts.progress, h]
  · rw [Bool.not_eq_true] at h
    cases e : (cuts rule mode t).comments.isEmpty <;> simp [Cuts.progress, h, e]

end Passes

section Veto

variable {keep : Text → Bool} {rule : Rule Char} {options : Removal} {t : Text}

theorem strip_of_reduce_eq_none (h : reduce keep rule options.mode t = none) :
    strip keep rule options t = .unchanged := by
  rw [strip, h]

theorem strip_of_reduce_eq_some {rest : Text} (h : reduce keep rule options.mode t = some rest) :
    strip keep rule options t = tidy options t rest := by
  rw [strip, h]

theorem eq_rest_of_reduce_eq_some {rest : Text} {mode : Mode}
    (h : reduce keep rule mode t = some rest) : rest = (cuts rule mode t).rest := by
  rw [reduce_eq] at h
  split at h
  · cases h
  · exact (Option.some.inj h).symm

theorem output_strip_sublist {o : Text} (h : (strip keep rule options t).output t = some o) :
    o.Sublist t := by
  cases hr : reduce keep rule options.mode t with
  | none =>
      rw [strip_of_reduce_eq_none hr] at h
      cases h
      exact List.Sublist.refl t
  | some rest =>
      rw [strip_of_reduce_eq_some hr] at h
      simp only [tidy] at h
      split at h
      · split at h
        · cases h
          exact List.takeWhile_sublist _
        · cases h
      · cases h
        rw [eq_rest_of_reduce_eq_some hr]
        exact (Text.dropTrailing_isPrefix _ _).sublist.trans (rest_cuts_sublist rule _ t)

/-- A line keeps what stands before a character that is not blank. -/
theorem tidy_append_of_not_isBlank (options : Removal) (t u v : Text) {c : Char}
    (hc : Text.isBlank c = false) :
    tidy options t (u ++ c :: v) = .shortened (u ++ c :: Text.dropTrailing Text.isIndent v) := by
  have indent := Text.isIndent_of_not_isBlank hc
  have nonblank : (Text.trim (u ++ c :: Text.dropTrailing Text.isIndent v)).isEmpty = false := by
    rw [← Bool.not_eq_true, List.isEmpty_iff, Text.trim_eq_nil_iff]
    intro h
    have blank := h c (by simp)
    rw [hc] at blank
    cases blank
  simp [tidy, Text.dropTrailing_append_of_false u v indent, nonblank]

theorem tidy_ne_unchanged (options : Removal) (t rest : Text) :
    tidy options t rest ≠ .unchanged := by
  simp only [tidy]
  split
  · split <;> simp
  · simp

theorem strip_eq_unchanged_iff :
    strip keep rule options t = .unchanged ↔ reduce keep rule options.mode t = none := by
  cases h : reduce keep rule options.mode t with
  | none => simp [strip_of_reduce_eq_none h]
  | some rest => simp [strip_of_reduce_eq_some h, tidy_ne_unchanged]

/-- A line whose comments may all go is stripped as if none were ever kept. -/
theorem strip_eq_of_any (keep : Text → Bool) (rule : Rule Char) (options : Removal) (t : Text) :
    strip keep rule options t =
      if (cuts rule options.mode t).comments.any keep then .unchanged
      else strip (fun _ => false) rule options t := by
  have none_kept : (cuts rule options.mode t).comments.any (fun _ => false) = false := by simp
  cases h : (cuts rule options.mode t).comments.any keep with
  | true =>
      rw [if_pos rfl]
      exact strip_of_reduce_eq_none (by rw [reduce_eq, h, Bool.or_true, if_pos rfl])
  | false =>
      have same : reduce keep rule options.mode t = reduce (fun _ => false) rule options.mode t := by
        rw [reduce_eq, reduce_eq, h, none_kept]
      rw [if_neg (by simp), strip, strip, same]

end Veto

end Strip

namespace Keep

theorem shouldKeep_congr {patterns more : List Text} (h : ∀ p, p ∈ patterns ↔ p ∈ more) :
    shouldKeep patterns = shouldKeep more := by
  funext c
  rw [Bool.eq_iff_iff, shouldKeep, shouldKeep, List.any_eq_true, List.any_eq_true]
  simp only [h]

theorem any_shouldKeep_nil (comments : List Text) : comments.any (shouldKeep []) = false := by
  simp [shouldKeep]

theorem shouldKeep_of_subset {patterns more : List Text} {c : Text} (h : patterns ⊆ more)
    (hc : shouldKeep patterns c = true) : shouldKeep more c = true := by
  obtain ⟨p, hp, hf⟩ := List.any_eq_true.1 hc
  exact List.any_eq_true.2 ⟨p, h hp, hf⟩

end Keep

namespace Stripper

open Strip

/-- **The veto of a line.**  The comments that can veto a line depend on the line, the rule and
the mode alone.  If a pattern matches one of them the line stays as it is, and otherwise it is
stripped as if there were no patterns.  So the order and the repetition of patterns do not matter,
and more patterns can only make a line stay as it is. -/
theorem strip_eq_of_patterns (rule : Rule Char) (options : Removal) (t : Text) :
    (∀ patterns : List Text,
      strip ⟨rule, patterns, options⟩ t =
        if (cuts rule options.mode t).comments.any (Keep.shouldKeep patterns) then .unchanged
        else strip ⟨rule, [], options⟩ t) ∧
    (∀ patterns more : List Text, (∀ p, p ∈ patterns ↔ p ∈ more) →
      strip ⟨rule, patterns, options⟩ t = strip ⟨rule, more, options⟩ t) ∧
    ∀ patterns more : List Text, patterns ⊆ more →
      strip ⟨rule, more, options⟩ t = .unchanged ∨
        strip ⟨rule, more, options⟩ t = strip ⟨rule, patterns, options⟩ t := by
  have veto (patterns : List Text) :
      strip ⟨rule, patterns, options⟩ t =
        if (cuts rule options.mode t).comments.any (Keep.shouldKeep patterns) then .unchanged
        else strip ⟨rule, [], options⟩ t :=
    strip_eq_of_any (Keep.shouldKeep patterns) rule options t
  refine ⟨veto, ?_, ?_⟩
  · intro patterns more h
    rw [veto patterns, veto more, Keep.shouldKeep_congr h]
  · intro patterns more h
    cases hm : (cuts rule options.mode t).comments.any (Keep.shouldKeep more) with
    | true =>
        left
        rw [veto more, hm, if_pos rfl]
    | false =>
        right
        -- A comment kept by the fewer patterns would be kept by all of them.
        have hp : (cuts rule options.mode t).comments.any (Keep.shouldKeep patterns) = false := by
          rw [List.any_eq_false] at hm ⊢
          intro c hc e
          exact hm c hc (Keep.shouldKeep_of_subset h e)
        rw [veto more, veto patterns, hm, hp]

/-- A pattern that is there twice vetoes a line once, and another pattern leaves it vetoed. -/
theorem strip_eq_of_patterns_todo :
    let line := "a /* TODO: b */ c /* d */".toList
    let todo := "TODO:".toList
    strip ⟨Language.slashes, [], {}⟩ line = .shortened "a  c".toList ∧
      strip ⟨Language.slashes, [todo, todo], {}⟩ line =
        strip ⟨Language.slashes, [todo], {}⟩ line ∧
      (strip ⟨Language.slashes, [todo, "d*".toList], {}⟩ line = .unchanged ∨
        strip ⟨Language.slashes, [todo, "d*".toList], {}⟩ line =
          strip ⟨Language.slashes, [todo], {}⟩ line) := by
  intro line todo
  refine ⟨by decide +kernel, ?_, ?_⟩
  · exact (strip_eq_of_patterns Language.slashes {} line).2.1 [todo, todo] [todo] (by simp)
  · exact (strip_eq_of_patterns Language.slashes {} line).2.2 [todo] [todo, "d*".toList] (by simp)

end Stripper
end Decomment
