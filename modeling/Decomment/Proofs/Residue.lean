import Decomment.Proofs.Cuts

/-!
# What is left of a line

A pass leaves no marker that it looks for, but a later pass may bring one about: where a block is
cut out, two parts of the line meet that stood apart.  The quotes are not disturbed by this, since
a block starts and ends outside quotes.  So a marker that was not there before reaches over the
place where the parts meet, and none can arise if a part of it right before the start of a block
makes the whole marker stand there already.

**Results.**
* `exists_block_of_find`: a closed block with the parts of the text around it.
* `find_splice_eq_none`: cutting a block out brings about no marker that its start completes.
* `isClear_rest_cuts`: if a rule is steady, no marker that the mode looks for is left.
* `cuts_of_isClear`, `isClear_of_comments_cuts`: nothing is cut exactly from a text without such
  markers.
* `prefix_rest_cuts`: what stands before all markers is left.
-/

namespace Decomment
namespace Strip

open Marker

section Openers

variable {α : Type}

/-- The markers at which the mode lets a comment start. -/
def openers (rule : Rule α) (mode : Mode) : List (List α) :=
  (if mode = .blockOnly then [] else [rule.line, rule.altLine]) ++
    if mode = .lineOnly then [] else rule.block.toList.map Delimiters.start

theorem mem_openers_iff {rule : Rule α} {mode : Mode} {m : List α} :
    m ∈ openers rule mode ↔
      (mode ≠ .blockOnly ∧ (m = rule.line ∨ m = rule.altLine)) ∨
        (mode ≠ .lineOnly ∧ ∃ b ∈ rule.block, b.start = m) := by
  cases mode <;> simp [openers, or_assoc]

end Openers

section Defs

variable {α : Type} [DecidableEq α] [QuoteAlphabet α]

/-- No comment that the mode asks for starts in the text. -/
def IsClear (rule : Rule α) (mode : Mode) (t : List α) : Prop :=
  ∀ m ∈ openers rule mode, find m t = none

instance (rule : Rule α) (mode : Mode) (t : List α) : Decidable (IsClear rule mode t) :=
  inferInstanceAs (Decidable (∀ m ∈ openers rule mode, find m t = none))

/-- Where a part of the marker `m` stands right before `start`, all of `m` does. -/
def IsCompletedBy (m start : List α) : Prop :=
  ∀ k < m.length, 0 < k → m <+: m.take k ++ start

instance (m start : List α) : Decidable (IsCompletedBy m start) :=
  inferInstanceAs (Decidable (∀ k < m.length, 0 < k → m <+: m.take k ++ start))

/-- One pass over the lines finds all line comments, and cutting blocks brings about no others. -/
structure IsSteady (rule : Rule α) (mode : Mode) : Prop where
  altLine_eq : mode ≠ .blockOnly → rule.altLine = []
  completed : mode = .both → ∀ b ∈ rule.block, QuoteFree b.stop ∧ IsCompletedBy rule.line b.start

end Defs

section Splices

variable {α : Type} [DecidableEq α] [QuoteAlphabet α]
variable {b : Delimiters α} {m t : List α} {i j : Nat}

theorem endsOutside_block (hstop : QuoteFree b.stop) (hj : find b.stop t = some j) :
    EndsOutside (t.take (j + b.stop.length)) := by
  have ends := isPrefixOf_drop_of_find hj
  rw [List.isPrefixOf_iff_prefix] at ends
  rw [List.take_add, endsOutside_append (endsOutside_take_of_find hj),
    ← List.prefix_iff_eq_take.1 ends]
  exact hstop.endsOutside

/-- A closed block: the text before it and the block itself end outside quotes. -/
theorem exists_block_of_find (hstop : QuoteFree b.stop) (hi : find b.start t = some i)
    (hj : find b.stop (t.drop i) = some j) :
    ∃ pre block post, t = pre ++ (block ++ post) ∧ pre.length = i ∧
      splice i (i + j + b.stop.length) t = pre ++ post ∧
      EndsOutside pre ∧ EndsOutside block := by
  have hle := add_length_le_of_find hi
  refine ⟨t.take i, (t.drop i).take (j + b.stop.length), t.drop (i + j + b.stop.length),
    ?_, ?_, rfl, endsOutside_take_of_find hi, endsOutside_block hstop hj⟩
  · have e : t.drop (i + j + b.stop.length) = (t.drop i).drop (j + b.stop.length) := by
      rw [List.drop_drop, Nat.add_assoc]
    rw [e, List.take_append_drop, List.take_append_drop]
  · rw [List.length_take]
    omega

/-- Cutting a block out brings about no marker that the start of the block completes. -/
theorem find_splice_eq_none (hstop : QuoteFree b.stop) (hb : IsCompletedBy m b.start)
    (hi : find b.start t = some i) (hj : find b.stop (t.drop i) = some j)
    (hm : find m t = none) : find m (splice i (i + j + b.stop.length) t) = none := by
  obtain ⟨pre, block, post, rfl, rfl, e, hpre, hblock⟩ := exists_block_of_find hstop hi hj
  have starts : b.start <+: block ++ post := by
    have h := isPrefixOf_drop_of_find hi
    rwa [List.drop_left, List.isPrefixOf_iff_prefix] at h
  rw [e]
  by_cases hne : m = []
  · simp [hne]
  rw [find_eq_none_iff hne] at hm ⊢
  intro k hk
  rcases Nat.lt_or_ge k pre.length with before | after
  · rcases Nat.lt_or_ge pre.length (k + m.length) with across | within
    · -- The marker would reach over the place where the parts meet.
      refine hm k (hk.of_reaches before across fun l hl hpos => ?_)
      exact (hb l hl hpos).trans ((List.prefix_append_right_inj _).2 starts)
    · exact hm k ((hk.of_append before within).append_left _)
  · obtain ⟨l, rfl⟩ := Nat.exists_eq_add_of_le after
    rw [standsAt_append_right_iff hpre] at hk
    have later := (standsAt_append_right_iff hblock).2 hk
    exact hm _ ((standsAt_append_right_iff hpre).2 later)

end Splices

section Clear

variable {α : Type} [DecidableEq α] [QuoteAlphabet α]
variable {rule : Rule α} {mode : Mode} {t : List α}

theorem prefix_rest_cuts {u : List α} (h : ∀ m ∈ openers rule mode, ∀ s i, u <+: s →
    find m s = some i → u.length ≤ i) (hu : u <+: t) : u <+: (cuts rule mode t).rest := by
  refine rest_cuts_of_step (P := fun s => u <+: s) ?_ ?_ ?_ hu
  · intro hmode i e hs
    have hle : u.length ≤ i := by
      rcases Option.or_eq_some_iff.1 e with hi | ⟨-, hi⟩
      · exact h _ (mem_openers_iff.2 (.inl ⟨hmode, .inl rfl⟩)) t i hs hi
      · exact h _ (mem_openers_iff.2 (.inl ⟨hmode, .inr rfl⟩)) t i hs hi
    exact List.prefix_take_iff.2 ⟨hs, hle⟩
  · intro hmode b hb s i hi hs
    have hstart := mem_openers_iff.2 (.inr ⟨hmode, b, hb, rfl⟩)
    exact List.prefix_take_iff.2 ⟨hs, h _ hstart s i hs hi⟩
  · intro hmode b hb s i j hi _ hs
    have hstart := mem_openers_iff.2 (.inr ⟨hmode, b, hb, rfl⟩)
    exact (List.prefix_take_iff.2 ⟨hs, h _ hstart s i hs hi⟩).trans (List.prefix_append _ _)

theorem find_line_rest_lineCuts (h : rule.altLine = []) :
    find rule.line (lineCuts rule t).rest = none := by
  cases e : find rule.line t with
  | none => simp [lineCuts, e, h]
  | some i =>
      simp only [lineCuts, e, Option.some_or]
      exact find_take_of_find e

theorem find_start_rest_cuts {b : Delimiters α} (hb : rule.block = some b)
    (hmode : mode ≠ .lineOnly) (t : List α) : find b.start (cuts rule mode t).rest = none := by
  simp only [cuts, hb, if_neg hmode]
  exact find_start_rest_blockCuts b _

theorem isClear_rest_cuts (h : IsSteady rule mode) (t : List α) :
    IsClear rule mode (cuts rule mode t).rest := by
  intro m hm
  rcases mem_openers_iff.1 hm with ⟨hmode, hline⟩ | ⟨hmode, b, hb, rfl⟩
  · have hfirst : find rule.line (lineCuts rule t).rest = none :=
      find_line_rest_lineCuts (h.altLine_eq hmode)
    have hrest : find rule.line (cuts rule mode t).rest = none := by
      cases hb : rule.block with
      | none => simpa only [cuts, hb, if_neg hmode] using hfirst
      | some b =>
          by_cases hl : mode = .lineOnly
          · simpa only [cuts, hb, if_neg hmode, if_pos hl] using hfirst
          · have hboth : mode = .both := by
              cases mode <;> simp_all
            obtain ⟨hstop, hdone⟩ := h.completed hboth b (by simp [hb])
            simp only [cuts, hb, if_neg hmode, if_neg hl]
            refine rest_blockCuts_of_step (P := fun s => find rule.line s = none) ?_ ?_ _ hfirst
            · exact fun s i _ hs => find_eq_none_of_isPrefix hs (List.take_prefix i s)
            · exact fun s i j hi hj hs => find_splice_eq_none hstop hdone hi hj hs
    rcases hline with rfl | rfl
    · exact hrest
    · rw [h.altLine_eq hmode, find_nil]
  · exact find_start_rest_cuts hb hmode t

theorem cuts_of_isClear (h : IsClear rule mode t) : cuts rule mode t = ⟨[], t⟩ := by
  have hfirst : (if mode = .blockOnly then Cuts.mk [] t else lineCuts rule t) = ⟨[], t⟩ := by
    split
    · rfl
    · rename_i hmode
      have hline := h rule.line (mem_openers_iff.2 (.inl ⟨hmode, .inl rfl⟩))
      have halt := h rule.altLine (mem_openers_iff.2 (.inl ⟨hmode, .inr rfl⟩))
      rw [lineCuts, hline, halt, Option.or_none]
  cases hb : rule.block with
  | none => simp only [cuts, hb, hfirst]
  | some b =>
      by_cases hl : mode = .lineOnly
      · simp only [cuts, hb, hfirst, if_pos hl]
      · have hstart := h b.start (mem_openers_iff.2 (.inr ⟨hl, b, by simp [hb], rfl⟩))
        simp only [cuts, hb, hfirst, if_neg hl, blockCuts_of_none hstart, List.append_nil]

theorem find_of_comments_lineCuts (h : (lineCuts rule t).comments = []) :
    find rule.line t = none ∧ find rule.altLine t = none := by
  cases e : (find rule.line t).or (find rule.altLine t) with
  | none => exact Option.or_eq_none_iff.1 e
  | some i => simp [lineCuts, e] at h

theorem find_of_comments_blockCuts {b : Delimiters α} (h : (blockCuts b t).comments = []) :
    find b.start t = none := by
  cases hi : find b.start t with
  | none => rfl
  | some i =>
      cases hj : find b.stop (t.drop i) with
      | none => simp [blockCuts_of_open hi hj] at h
      | some j => simp [blockCuts_of_closed hi hj] at h

theorem isClear_of_comments_cuts (h : (cuts rule mode t).comments = []) :
    IsClear rule mode t := by
  have hline : mode ≠ .blockOnly → (lineCuts rule t).comments = [] := by
    intro hmode
    cases hb : rule.block with
    | none => simpa [cuts, hb, hmode] using h
    | some b =>
        by_cases hl : mode = .lineOnly
        · simpa [cuts, hb, hl] using h
        · simp only [cuts, hb, if_neg hmode, if_neg hl, List.append_eq_nil_iff] at h
          exact h.1
  intro m hm
  rcases mem_openers_iff.1 hm with ⟨hmode, rfl | rfl⟩ | ⟨hmode, b, hb, rfl⟩
  · exact (find_of_comments_lineCuts (hline hmode)).1
  · exact (find_of_comments_lineCuts (hline hmode)).2
  · have hb : rule.block = some b := hb
    by_cases hblock : mode = .blockOnly
    · exact find_of_comments_blockCuts (by simpa [cuts, hb, hblock] using h)
    · have hrest : (lineCuts rule t).rest = t := by
        have hnone := find_of_comments_lineCuts (hline hblock)
        simp [lineCuts, hnone]
      simp only [cuts, hb, if_neg hblock, if_neg hmode, List.append_eq_nil_iff, hrest] at h
      exact find_of_comments_blockCuts h.2

theorem reduce_of_isClear (keep : List α → Bool) (h : IsClear rule mode t) :
    reduce keep rule mode t = none := by
  rw [reduce_eq, cuts_of_isClear h]
  rfl

end Clear

end Strip
end Decomment
