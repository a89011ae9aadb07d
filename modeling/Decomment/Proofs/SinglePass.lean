import Decomment.Proofs.Shortening

/-!
# Blocks in a single pass

The search for block comments starts again at the start of the text after every cut.  A single pass
would do as well if no start marker could be put together from what stands on both sides of a cut.
It cannot where the part before the cut, with the start marker that stood after it, makes up a line
marker: then the line pass would have cut the text there before.  That is so for slashes and stars,
since a slash before a slash and a star is a line marker.

So the text that is already copied is never looked into again: it is sealed, which means that no
block starts in it, whatever follows.

**Results.**
* `singlePass_of_none`, `singlePass_of_open`, `singlePass_of_closed`: the single pass, block by block.
* `isSealed_take_of_find`: what is copied up to a block is sealed.
* `rest_blockCuts_append`: behind a sealed text, starting again is going on.
* `runPasses_slashes`: what the passes come to with the rule of the C-like languages.
-/

namespace Decomment
namespace Strip

open Marker QuoteAlphabet

section Defs

variable {α : Type} [DecidableEq α] [QuoteAlphabet α]

/-- Copies a text from the left to the right, where `quote` is open and `prev` stands before it.
At a start marker outside quotes it skips through the first end marker that a scan from there finds
outside quotes, and goes on outside any quote; without an end marker nothing more is copied. -/
def passFrom (b : Delimiters α) (quote prev : Option α) : List α → List α
  | [] => []
  | c :: cs =>
      if quote.isNone && !isQuote c && b.start.isPrefixOf (c :: cs) then
        match _hj : find b.stop (c :: cs) with
        | none => []
        | some j => passFrom b none none ((c :: cs).drop (j + b.stop.length))
      else c :: passFrom b (advance quote prev c) (some c) cs
termination_by t => t.length
decreasing_by
  · have hpos := pos_of_find _hj
    simp only [List.length_drop, List.length_cons]
    omega
  · simp

/-- The text without its block comments, by one pass from its start. -/
def singlePass (b : Delimiters α) (t : List α) : List α :=
  passFrom b none none t

/-- No block starts in the text `u`, whatever follows it, and no quote is open at its end. -/
structure IsSealed (b : Delimiters α) (u : List α) : Prop where
  outside : EndsOutside u
  clear : ∀ v, ∀ k < u.length, ¬ StandsAt b.start (u ++ v) k

/-- Where a part of `start` stands right before `start`, the marker `m` stands. -/
def IsBarredBy (start m : List α) : Prop :=
  ∀ k < start.length, 0 < k → m <+: start.take k ++ start

instance (start m : List α) : Decidable (IsBarredBy start m) :=
  inferInstanceAs (Decidable (∀ k < start.length, 0 < k → m <+: start.take k ++ start))

end Defs

section Pass

variable {α : Type} [DecidableEq α] [QuoteAlphabet α]
variable {b : Delimiters α} {quote prev : Option α} {t u v : List α} {i j : Nat}

/-- Where no quote is open, the letter before does not matter. -/
theorem passFrom_none (b : Delimiters α) (prev : Option α) (t : List α) :
    passFrom b none prev t = singlePass b t := by
  cases t with
  | nil => rw [singlePass, passFrom, passFrom]
  | cons c cs =>
      rw [singlePass, passFrom, passFrom]
      rfl

/-- A text in which no block starts is copied. -/
theorem passFrom_append : ∀ {u : List α} {quote prev : Option α},
    (∀ k < u.length, ¬ StandsFrom quote prev b.start (u ++ v) k) →
      passFrom b quote prev (u ++ v) =
        u ++ passFrom b (quoteAfter quote prev u) (u.getLast?.or prev) v
  | [], _, _, _ => by simp [quoteAfter]
  | c :: u, quote, prev, h => by
      have here : ¬ (quote.isNone && !isQuote c && b.start.isPrefixOf (c :: (u ++ v))) = true := by
        intro starts
        refine h 0 (by simp) (standsFrom_zero_iff.2 ?_)
        simpa [and_assoc] using starts
      have later : ∀ k < u.length,
          ¬ StandsFrom (advance quote prev c) (some c) b.start (u ++ v) k := by
        intro k hk stands
        exact h (k + 1) (by simpa using hk) (standsFrom_succ_iff.2 stands)
      rw [List.cons_append, passFrom, if_neg here, passFrom_append later, quoteAfter,
        List.getLast?_cons]
      cases u.getLast? <;> simp

/-- At a start marker the block is skipped. -/
theorem singlePass_of_standsAt (h : StandsAt b.start t 0) :
    singlePass b t =
      match find b.stop t with
      | none => []
      | some j => singlePass b (t.drop (j + b.stop.length)) := by
  cases t with
  | nil => exact absurd h not_standsFrom_nil
  | cons c cs =>
      obtain ⟨-, unquoted, starts⟩ := standsFrom_zero_iff.1 h
      have here : ((none : Option α).isNone && !isQuote c && b.start.isPrefixOf (c :: cs)) =
          true := by
        simpa [unquoted] using starts
      rw [singlePass, passFrom, if_pos here]
      split
      · rename_i e
        rw [e]
      · rename_i e
        rw [e]
        rfl

theorem singlePass_of_none (hb : b.start ≠ []) (hi : find b.start t = none) :
    singlePass b t = t := by
  have clear : ∀ k < t.length, ¬ StandsFrom none none b.start (t ++ []) k := by
    intro k _
    rw [List.append_nil]
    exact (find_eq_none_iff hb).1 hi k
  have copied := passFrom_append clear
  rwa [List.append_nil, passFrom, List.append_nil] at copied

/-- A text is copied up to the first start marker. -/
theorem singlePass_of_find (hi : find b.start t = some i) :
    singlePass b t = t.take i ++ singlePass b (t.drop i) := by
  have clear : ∀ k < (t.take i).length,
      ¬ StandsFrom none none b.start (t.take i ++ t.drop i) k := by
    intro k hk
    rw [List.length_take] at hk
    rw [List.take_append_drop]
    exact not_standsAt_of_find hi (by omega)
  have copied := passFrom_append clear
  rwa [endsOutside_take_of_find hi, List.take_append_drop, passFrom_none, passFrom_none] at copied

theorem singlePass_of_open (hi : find b.start t = some i)
    (hj : find b.stop (t.drop i) = none) : singlePass b t = t.take i := by
  rw [singlePass_of_find hi, singlePass_of_standsAt (standsAt_drop_of_find hi), hj,
    List.append_nil]

theorem singlePass_of_closed (hi : find b.start t = some i)
    (hj : find b.stop (t.drop i) = some j) :
    singlePass b t = t.take i ++ singlePass b (t.drop (i + j + b.stop.length)) := by
  rw [singlePass_of_find hi, singlePass_of_standsAt (standsAt_drop_of_find hi), hj]
  simp only [List.drop_drop, Nat.add_assoc]

end Pass

section Sealed

variable {α : Type} [DecidableEq α] [QuoteAlphabet α]
variable {b : Delimiters α} {m t u v : List α} {i : Nat}

theorem isSealed_nil (b : Delimiters α) : IsSealed b [] :=
  ⟨rfl, fun _ k hk => absurd hk (Nat.not_lt_zero k)⟩

theorem IsSealed.append (hu : IsSealed b u) (hv : IsSealed b v) : IsSealed b (u ++ v) := by
  refine ⟨(endsOutside_append hu.outside).2 hv.outside, fun w k hk stands => ?_⟩
  rw [List.append_assoc] at stands
  rcases Nat.lt_or_ge k u.length with before | after
  · exact hu.clear (v ++ w) k before stands
  · obtain ⟨l, rfl⟩ := Nat.exists_eq_add_of_le after
    rw [List.length_append] at hk
    exact hv.clear w l (by omega) ((standsAt_append_right_iff hu.outside).1 stands)

/-- The search for a start marker goes on behind a sealed text. -/
theorem IsSealed.find_append (hu : IsSealed b u) (t : List α) :
    find b.start (u ++ t) = (find b.start t).map (u.length + ·) :=
  find_append_of_not_standsAt hu.outside (hu.clear t)

/-- Text up to a start marker is sealed, if a marker that the text lacks bars the start marker. -/
theorem isSealed_take_of_find (hm : m ≠ []) (hbar : IsBarredBy b.start m)
    (hclear : find m t = none) (hi : find b.start t = some i) : IsSealed b (t.take i) := by
  refine ⟨endsOutside_take_of_find hi, fun v k hk stands => ?_⟩
  have starts : b.start <+: t.drop i := by
    simpa using (standsAt_drop_of_find hi).starts
  rcases Nat.lt_or_ge (t.take i).length (k + b.start.length) with across | within
  · -- A part of the start marker stands before the start marker, and so `m` stands in the text.
    have barred : StandsAt m (t.take i ++ t.drop i) k :=
      stands.of_reaches hk across fun l hl hpos =>
        (hbar l hl hpos).trans ((List.prefix_append_right_inj _).2 starts)
    rw [List.take_append_drop] at barred
    exact (find_eq_none_iff hm).1 hclear k barred
  · have earlier := (stands.of_append hk within).append_left (t.drop i)
    rw [List.take_append_drop] at earlier
    rw [List.length_take] at hk
    exact not_standsAt_of_find hi (by omega) earlier

end Sealed

section Restart

variable {α : Type} [DecidableEq α] [QuoteAlphabet α]
variable {b : Delimiters α} {m t u : List α}

/-- **Starting again is going on.**  Behind a sealed text, the search that starts again after every
cut leaves what a single pass leaves. -/
theorem rest_blockCuts_append (hstart : b.start ≠ []) (hstop : QuoteFree b.stop) (hm : m ≠ [])
    (hbar : IsBarredBy b.start m) (hu : IsSealed b u) (hclear : find m t = none) :
    (blockCuts b (u ++ t)).rest = u ++ singlePass b t := by
  generalize hw : u ++ t = w
  induction w using blockCuts_induction b generalizing u t with
  | clear w hi =>
      subst hw
      rw [hu.find_append, Option.map_eq_none_iff] at hi
      rw [blockCuts_of_none (by rw [hu.find_append, hi, Option.map_none]),
        singlePass_of_none hstart hi]
  | unclosed w n hn hj =>
      subst hw
      obtain ⟨i, hi, rfl⟩ := Option.map_eq_some_iff.1 ((hu.find_append t).symm.trans hn)
      rw [blockCuts_of_open hn hj, List.take_length_add_append]
      rw [List.drop_length_add_append] at hj
      rw [singlePass_of_open hi hj]
  | closed w n j hn hj ih =>
      subst hw
      obtain ⟨i, hi, rfl⟩ := Option.map_eq_some_iff.1 ((hu.find_append t).symm.trans hn)
      rw [blockCuts_of_closed hn hj]
      change (blockCuts b (splice (u.length + i) (u.length + i + j + b.stop.length) (u ++ t))).rest = _
      rw [List.drop_length_add_append] at hj
      have copied : IsSealed b (u ++ t.take i) :=
        hu.append (isSealed_take_of_find hm hbar hclear hi)
      have behind : find m (t.drop (i + j + b.stop.length)) = none := by
        have here : find m (t.drop i) = none :=
          find_eq_none_of_append_right (endsOutside_take_of_find hi)
            (by rwa [List.take_append_drop])
        rw [Nat.add_assoc, ← List.drop_drop]
        exact find_eq_none_of_append_right (endsOutside_block hstop hj)
          (by rwa [List.take_append_drop])
      have spliced : splice (u.length + i) (u.length + i + j + b.stop.length) (u ++ t) =
          u ++ t.take i ++ t.drop (i + j + b.stop.length) := by
        rw [splice, List.take_length_add_append, Nat.add_assoc, Nat.add_assoc,
          List.drop_length_add_append, Nat.add_assoc]
      rw [ih copied behind spliced.symm, singlePass_of_closed hi hj, List.append_assoc]

end Restart

section Slashes

open Decomment.Language

/-- The text before its first line comment, or all of it. -/
def codeBefore (m t : Text) : Text :=
  t.take ((find m t).getD t.length)

theorem find_codeBefore (m t : Text) : find m (codeBefore m t) = none := by
  cases e : find m t with
  | none => simp [codeBefore, e]
  | some i => simpa [codeBefore, e] using find_take_of_find e

theorem rest_lineCuts_slashes (t : Text) :
    (lineCuts slashes t).rest = codeBefore slashes.line t := by
  cases e : find slashes.line t with
  | none =>
      have alt : find slashes.altLine t = none := find_nil t
      simp [lineCuts, codeBefore, e, alt]
  | some i => simp [lineCuts, codeBefore, e]

/-- A slash before a slash and a star makes up the line marker. -/
theorem isBarredBy_slashes : IsBarredBy slashStar.start slashes.line := by
  decide

theorem rest_cuts_slashes (t : Text) :
    (cuts slashes .both t).rest = singlePass slashStar (codeBefore slashes.line t) := by
  have rest := rest_blockCuts_append (b := slashStar) (by decide) (by decide) (by decide)
    isBarredBy_slashes (isSealed_nil slashStar) (find_codeBefore slashes.line t)
  rw [← rest_lineCuts_slashes] at rest ⊢
  exact rest

/-- **One pass will do.**  With the rule of the C-like languages and no patterns, the passes come to
what one pass leaves of the text before the first line comment.  They have cut something exactly if
that is not the whole line. -/
theorem runPasses_slashes (t : Text) :
    runPasses (Keep.shouldKeep []) slashes .both t =
        some ⟨singlePass slashStar (codeBefore slashes.line t),
          decide (singlePass slashStar (codeBefore slashes.line t) ≠ t)⟩ ∧
      (reduce (Keep.shouldKeep []) slashes .both t).getD (codeBefore slashes.line t) =
        singlePass slashStar (codeBefore slashes.line t) := by
  rw [runPasses_eq, reduce_eq, Cuts.progress, Keep.any_shouldKeep_nil, ← rest_cuts_slashes]
  by_cases uncut : (cuts slashes .both t).comments = []
  · have same := comments_cuts_eq_nil_iff.1 uncut
    -- A line without comments has no line comment to begin with.
    have clear : find slashes.line t = none :=
      isClear_of_comments_cuts uncut slashes.line (by decide)
    have code : codeBefore slashes.line t = t := by simp [codeBefore, clear]
    simp [uncut, same, code]
  · have differs := mt comments_cuts_eq_nil_iff.2 uncut
    simp [uncut, differs]

/-- In markup no line marker keeps the parts of a start marker from meeting over a block. -/
example : (blockCuts angleDash "<<!-- a -->!-- b".toList).rest = [] ∧
    singlePass angleDash "<<!-- a -->!-- b".toList = "<!-- b".toList := by
  decide +kernel

end Slashes

end Strip
end Decomment
