import Decomment.Proofs.RuleTable

/-!
# String literals

A literal starts with a quote where no quote is open, and ends with the same quote.  In its body
the quote stands only after an escape.  The scan is inside quotes throughout the body, whatever
else the body holds.  So if no comment starts before the literal, none starts before its end.  That
goes for the whole line even if the last quote is escaped too and the scan goes on inside quotes.

**Results.**
* `quoteAfter_escaped`: the quote stays open throughout the body.
* `length_le_of_find`: a marker is found after the literal only.
* `prefix_output_strip`: the text up to the end of the literal is written as it is.
-/

namespace Decomment
namespace Marker

open QuoteAlphabet

section Scan

variable {α : Type} [DecidableEq α] [QuoteAlphabet α]

/-- In the text the letter `q` stands only directly after an escape. -/
def IsEscaped (q : α) (t : List α) : Prop :=
  ∀ u v, t = u ++ q :: v → u.getLast? = some escape

omit [DecidableEq α] in
theorem IsEscaped.take {q : α} {t : List α} (h : IsEscaped q t) (k : Nat) :
    IsEscaped q (t.take k) := by
  intro u v e
  refine h u (v ++ t.drop k) ?_
  rw [← List.cons_append, ← List.append_assoc, ← e, List.take_append_drop]

/-- A quote stays open over a text in which it stands only after an escape, the letter before the
text counted. -/
theorem quoteAfter_of_escaped {q : α} : ∀ {t : List α} {prev : Option α},
    (∀ u v, t = u ++ q :: v → u.getLast?.or prev = some escape) →
      quoteAfter (some q) prev t = some q
  | [], _, _ => rfl
  | c :: cs, prev, h => by
      have stays : advance (some q) prev c = some q := by
        unfold advance
        by_cases hc : c = q
        · have hprev : prev = some escape := by
            simpa using h [] cs (by rw [hc, List.nil_append])
          simp [hprev]
        · simp [hc]
      rw [quoteAfter, stays]
      refine quoteAfter_of_escaped fun u v e => ?_
      have hu := h (c :: u) v (by rw [e, List.cons_append])
      rw [List.getLast?_cons] at hu
      cases hl : u.getLast? <;> simpa [hl] using hu

theorem quoteAfter_escaped {q : α} {body : List α} (h : IsEscaped q body) (prev : Option α) :
    quoteAfter (some q) prev body = some q :=
  quoteAfter_of_escaped fun u v e => by rw [h u v e, Option.some_or]

variable {pre body post m : List α} {q : α}

/-- After the opening quote the scan is inside quotes, anywhere in the body. -/
theorem quoteAfter_open (hpre : EndsOutside pre) (hq : isQuote q = true)
    (hbody : IsEscaped q body) : quoteAfter none none (pre ++ q :: body) = some q := by
  rw [quoteAfter_append_of_endsOutside hpre, quoteAfter, advance, if_pos hq]
  exact quoteAfter_escaped hbody _

theorem length_le_of_find {i : Nat} (hm : QuoteFree m) (hclear : find m pre = none)
    (hpre : EndsOutside pre) (hq : isQuote q = true) (hbody : IsEscaped q body)
    (h : find m (pre ++ q :: (body ++ [q]) ++ post) = some i) :
    (pre ++ q :: (body ++ [q])).length ≤ i := by
  have e : pre ++ q :: (body ++ [q]) ++ post = pre ++ q :: (body ++ q :: post) := by simp
  rw [e] at h
  have stands := standsAt_of_find h
  refine Nat.le_of_not_lt fun hlt => ?_
  rcases Nat.lt_trichotomy i pre.length with before | here | inside
  · rcases Nat.lt_or_ge pre.length (i + m.length) with reaches | within
    · have hmem : q ∈ m := stands.mem_of_reaches (Nat.le_of_lt before) reaches
      rw [hm q hmem] at hq
      cases hq
    · exact (find_eq_none_iff (ne_nil_of_find h)).1 hclear i (stands.of_append before within)
  · obtain ⟨c, hc, hnot⟩ := stands.unquoted
    obtain rfl : q = c := by simpa [here] using hc
    rw [hq] at hnot
    cases hnot
  · -- The offset lies in the body or on the closing quote, where the quote is still open.
    obtain ⟨k, rfl⟩ := Nat.exists_eq_add_of_lt inside
    have hk : k ≤ body.length := by
      simp only [List.length_append, List.length_cons, List.length_nil] at hlt
      omega
    have taken : (pre ++ q :: (body ++ q :: post)).take (pre.length + k + 1) =
        pre ++ q :: body.take k := by
      rw [List.take_append, List.take_of_length_le (by omega), Nat.add_assoc,
        Nat.add_sub_cancel_left, List.take_succ_cons, List.take_append_of_le_length hk]
    have ho := stands.outside
    rw [taken, quoteAfter_open hpre hq (hbody.take k)] at ho
    cases ho

end Scan

end Marker

namespace Stripper

open Marker Strip Decomment.Language

/-- **Literals are written as they are.**  If no comment that the mode asks for starts before a
literal, then the line is not removed, and what is written for it starts with all of the line up to
the end of the literal. -/
theorem prefix_output_strip {ext : String} {rule : Rule Char} (h : detect ext = .ok rule)
    (patterns : List Text) (options : Removal) {pre body : Text} {q : Char}
    (hq : q = '\x22' ∨ q = '\x27' ∨ q = '\x60') (hpre : EndsOutside pre)
    (hclear : IsClear rule options.mode pre) (hbody : IsEscaped q body) (post : Text) :
    ∃ s, (strip ⟨rule, patterns, options⟩ (pre ++ q :: (body ++ [q]) ++ post)).output
        (pre ++ q :: (body ++ [q]) ++ post) = some s ∧ pre ++ q :: (body ++ [q]) <+: s := by
  have quote : QuoteAlphabet.isQuote q = true := by
    rcases hq with rfl | rfl | rfl <;> rfl
  have not_blank : Text.isBlank q = false := by
    rcases hq with rfl | rfl | rfl <;> decide
  change ∃ s, (Strip.strip (Keep.shouldKeep patterns) rule options _).output _ = some s ∧ _
  cases hr : reduce (Keep.shouldKeep patterns) rule options.mode
      (pre ++ q :: (body ++ [q]) ++ post) with
  | none =>
      rw [strip_of_reduce_eq_none hr]
      exact ⟨_, rfl, List.prefix_append _ _⟩
  | some rest =>
      have kept : pre ++ q :: (body ++ [q]) <+: rest := by
        rw [eq_rest_of_reduce_eq_some hr]
        refine prefix_rest_cuts ?_ (List.prefix_append _ _)
        rintro m hm s i ⟨tail, rfl⟩ hi
        have hfree := quoteFree_of_mem_markers rule (mem_rules_of_detect h) m
          (mem_markers_of_mem_openers hm)
        exact length_le_of_find hfree (hclear m hm) hpre quote hbody hi
      obtain ⟨tail, rfl⟩ := kept
      have e : pre ++ q :: (body ++ [q]) ++ tail = (pre ++ q :: body) ++ q :: tail := by simp
      rw [strip_of_reduce_eq_some hr, e, tidy_append_of_not_isBlank _ _ _ _ not_blank]
      refine ⟨_, rfl, ⟨Text.dropTrailing Text.isIndent tail, ?_⟩⟩
      simp

/-- Markers and an escaped quote in a literal do not matter. -/
theorem prefix_output_strip_url :
    ∃ s, (strip ⟨slashes, [], {}⟩ "f(\"//\\\"/*\"); // g".toList).output
        "f(\"//\\\"/*\"); // g".toList = some s ∧ "f(\"//\\\"/*\"".toList <+: s := by
  have body : IsEscaped '\x22' "//\\\"/*".toList := by
    intro u v e
    rcases u with _ | ⟨a, _ | ⟨b, _ | ⟨c, _ | ⟨d, _ | ⟨d', _ | ⟨d'', u⟩⟩⟩⟩⟩⟩ <;> simp at e
    obtain ⟨-, -, rfl, -⟩ := e
    rfl
  exact prefix_output_strip (show detect "js" = .ok slashes from rfl) [] {} (.inl rfl)
    (show EndsOutside "f(".toList by decide) (by decide) body "); // g".toList

end Stripper
end Decomment
