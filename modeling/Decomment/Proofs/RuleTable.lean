import Decomment.Proofs.Residue

/-!
# The rules of the table

What the passes need to know of the markers of a language: none of them holds a quote or a blank,
and all rules are steady but two.  One rule has an alternate line marker, of which a line may hold
comments after its other comments are gone.  The other rule has two dashes for a line marker, and
two dashes meet when a block between them is cut out.

**Results.**
* `rule_eq_iff_of_detect`: which extensions have the two rules that are not steady.
* `isSteady_of_detect`: all others are steady.
-/

namespace Decomment

/-- All markers of a rule. -/
def Rule.markers {α : Type} (rule : Rule α) : List (List α) :=
  rule.line :: rule.altLine :: rule.block.toList.flatMap fun b => [b.start, b.stop]

def BlankFree (t : Text) : Prop :=
  ∀ c ∈ t, Text.isBlank c = false

instance (t : Text) : Decidable (BlankFree t) :=
  List.decidableBAll (fun c => Text.isBlank c = false) t

namespace Language

open Marker Strip

theorem blankFree_of_mem_markers : ∀ rule ∈ rules, ∀ m ∈ rule.markers, BlankFree m := by
  decide

theorem quoteFree_of_mem_markers : ∀ rule ∈ rules, ∀ m ∈ rule.markers, QuoteFree m := by
  decide

theorem mem_markers_of_mem_openers {α : Type} {rule : Rule α} {mode : Mode} {m : List α}
    (h : m ∈ openers rule mode) : m ∈ rule.markers := by
  rcases mem_openers_iff.1 h with ⟨-, rfl | rfl⟩ | ⟨-, b, hb, rfl⟩
  · simp [Rule.markers]
  · simp [Rule.markers]
  · have hb : rule.block = some b := hb
    simp [Rule.markers, hb]

section Extensions

theorem rule_eq_iff_of_mem_table : ∀ e ∈ table,
    (e.2.1 = hashOrSemicolon ↔ e.1 = "ini") ∧ (e.2.1 = dashesAndBlocks ↔ e.1 = "sql") := by
  decide

theorem mem_table_of_detect {ext : String} {rule : Rule Char} (h : detect ext = .ok rule) :
    ∃ name, (normalize ext, rule, name) ∈ table := by
  simp only [detect] at h
  split at h
  · cases h
  · split at h
    · rename_i r n e
      cases h
      exact ⟨n, Keyed.mem_of_lookup e⟩
    · cases h

theorem rule_eq_iff_of_detect {ext : String} {rule : Rule Char} (h : detect ext = .ok rule) :
    (rule = hashOrSemicolon ↔ normalize ext = "ini") ∧
      (rule = dashesAndBlocks ↔ normalize ext = "sql") := by
  obtain ⟨name, hmem⟩ := mem_table_of_detect h
  exact rule_eq_iff_of_mem_table _ hmem

end Extensions

section Steady

/-- The alternate marker of a rule, and a block start that does not complete the line marker, are
all that keeps a rule from being steady. -/
theorem isSteady_of_mem_rules {rule : Rule Char} {mode : Mode} (h : rule ∈ rules)
    (hini : rule = hashOrSemicolon → mode = .blockOnly)
    (hsql : rule = dashesAndBlocks → mode ≠ .both) : IsSteady rule mode := by
  have single : ∀ rule ∈ rules, rule ≠ hashOrSemicolon → rule.altLine = [] := by decide
  have complete : ∀ rule ∈ rules, rule ≠ dashesAndBlocks → ∀ b ∈ rule.block,
      QuoteFree b.stop ∧ IsCompletedBy rule.line b.start := by decide
  constructor
  · intro hmode
    exact single rule h fun e => hmode (hini e)
  · intro hmode
    exact complete rule h fun e => hsql e hmode

theorem isSteady_of_detect {ext : String} {rule : Rule Char} {mode : Mode}
    (h : detect ext = .ok rule) (hini : normalize ext = "ini" → mode = .blockOnly)
    (hsql : normalize ext = "sql" → mode ≠ .both) : IsSteady rule mode := by
  obtain ⟨ini, sql⟩ := rule_eq_iff_of_detect h
  exact isSteady_of_mem_rules (mem_rules_of_detect h) (fun e => hini (ini.1 e))
    fun e => hsql (sql.1 e)

end Steady

end Language
end Decomment
