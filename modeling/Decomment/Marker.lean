/-!
# Comment markers outside quotes

A line is scanned for a marker by a naive quote tracker.  Any of the three quotes opens a quoted
region, and the same quote closes it again unless an escape stands directly before it.  A marker
counts only where no region is open, and no marker starts on a quote.

The scan is written for any alphabet that names its quotes and its escape, and there are two of
them: characters, on which lines are edited, and bytes, in which offsets into a line are reported.

**Results.**
* `find_nil`: the empty marker is never found.
* `pos_of_find`: only a marker that is not empty is found.
* `isPrefixOf_drop_of_find`: at a reported offset the marker does stand.
* `add_length_le_of_find`: the marker found lies within the text.
-/

namespace Decomment

/-- An alphabet with quotes, and an escape that keeps a quote from closing. -/
class QuoteAlphabet (α : Type) where
  isQuote : α → Bool
  escape : α

instance : QuoteAlphabet Char where
  isQuote c := c == '\x22' || c == '\x27' || c == '\x60'
  escape := '\\'

instance : QuoteAlphabet UInt8 where
  isQuote b := b == 0x22 || b == 0x27 || b == 0x60
  escape := 0x5C

namespace Marker

open QuoteAlphabet

variable {α : Type} [DecidableEq α] [QuoteAlphabet α]

section Defs

/-- The quote that is open after the letter `c`, where `quote` was open and `prev` stood before
it. -/
def advance (quote prev : Option α) (c : α) : Option α :=
  match quote with
  | none => if isQuote c then some c else none
  | some q => if c = q ∧ prev ≠ some escape then none else some q

/-- Scans on from offset `i`, where `quote` is open and `prev` is the letter before. -/
def findFrom (m : List α) (i : Nat) (quote prev : Option α) : List α → Option Nat
  | [] => none
  | c :: cs =>
      if quote.isNone && !isQuote c && m.isPrefixOf (c :: cs) then some i
      else findFrom m (i + 1) (advance quote prev c) (some c) cs

/-- The offset of the first marker `m` in `t` outside quotes. -/
def find (m t : List α) : Option Nat :=
  if m.isEmpty then none else findFrom m 0 none none t

/-- The marker occurs in the text outside quotes. -/
def occurs (m t : List α) : Bool :=
  (find m t).isSome

/-- The offset of the first marker in a text outside quotes, counted in bytes of UTF-8. -/
def byteOffset (m t : String) : Option Nat :=
  find m.toUTF8.toList t.toUTF8.toList

end Defs

section Laws

@[simp] theorem find_nil (t : List α) : find [] t = none := by
  simp [find]

theorem le_of_findFrom {m : List α} {n i : Nat} : ∀ {t : List α} {quote prev : Option α},
    findFrom m i quote prev t = some n → i ≤ n ∧ m.isPrefixOf (t.drop (n - i)) = true
  | [], _, _, h => by simp [findFrom] at h
  | c :: cs, quote, prev, h => by
      rw [findFrom] at h
      split at h
      · rename_i hc
        obtain rfl := Option.some.inj h
        simp only [Bool.and_eq_true] at hc
        simp [hc.2]
      · have ih := le_of_findFrom (i := i + 1) h
        refine ⟨by omega, ?_⟩
        have e : n - i = (n - (i + 1)) + 1 := by omega
        rw [e, List.drop_succ_cons]
        exact ih.2

theorem pos_of_find {m t : List α} {n : Nat} (h : find m t = some n) : 0 < m.length := by
  cases m with
  | nil => simp at h
  | cons c cs => simp

theorem isPrefixOf_drop_of_find {m t : List α} {n : Nat} (h : find m t = some n) :
    m.isPrefixOf (t.drop n) = true := by
  rw [find] at h
  split at h
  · simp at h
  · exact (le_of_findFrom h).2

theorem add_length_le_of_find {m t : List α} {n : Nat} (h : find m t = some n) :
    n + m.length ≤ t.length := by
  have hp := pos_of_find h
  have hm := (List.isPrefixOf_iff_prefix.1 (isPrefixOf_drop_of_find h)).length_le
  rw [List.length_drop] at hm
  omega

end Laws

end Marker
end Decomment
