/-!
# Blank characters and trimming

A text is the list of its characters.  A blank is a character with the Unicode property
White_Space; trimming takes blanks, or characters of any given class, from the ends of a text.

**Results.**
* `dropTrailing_append_takeTrailing`: cutting the trailing characters of a class loses nothing.
* `mem_takeTrailing`: what is cut belongs to the class.
* `dropTrailing_append_of_false`: nothing is cut before a character outside the class.
* `trim_eq_nil_iff`: a text trims to nothing exactly when all of it is blank.
* `trim_append_of_blank`: blanks at the end of a text do not matter to trimming.
-/

namespace Decomment

/-- A piece of text, as the list of its characters. -/
abbrev Text := List Char

namespace Text

section Defs

/-- The characters with the Unicode property White_Space. -/
def isBlank (c : Char) : Bool :=
  let n := c.toNat
  (0x09 ≤ n && n ≤ 0x0D) || n == 0x20 || n == 0x85 || n == 0xA0 || n == 0x1680 ||
    (0x2000 ≤ n && n ≤ 0x200A) || n == 0x2028 || n == 0x2029 || n == 0x202F ||
    n == 0x205F || n == 0x3000

/-- The two characters that count as indentation. -/
def isIndent (c : Char) : Bool :=
  c == ' ' || c == '\t'

/-- The text without its longest tail of characters in the class `p`. -/
def dropTrailing (p : Char → Bool) (t : Text) : Text :=
  (t.reverse.dropWhile p).reverse

/-- The longest tail of characters in the class `p`. -/
def takeTrailing (p : Char → Bool) (t : Text) : Text :=
  (t.reverse.takeWhile p).reverse

/-- The text without its leading blanks. -/
def trimStart (t : Text) : Text :=
  t.dropWhile isBlank

/-- The text without its trailing blanks. -/
def trimEnd (t : Text) : Text :=
  dropTrailing isBlank t

/-- The text without the blanks at both ends. -/
def trim (t : Text) : Text :=
  trimEnd (trimStart t)

/-- The indentation that a text starts with. -/
def indentation (t : Text) : Text :=
  t.takeWhile isIndent

end Defs

section Laws

theorem dropTrailing_append_takeTrailing (p : Char → Bool) (t : Text) :
    dropTrailing p t ++ takeTrailing p t = t := by
  rw [dropTrailing, takeTrailing, ← List.reverse_append, List.takeWhile_append_dropWhile,
    List.reverse_reverse]

theorem mem_takeTrailing {p : Char → Bool} {t : Text} {c : Char}
    (h : c ∈ takeTrailing p t) : p c = true := by
  rw [takeTrailing, List.mem_reverse] at h
  exact List.all_eq_true.1 (List.all_takeWhile) c h

theorem dropTrailing_isPrefix (p : Char → Bool) (t : Text) : dropTrailing p t <+: t :=
  ⟨takeTrailing p t, dropTrailing_append_takeTrailing p t⟩

theorem dropTrailing_append_of_all {p : Char → Bool} {w : Text} (t : Text)
    (h : ∀ c ∈ w, p c = true) : dropTrailing p (t ++ w) = dropTrailing p t := by
  rw [dropTrailing, List.reverse_append, List.dropWhile_append_of_pos, dropTrailing]
  simpa only [List.mem_reverse] using h

theorem dropTrailing_append_of_false {p : Char → Bool} {c : Char} (u v : Text)
    (h : p c = false) : dropTrailing p (u ++ c :: v) = u ++ c :: dropTrailing p v := by
  have hc : (c :: u.reverse).dropWhile p = c :: u.reverse := by simp [h]
  rw [dropTrailing, dropTrailing, List.reverse_append, List.reverse_cons, List.append_assoc,
    List.singleton_append, List.dropWhile_append, hc]
  cases v.reverse.dropWhile p <;> simp

theorem dropWhile_eq_nil_iff {p : Char → Bool} : ∀ {t : Text},
    t.dropWhile p = [] ↔ ∀ c ∈ t, p c = true
  | [] => by simp
  | c :: cs => by
      by_cases h : p c = true
      · simp [h, dropWhile_eq_nil_iff]
      · simp [h]

theorem dropTrailing_eq_nil_iff {p : Char → Bool} {t : Text} :
    dropTrailing p t = [] ↔ ∀ c ∈ t, p c = true := by
  rw [dropTrailing, List.reverse_eq_nil_iff, dropWhile_eq_nil_iff]
  simp only [List.mem_reverse]

theorem trim_eq_nil_iff {t : Text} : trim t = [] ↔ ∀ c ∈ t, isBlank c = true := by
  rw [trim, trimEnd, dropTrailing_eq_nil_iff]
  constructor
  · intro h c hc
    rw [← List.takeWhile_append_dropWhile (p := isBlank) (l := t), List.mem_append] at hc
    rcases hc with hc | hc
    · exact List.all_eq_true.1 (List.all_takeWhile) c hc
    · exact h c hc
  · intro h c hc
    exact h c ((List.dropWhile_suffix isBlank).subset hc)

theorem trim_append_of_blank {w : Text} (t : Text) (h : ∀ c ∈ w, isBlank c = true) :
    trim (t ++ w) = trim t := by
  by_cases ht : ∀ c ∈ t, isBlank c = true
  · have hw : ∀ c ∈ t ++ w, isBlank c = true := by
      simp only [List.mem_append]
      exact fun c hc => hc.elim (ht c) (h c)
    rw [trim_eq_nil_iff.2 ht, trim_eq_nil_iff.2 hw]
  · have hd : (t ++ w).dropWhile isBlank = t.dropWhile isBlank ++ w := by
      rw [List.dropWhile_append, if_neg]
      rw [List.isEmpty_iff, dropWhile_eq_nil_iff]
      exact ht
    rw [trim, trimStart, hd, trimEnd, dropTrailing_append_of_all _ h]
    rfl

theorem isBlank_of_isIndent {c : Char} (h : isIndent c = true) : isBlank c = true := by
  simp only [isIndent, Bool.or_eq_true, beq_iff_eq] at h
  rcases h with rfl | rfl <;> decide

theorem isIndent_of_not_isBlank {c : Char} (h : isBlank c = false) : isIndent c = false := by
  cases e : isIndent c with
  | false => rfl
  | true => rw [isBlank_of_isIndent e] at h; cases h

theorem indentation_append_of_false {c : Char} (u v : Text) (h : isIndent c = false) :
    indentation (u ++ c :: v) = indentation u := by
  rw [indentation, List.takeWhile_append]
  split
  · rename_i all
    have whole := (List.takeWhile_prefix isIndent (l := u)).eq_of_length all
    rw [List.takeWhile_cons_of_neg (by simp [h]), List.append_nil, indentation, whole]
  · rfl

/-- The indentation of a text is that of a first part of it that holds more than blanks. -/
theorem indentation_append {u : Text} (h : ¬ ∀ c ∈ u, isBlank c = true) (v : Text) :
    indentation (u ++ v) = indentation u := by
  obtain ⟨c, mem, visible⟩ : ∃ c ∈ u, isBlank c = false := by simpa using h
  obtain ⟨before, rest, rfl⟩ := List.append_of_mem mem
  have indent := isIndent_of_not_isBlank visible
  rw [List.append_assoc, List.cons_append, indentation_append_of_false before _ indent,
    indentation_append_of_false before _ indent]

theorem isIndent_of_mem_indentation {t : Text} {c : Char} (h : c ∈ indentation t) :
    isIndent c = true :=
  List.all_eq_true.1 List.all_takeWhile c h

end Laws

end Text
end Decomment
