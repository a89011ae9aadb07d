import Decomment.Text.Blank

/-!
# Lines

A line ends at a line feed, and a carriage return just before that line feed belongs to the
ending.  A last line without a line feed counts if it is not empty, and keeps its carriage return.

**Results.**
* `lines_append_lf`: text up to a line feed and the text after it split on their own.
* `lines_of_lf_not_mem`: text without a line feed is one line.
* `lf_not_mem_of_mem_lines`: no line holds a line feed.
* `mem_of_mem_lines`: a line holds characters of the text only.
* `lines_unlines_of_lf_not_mem`, `lines_unlines`: lines without line feeds, each written with one,
  are read back, without the carriage return that one may end in.
-/

namespace Decomment
namespace Text

section Defs

/-- The line whose characters, last first, are `cur`, without the carriage return of its ending. -/
def closeLine : Text → Text
  | '\r' :: cur => cur.reverse
  | cur => cur.reverse

/-- Reads on with the lines `done` and the characters `cur` of the present line, both last
first. -/
def linesFrom (done : List Text) (cur : Text) : Text → List Text
  | [] => (if cur.isEmpty then done else cur.reverse :: done).reverse
  | c :: cs =>
      if c = '\n' then linesFrom (closeLine cur :: done) [] cs
      else linesFrom done (c :: cur) cs

/-- The lines of a text, without their endings. -/
def lines (t : Text) : List Text :=
  linesFrom [] [] t

/-- The text in which each of the lines is followed by a line feed. -/
def unlines (ls : List Text) : Text :=
  ls.flatMap (· ++ ['\n'])

/-- The line without one carriage return at its end. -/
def dropCarriageReturn (l : Text) : Text :=
  if l.getLast? = some '\r' then l.dropLast else l

/-- No line holds a character of a line ending. -/
def AreClean (ls : List Text) : Prop :=
  ∀ l ∈ ls, '\n' ∉ l ∧ '\r' ∉ l

end Defs

section Laws

theorem linesFrom_eq (done : List Text) (cur t : Text) :
    linesFrom done cur t = done.reverse ++ linesFrom [] cur t := by
  induction t generalizing done cur with
  | nil =>
      by_cases h : cur.isEmpty <;> simp [linesFrom, h]
  | cons c cs ih =>
      by_cases h : c = '\n'
      · rw [linesFrom, linesFrom, if_pos h, if_pos h, ih, ih [closeLine cur]]
        simp
      · rw [linesFrom, linesFrom, if_neg h, if_neg h, ih]

theorem linesFrom_append_lf (cur l t : Text) (h : '\n' ∉ l) :
    linesFrom [] cur (l ++ '\n' :: t) = closeLine (l.reverse ++ cur) :: lines t := by
  induction l generalizing cur with
  | nil =>
      rw [List.nil_append, linesFrom, if_pos rfl, linesFrom_eq]
      rfl
  | cons c cs ih =>
      have hc : c ≠ '\n' := fun e => h (by simp [e])
      rw [List.cons_append, linesFrom, if_neg hc, ih (c :: cur) (fun e => h (by simp [e]))]
      simp

theorem lines_append_lf (l t : Text) (h : '\n' ∉ l) :
    lines (l ++ '\n' :: t) = closeLine l.reverse :: lines t := by
  simpa [lines] using linesFrom_append_lf [] l t h

theorem linesFrom_of_lf_not_mem (cur t : Text) (h : '\n' ∉ t) (hne : cur ≠ [] ∨ t ≠ []) :
    linesFrom [] cur t = [cur.reverse ++ t] := by
  induction t generalizing cur with
  | nil =>
      have some_letter : cur ≠ [] := hne.resolve_right (fun ne => ne rfl)
      simp [linesFrom, some_letter]
  | cons c cs ih =>
      have hc : c ≠ '\n' := fun e => h (by simp [e])
      rw [linesFrom, if_neg hc, ih (c :: cur) (fun e => h (by simp [e])) (.inl (by simp))]
      simp

/-- A text without a line feed is one line, unless it is empty. -/
theorem lines_of_lf_not_mem {t : Text} (h : '\n' ∉ t) (hne : t ≠ []) : lines t = [t] := by
  rw [lines, linesFrom_of_lf_not_mem [] t h (.inr hne), List.reverse_nil, List.nil_append]

theorem closeLine_reverse (l : Text) : closeLine l.reverse = dropCarriageReturn l := by
  unfold closeLine dropCarriageReturn
  split
  · rename_i cur h
    have e : l = cur.reverse ++ ['\r'] := by
      simpa using congrArg List.reverse h
    simp [e]
  · rename_i h
    have e : l.getLast? ≠ some '\r' := by
      intro e
      rw [← List.head?_reverse] at e
      obtain ⟨cur, hc⟩ := List.head?_eq_some_iff.1 e
      exact h cur hc
    simp [e]

theorem lines_unlines_of_lf_not_mem : ∀ ls : List Text,
    (∀ l ∈ ls, '\n' ∉ l) → lines (unlines ls) = ls.map dropCarriageReturn
  | [], _ => rfl
  | l :: ls, h => by
      have e : unlines (l :: ls) = l ++ '\n' :: unlines ls := by simp [unlines]
      rw [e, lines_append_lf l _ (h l (by simp)), closeLine_reverse, List.map_cons,
        lines_unlines_of_lf_not_mem ls fun m hm => h m (by simp [hm])]

theorem lines_unlines (ls : List Text) (h : ∀ l ∈ ls, '\n' ∉ l ∧ l.getLast? ≠ some '\r') :
    lines (unlines ls) = ls := by
  rw [lines_unlines_of_lf_not_mem ls fun l hl => (h l hl).1]
  refine (List.map_congr_left fun l hl => ?_).trans (List.map_id ls)
  rw [dropCarriageReturn, if_neg (h l hl).2, id]

theorem dropCarriageReturn_isPrefix (l : Text) : dropCarriageReturn l <+: l := by
  unfold dropCarriageReturn
  split
  · exact List.dropLast_prefix l
  · exact List.prefix_refl l

/-- A line is what is left of it with or without a carriage return. -/
theorem eq_dropCarriageReturn_append (l : Text) :
    l = dropCarriageReturn l ∨ l = dropCarriageReturn l ++ ['\r'] := by
  by_cases h : l.getLast? = some '\r'
  · right
    obtain ⟨m, rfl⟩ := List.getLast?_eq_some_iff.1 h
    simp [dropCarriageReturn]
  · left
    rw [dropCarriageReturn, if_neg h]

theorem closeLine_subset (cur : Text) : closeLine cur ⊆ cur := by
  have h : closeLine cur.reverse.reverse <+: cur.reverse := by
    rw [closeLine_reverse]
    exact dropCarriageReturn_isPrefix _
  rw [List.reverse_reverse] at h
  exact fun c hc => List.mem_reverse.1 (h.subset hc)

theorem lf_not_mem_of_mem_linesFrom : ∀ {t cur l : Text}, '\n' ∉ cur →
    l ∈ linesFrom [] cur t → '\n' ∉ l
  | [], cur, l, hcur, hl => by
      by_cases h : cur.isEmpty
      · simp [linesFrom, h] at hl
      · have e : l = cur.reverse := by simpa [linesFrom, h] using hl
        rw [e, List.mem_reverse]
        exact hcur
  | c :: cs, cur, l, hcur, hl => by
      by_cases hc : c = '\n'
      · rw [linesFrom, if_pos hc, linesFrom_eq] at hl
        rcases List.mem_append.1 hl with hl | hl
        · have e : l = closeLine cur := by simpa using hl
          rw [e]
          exact fun h => hcur (closeLine_subset cur h)
        · exact lf_not_mem_of_mem_linesFrom (by simp) hl
      · rw [linesFrom, if_neg hc] at hl
        refine lf_not_mem_of_mem_linesFrom ?_ hl
        rw [List.mem_cons, not_or]
        exact ⟨fun e => hc e.symm, hcur⟩

theorem lf_not_mem_of_mem_lines {t l : Text} (h : l ∈ lines t) : '\n' ∉ l :=
  lf_not_mem_of_mem_linesFrom (by simp) h

theorem mem_of_mem_linesFrom {l : Text} {c : Char} (hc : c ∈ l) : ∀ {t cur : Text},
    l ∈ linesFrom [] cur t → c ∈ cur ∨ c ∈ t
  | [], cur, hl => by
      by_cases h : cur.isEmpty
      · simp [linesFrom, h] at hl
      · have e : l = cur.reverse := by simpa [linesFrom, h] using hl
        left
        rwa [e, List.mem_reverse] at hc
  | d :: cs, cur, hl => by
      by_cases hd : d = '\n'
      · rw [linesFrom, if_pos hd, linesFrom_eq] at hl
        rcases List.mem_append.1 hl with hl | hl
        · have e : l = closeLine cur := by simpa using hl
          left
          exact closeLine_subset cur (e ▸ hc)
        · rcases mem_of_mem_linesFrom hc hl with h | h
          · cases h
          · exact .inr (List.mem_cons_of_mem d h)
      · rw [linesFrom, if_neg hd] at hl
        rcases mem_of_mem_linesFrom hc hl with h | h
        · rcases List.mem_cons.1 h with rfl | h
          · exact .inr List.mem_cons_self
          · exact .inl h
        · exact .inr (List.mem_cons_of_mem d h)

theorem mem_of_mem_lines {t l : Text} {c : Char} (h : l ∈ lines t) (hc : c ∈ l) : c ∈ t :=
  (mem_of_mem_linesFrom hc h).resolve_left (by simp)

theorem dropCarriageReturn_of_not_mem {l : Text} (h : '\r' ∉ l) : dropCarriageReturn l = l := by
  rw [dropCarriageReturn, if_neg fun e => h (List.mem_of_getLast? e)]

theorem map_dropCarriageReturn {ls : List Text} (h : AreClean ls) :
    ls.map dropCarriageReturn = ls :=
  (List.map_congr_left fun l hl => dropCarriageReturn_of_not_mem (h l hl).2).trans (List.map_id ls)

theorem areClean_lines {t : Text} (h : '\r' ∉ t) : AreClean (lines t) :=
  fun _ hl => ⟨lf_not_mem_of_mem_lines hl, fun hc => h (mem_of_mem_lines hl hc)⟩

theorem lines_unlines_of_areClean {ls : List Text} (h : AreClean ls) : lines (unlines ls) = ls :=
  lines_unlines ls fun l hl => ⟨(h l hl).1, fun e => (h l hl).2 (List.mem_of_getLast? e)⟩

end Laws

end Text
end Decomment
