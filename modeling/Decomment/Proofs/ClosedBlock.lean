import Decomment.Proofs.StringLiteral
import Decomment.Proofs.TrailingBlanks

/-!
# A block between two pieces of code

A block comment stands between two pieces of code that hold no quote, no slash and no star.  The
line pass comes first, and both passes track quotes through the body of the block.  So the block is
cut out, and the code around it is left, if the body holds no two slashes outside quotes and leaves
no quote open.  Otherwise the end marker is gone or does not count, the block runs to the end of
the line, and the code after it is lost.

A body that starts with a slash closes the block with the star of the start marker.  Such bodies
are left aside.

**Results.**
* `find_stop_block`: where a block ends, if its body does not close it.
* `cuts_block`: what is cut from a line with one closed block.
* `strip_around_block`: what becomes of the line.
-/

namespace Decomment
namespace Marker

section Skipping

variable {α : Type} [DecidableEq α] [QuoteAlphabet α] {m u v t : List α} {k : Nat}

/-- Where a marker stands its letters follow one another. -/
theorem StandsFrom.getElem? {quote prev : Option α} (h : StandsFrom quote prev m t k) {i : Nat}
    {c : α} (hi : m[i]? = some c) : t[k + i]? = some c := by
  obtain ⟨r, hr⟩ := h.starts
  have hlt : i < m.length := (List.getElem?_eq_some_iff.1 hi).1
  rw [← List.getElem?_drop, ← hr, List.getElem?_append_left hlt]
  exact hi

/-- A scan goes on after a text without quotes that lacks the first letter of the marker. -/
theorem find_append_of_not_mem {c : α} (hu : QuoteFree u) (hc : c ∉ u) :
    find (c :: m) (u ++ v) = (find (c :: m) v).map (u.length + ·) := by
  refine find_append_of_not_standsAt hu.endsOutside fun k hk stands => ?_
  have e : (u ++ v)[k + 0]? = some c := stands.getElem? rfl
  rw [Nat.add_zero, List.getElem?_append_left hk] at e
  exact hc (List.mem_of_getElem? e)

/-- A quote that is open before a text without quotes is open all over it. -/
theorem not_standsAt_append_of_not_endsOutside (hu : ¬ EndsOutside u) (hv : QuoteFree v) :
    ¬ StandsAt m (u ++ v) (u.length + k) := by
  intro stands
  obtain ⟨q, hq⟩ := Option.ne_none_iff_exists'.1 hu
  have quote : QuoteAlphabet.isQuote q = true :=
    isQuote_of_quoteAfter (fun r hr => by cases hr) hq
  have escaped : IsEscaped q (v.take k) := by
    intro a b e
    have mem : q ∈ v := List.mem_of_mem_take (e ▸ List.mem_append_right a List.mem_cons_self)
    rw [hv q mem] at quote
    cases quote
  have ho := stands.outside
  rw [List.take_length_add_append, quoteAfter_append, hq, quoteAfter_escaped escaped] at ho
  cases ho

end Skipping

end Marker

namespace Strip

open Marker Decomment.Language

/-- Code in which no comment and no literal can start. -/
def IsBare (t : Text) : Prop :=
  QuoteFree t ∧ '/' ∉ t ∧ '*' ∉ t

instance (t : Text) : Decidable (IsBare t) :=
  inferInstanceAs (Decidable (_ ∧ _ ∧ _))

section Scans

variable {body post : Text}

theorem getElem?_block_tail {k i : Nat} {c : Char}
    (h : (body ++ '*' :: '/' :: post)[k]? = some c) (hk : k = body.length + i) :
    ('*' :: '/' :: post)[i]? = some c := by
  rwa [hk, List.getElem?_append_right (by omega), Nat.add_sub_cancel_left] at h

/-- Two slashes stand in a block where they stand in its body. -/
theorem find_slashes_block (hpost : '/' ∉ post) :
    find ['/', '/'] ('/' :: '*' :: (body ++ '*' :: '/' :: post)) =
      (find ['/', '/'] body).map (2 + ·) := by
  have body_only : find ['/', '/'] (body ++ '*' :: '/' :: post) = find ['/', '/'] body := by
    refine find_congr fun k => ⟨fun hk => ?_, fun hk => hk.append_left _⟩
    have first : (body ++ '*' :: '/' :: post)[k + 0]? = some '/' := hk.getElem? rfl
    have second : (body ++ '*' :: '/' :: post)[k + 1]? = some '/' := hk.getElem? rfl
    have within : k + 2 ≤ body.length := by
      refine Nat.le_of_not_lt fun hlt => ?_
      obtain ⟨i, hi⟩ := Nat.exists_eq_add_of_le (show body.length ≤ k + 1 by omega)
      have letter := getElem?_block_tail second hi
      match i with
      | 0 => simp at letter
      | 1 =>
          have star := getElem?_block_tail (i := 0) first (by omega)
          simp at star
      | i + 2 => exact hpost (List.mem_of_getElem? (by simpa using letter))
    exact hk.of_append (by omega) within
  have start : find ['/', '/'] (['/', '*'] ++ (body ++ '*' :: '/' :: post)) =
      (find ['/', '/'] (body ++ '*' :: '/' :: post)).map (2 + ·) := by
    refine find_append_of_not_standsAt (by decide) fun k hk stands => ?_
    have first := stands.getElem? (i := 0) rfl
    have second := stands.getElem? (i := 1) rfl
    match k, hk with
    | 0, _ => simp at second
    | 1, _ => simp at first
  rw [← body_only]
  exact start

/-- The end of a block is looked for from its start marker on. -/
theorem find_stop_start {t : Text} (ht : t.head? ≠ some '/') :
    find ['*', '/'] ('/' :: '*' :: t) = (find ['*', '/'] t).map (2 + ·) := by
  refine find_append_of_not_standsAt (u := ['/', '*']) (by decide) fun k hk stands => ?_
  have first := stands.getElem? (i := 0) rfl
  have second := stands.getElem? (i := 1) rfl
  match k, hk with
  | 0, _ => simp at first
  | 1, _ =>
      rw [List.head?_eq_getElem?] at ht
      exact ht (by simpa using second)

theorem find_stop_eq_none {t : Text} (h : ¬ ['*', '/'] <:+: t) : find ['*', '/'] t = none := by
  rw [find_eq_none_iff (by simp)]
  intro k hk
  exact h (hk.starts.isInfix.trans (List.drop_suffix k t).isInfix)

/-- The end marker counts if the body of the block leaves no quote open. -/
theorem find_stop_block (hbody : ¬ ['*', '/'] <:+: body) (hpost : QuoteFree post) :
    find ['*', '/'] (body ++ '*' :: '/' :: post) =
      if EndsOutside body then some body.length else none := by
  have before : ∀ k < body.length, ¬ StandsAt ['*', '/'] (body ++ '*' :: '/' :: post) k := by
    intro k hk stands
    rcases Nat.lt_or_ge body.length (k + 2) with across | within
    · have slash : (body ++ '*' :: '/' :: post)[k + 1]? = some '/' := stands.getElem? rfl
      have star := getElem?_block_tail (i := 0) slash (by omega)
      simp at star
    · exact (find_eq_none_iff (by simp)).1 (find_stop_eq_none hbody) k
        (stands.of_append hk within)
  split
  · rename_i closed
    have here : StandsAt ['*', '/'] (body ++ '*' :: '/' :: post) (body.length + 0) := by
      rw [standsAt_append_right_iff closed]
      exact ⟨rfl, ⟨'*', rfl, rfl⟩, ⟨post, rfl⟩⟩
    exact (find_eq_some_iff (by simp)).2 ⟨here, before⟩
  · rename_i opened
    rw [find_eq_none_iff (by simp)]
    intro k hk
    rcases Nat.lt_or_ge k body.length with inside | after
    · exact before k inside hk
    · obtain ⟨l, rfl⟩ := Nat.exists_eq_add_of_le after
      have free : QuoteFree ('*' :: '/' :: post) := by
        intro c hc
        rcases List.mem_cons.1 hc with rfl | hc
        · rfl
        rcases List.mem_cons.1 hc with rfl | hc
        · rfl
        · exact hpost c hc
      exact not_standsAt_append_of_not_endsOutside opened free hk

end Scans

section Cutting

variable {pre body post : Text}

theorem find_start_of_isBare (hpre : IsBare pre) (t : Text) :
    find ['/', '*'] (pre ++ '/' :: '*' :: t) = some pre.length := by
  have here : find ['/', '*'] ('/' :: '*' :: t) = some 0 := by
    simp [find, findFrom, QuoteAlphabet.isQuote]
  rw [find_append_of_not_mem hpre.1 hpre.2.1, here]
  rfl

/-- A block that does not end takes all that follows with it. -/
theorem blockCuts_open (hpre : IsBare pre) {t : Text}
    (ht : find ['*', '/'] ('/' :: '*' :: t) = none) :
    blockCuts slashStar (pre ++ '/' :: '*' :: t) = ⟨['/' :: '*' :: t], pre⟩ := by
  have opened := find_start_of_isBare hpre t
  have drop : (pre ++ '/' :: '*' :: t).drop pre.length = '/' :: '*' :: t := List.drop_left
  rw [blockCuts_of_open (b := slashStar) opened (by rw [drop]; exact ht), drop, List.take_left]

/-- A block that ends is cut out. -/
theorem blockCuts_closed (hpre : IsBare pre) (hpost : IsBare post)
    (hstop : find ['*', '/'] ('/' :: '*' :: (body ++ '*' :: '/' :: post)) =
      some (2 + body.length)) :
    blockCuts slashStar (pre ++ '/' :: '*' :: (body ++ '*' :: '/' :: post)) =
      ⟨['/' :: '*' :: (body ++ ['*', '/'])], pre ++ post⟩ := by
  have opened := find_start_of_isBare hpre (body ++ '*' :: '/' :: post)
  have drop : (pre ++ '/' :: '*' :: (body ++ '*' :: '/' :: post)).drop pre.length =
      '/' :: '*' :: (body ++ '*' :: '/' :: post) := List.drop_left
  have spliced : splice pre.length (pre.length + (2 + body.length) + slashStar.stop.length)
      (pre ++ '/' :: '*' :: (body ++ '*' :: '/' :: post)) = pre ++ post := by
    have e : pre ++ '/' :: '*' :: (body ++ '*' :: '/' :: post) =
        pre ++ ('/' :: '*' :: (body ++ ['*', '/'])) ++ post := by simp
    rw [splice, List.take_left, e, List.drop_left' (by simp [slashStar]; omega)]
  have clear : find slashStar.start (pre ++ post) = none := by
    rw [find_eq_none_iff (by simp [slashStar])]
    intro k hk
    have letter : (pre ++ post)[k + 0]? = some '/' := hk.getElem? rfl
    exact (List.mem_append.1 (List.mem_of_getElem? letter)).elim hpre.2.1 hpost.2.1
  rw [blockCuts_of_closed (b := slashStar) opened (by rw [drop]; exact hstop), spliced,
    blockCuts_of_none clear, drop]
  have e : '/' :: '*' :: (body ++ '*' :: '/' :: post) =
      ('/' :: '*' :: (body ++ ['*', '/'])) ++ post := by simp
  rw [e, List.take_left' (by simp [slashStar]; omega)]

theorem cuts_slashes (t : Text) :
    cuts slashes .both t =
      ⟨(lineCuts slashes t).comments ++ (blockCuts slashStar (lineCuts slashes t).rest).comments,
        (blockCuts slashStar (lineCuts slashes t).rest).rest⟩ := rfl

theorem lineCuts_slashes_of_some {t : Text} {i : Nat} (h : find ['/', '/'] t = some i) :
    lineCuts slashes t = ⟨[t.drop i], t.take i⟩ := by
  have h : find slashes.line t = some i := h
  simp only [lineCuts, h, Option.some_or]

theorem lineCuts_slashes_of_none {t : Text} (h : find ['/', '/'] t = none) :
    lineCuts slashes t = ⟨[], t⟩ := by
  have h : find slashes.line t = none := h
  have halt : find slashes.altLine t = none := find_nil t
  simp only [lineCuts, h, halt, Option.or_none]

/-- What is left of a line with one block: the code around the block if nothing in its body
misleads the scan, and the code before it otherwise. -/
theorem cuts_block (hpre : IsBare pre) (hpost : IsBare post) (hbody : ¬ ['*', '/'] <:+: body)
    (hfirst : body.head? ≠ some '/') :
    ∃ comments, comments ≠ [] ∧
      cuts slashes .both (pre ++ '/' :: '*' :: (body ++ '*' :: '/' :: post)) =
        ⟨comments,
          if EndsOutside body ∧ find ['/', '/'] body = none then pre ++ post else pre⟩ := by
  have slashes_at : find ['/', '/'] (pre ++ '/' :: '*' :: (body ++ '*' :: '/' :: post)) =
      (find ['/', '/'] body).map fun k => pre.length + (2 + k) := by
    rw [find_append_of_not_mem hpre.1 hpre.2.1, find_slashes_block hpost.2.1, Option.map_map]
    rfl
  rw [cuts_slashes]
  cases hline : find ['/', '/'] body with
  | some k =>
      rw [hline, Option.map_some] at slashes_at
      -- The line pass takes the end of the block with it.
      have taken : (pre ++ '/' :: '*' :: (body ++ '*' :: '/' :: post)).take
          (pre.length + (2 + k)) = pre ++ '/' :: '*' :: body.take k := by
        have hk := add_length_le_of_find hline
        rw [List.take_length_add_append, Nat.add_comm 2 k, List.take_succ_cons,
          List.take_succ_cons, List.take_append_of_le_length (by omega)]
      have unclosed : find ['*', '/'] ('/' :: '*' :: body.take k) = none := by
        have head : (body.take k).head? ≠ some '/' := by
          cases body with
          | nil => simp
          | cons c cs => cases k <;> simp_all
        have clear : ¬ ['*', '/'] <:+: body.take k := fun h =>
          hbody (h.trans (List.take_prefix k body).isInfix)
        rw [find_stop_start head, find_stop_eq_none clear, Option.map_none]
      rw [lineCuts_slashes_of_some slashes_at, taken, blockCuts_open hpre unclosed,
        if_neg (by simp)]
      exact ⟨_, List.cons_ne_nil _ _, rfl⟩
  | none =>
      rw [hline, Option.map_none] at slashes_at
      rw [lineCuts_slashes_of_none slashes_at]
      have tail_first : (body ++ '*' :: '/' :: post).head? ≠ some '/' := by
        cases body with
        | nil => simp
        | cons c cs => simpa using hfirst
      by_cases closed : EndsOutside body
      · have stop : find ['*', '/'] ('/' :: '*' :: (body ++ '*' :: '/' :: post)) =
            some (2 + body.length) := by
          rw [find_stop_start tail_first, find_stop_block hbody hpost.1, if_pos closed,
            Option.map_some]
        rw [blockCuts_closed hpre hpost stop, if_pos ⟨closed, rfl⟩]
        exact ⟨_, List.cons_ne_nil _ _, rfl⟩
      · have unclosed : find ['*', '/'] ('/' :: '*' :: (body ++ '*' :: '/' :: post)) = none := by
          rw [find_stop_start tail_first, find_stop_block hbody hpost.1, if_neg closed,
            Option.map_none]
        rw [blockCuts_open hpre unclosed, if_neg fun h => closed h.1]
        exact ⟨_, List.cons_ne_nil _ _, rfl⟩

end Cutting

end Strip

namespace Stripper

open Marker Strip Decomment.Language

/-- **A block between two pieces of code.**  If the body of a block leaves no quote open and holds
no two slashes outside quotes, then the block is cut out and the code around it is left.  Otherwise
the line is stripped as if the block ran to its end. -/
theorem strip_around_block (keepBlank : Bool) (pre body post : Text) (hpre : IsBare pre)
    (hpost : IsBare post) (hcode : ¬ IsBlankText (pre ++ post))
    (hbody : ¬ slashStar.stop <:+: body) (hfirst : body.head? ≠ some '/') :
    strip ⟨slashes, [], ⟨.both, keepBlank⟩⟩
        (pre ++ slashStar.start ++ body ++ slashStar.stop ++ post) =
      if EndsOutside body ∧ find slashes.line body = none then
        .shortened (Text.dropTrailing Text.isIndent (pre ++ post))
      else if IsBlankText pre then
        if keepBlank then .shortened (Text.indentation pre) else .removed
      else .shortened (Text.dropTrailing Text.isIndent pre) := by
  have line : pre ++ slashStar.start ++ body ++ slashStar.stop ++ post =
      pre ++ '/' :: '*' :: (body ++ '*' :: '/' :: post) := by simp [slashStar]
  obtain ⟨comments, some_cut, hcuts⟩ := cuts_block hpre hpost hbody hfirst
  have reduced : reduce (Keep.shouldKeep []) slashes .both
      (pre ++ '/' :: '*' :: (body ++ '*' :: '/' :: post)) =
        some (if EndsOutside body ∧ find ['/', '/'] body = none then pre ++ post else pre) := by
    have none_kept : comments.any (Keep.shouldKeep []) = false := by simp [Keep.shouldKeep]
    rw [reduce_eq, hcuts, none_kept, List.isEmpty_eq_false_iff.2 some_cut]
    rfl
  rw [line]
  change Strip.strip (Keep.shouldKeep []) slashes ⟨.both, keepBlank⟩ _ = _
  rw [strip_of_reduce_eq_some reduced, tidy_eq,
    Text.indentation_append_of_false pre _ rfl]
  change _ = if EndsOutside body ∧ find ['/', '/'] body = none then _ else _
  by_cases clear : EndsOutside body ∧ find ['/', '/'] body = none
  · simp only [if_pos clear, if_neg hcode]
  · simp only [if_neg clear]

/-- Quotes that are closed hide slashes and a start marker in the body; slashes in the open hide the
end marker, and so does an apostrophe. -/
theorem strip_around_block_url :
    strip ⟨slashes, [], {}⟩ "\tf( /* 'http://a' \"/* isn't\" \\ */ b); ".toList =
        .shortened "\tf(  b);".toList ∧
      strip ⟨slashes, [], {}⟩ "f( /* http://a */ b);".toList = .shortened "f(".toList ∧
      strip ⟨slashes, [], {}⟩ "/* isn't */ b);".toList = .removed := by
  refine ⟨?_, ?_, ?_⟩
  · exact (strip_around_block false "\tf( ".toList
      " 'http://a' \"/* isn't\" \\ ".toList " b); ".toList
      (by decide) (by decide) (by decide +kernel) (by decide +kernel) (by decide)).trans
        (by decide +kernel)
  · exact (strip_around_block false "f( ".toList " http://a ".toList " b);".toList
      (by decide) (by decide) (by decide +kernel) (by decide +kernel)
      (by decide)).trans (by decide +kernel)
  · exact (strip_around_block false [] " isn't ".toList " b);".toList
      (by decide) (by decide) (by decide +kernel) (by decide +kernel)
      (by decide)).trans (by decide +kernel)

/-- Slashes in the body, an apostrophe in it or a slash at its start lose the code after the block,
or leave the end of the block as code. -/
theorem closed_block_not_spliced :
    (strip ⟨slashes, [], {}⟩ "a /* http://b */ c".toList = .shortened "a".toList ∧
      strip ⟨slashes, [], {}⟩ "a /* isn't */ c".toList = .shortened "a".toList ∧
      strip ⟨slashes, [], {}⟩ "a /*/ b */ c".toList = .shortened "a  b */ c".toList) ∧
    ¬ ∀ pre body post : Text, IsBare pre → IsBare post → ¬ IsBlankText (pre ++ post) →
      ¬ slashStar.stop <:+: body →
        strip ⟨slashes, [], {}⟩ (pre ++ slashStar.start ++ body ++ slashStar.stop ++ post) =
          .shortened (Text.dropTrailing Text.isIndent (pre ++ post)) := by
  refine ⟨⟨?_, ?_, ?_⟩, fun h => ?_⟩
  · decide +kernel
  · decide +kernel
  · decide +kernel
  · have url := h "a ".toList " http://b ".toList " c".toList (by decide) (by decide)
      (by decide +kernel) (by decide +kernel)
    exact absurd url (by decide +kernel)

end Stripper
end Decomment
