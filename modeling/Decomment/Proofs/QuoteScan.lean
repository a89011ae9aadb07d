import Decomment.Marker

/-!
# What the quote scan finds

The scan for a marker is described by the quote that is open before each offset: a marker stands
at an offset if no quote is open there, the letter there is no quote, and the text goes on with the
marker.  A scan finds the first such offset.

Where no quote is open, the letter before no longer matters.  A scan that starts afresh at such a
place therefore agrees with one that comes from the start of the text.

**Results.**
* `find_eq_some_iff`, `find_eq_none_iff`: a scan finds the first offset at which the marker stands.
* `standsAt_append_right_iff`: after a text that ends outside quotes the scan starts afresh.
* `find_append_of_not_standsAt`: a scan goes on after a text in which the marker does not stand.
* `find_append_of_disjoint`: letters that the marker lacks do not matter at the end of a text.
-/

namespace Decomment
namespace Marker

open QuoteAlphabet

section QuoteFree

variable {α : Type} [QuoteAlphabet α]

def QuoteFree (t : List α) : Prop :=
  ∀ c ∈ t, isQuote c = false

instance (t : List α) : Decidable (QuoteFree t) :=
  inferInstanceAs (Decidable (∀ c ∈ t, isQuote c = false))

end QuoteFree

variable {α : Type} [DecidableEq α] [QuoteAlphabet α]

section Defs

/-- The quote that is open after a text, where `quote` was open and `prev` stood before it. -/
def quoteAfter (quote prev : Option α) : List α → Option α
  | [] => quote
  | c :: cs => quoteAfter (advance quote prev c) (some c) cs

/-- No quoted region is open at the end of the text. -/
def EndsOutside (t : List α) : Prop :=
  quoteAfter none none t = none

/-- The marker stands at offset `k` of the text, where `quote` was open and `prev` stood before
the text. -/
structure StandsFrom (quote prev : Option α) (m t : List α) (k : Nat) : Prop where
  outside : quoteAfter quote prev (t.take k) = none
  unquoted : ∃ c, t[k]? = some c ∧ isQuote c = false
  starts : m <+: t.drop k

abbrev StandsAt (m t : List α) (k : Nat) : Prop :=
  StandsFrom none none m t k

instance (t : List α) : Decidable (EndsOutside t) :=
  inferInstanceAs (Decidable (quoteAfter none none t = none))

end Defs

section State

theorem quoteAfter_append (quote prev : Option α) : ∀ u v : List α,
    quoteAfter quote prev (u ++ v) =
      quoteAfter (quoteAfter quote prev u) (u.getLast?.or prev) v
  | [], v => by simp [quoteAfter]
  | c :: cs, v => by
      have ih := quoteAfter_append (advance quote prev c) (some c) cs v
      rw [List.cons_append, quoteAfter, ih, quoteAfter]
      cases h : cs.getLast? <;> simp [List.getLast?_cons, h]

/-- Where no quote is open, the letter before does not matter. -/
theorem quoteAfter_none (prev : Option α) (t : List α) :
    quoteAfter none prev t = quoteAfter none none t := by
  cases t <;> rfl

theorem quoteAfter_append_of_endsOutside {u : List α} (h : EndsOutside u) (v : List α) :
    quoteAfter none none (u ++ v) = quoteAfter none none v := by
  rw [quoteAfter_append, show quoteAfter none none u = none from h, quoteAfter_none]

theorem endsOutside_append {u v : List α} (hu : EndsOutside u) :
    EndsOutside (u ++ v) ↔ EndsOutside v := by
  rw [EndsOutside, quoteAfter_append_of_endsOutside hu, EndsOutside]

/-- What opens a quoted region is a quote. -/
theorem isQuote_of_advance {quote prev : Option α} {c q : α}
    (hquote : ∀ r, quote = some r → isQuote r = true) (h : advance quote prev c = some q) :
    isQuote q = true := by
  cases quote with
  | none =>
      simp only [advance] at h
      split at h
      · rename_i hc
        rwa [← Option.some.inj h]
      · cases h
  | some p =>
      simp only [advance] at h
      split at h
      · cases h
      · exact hquote q h

theorem isQuote_of_quoteAfter {q : α} : ∀ {t : List α} {quote prev : Option α},
    (∀ r, quote = some r → isQuote r = true) → quoteAfter quote prev t = some q →
      isQuote q = true
  | [], _, _, hquote, h => hquote q h
  | _ :: _, _, _, hquote, h =>
      isQuote_of_quoteAfter (fun _ hr => isQuote_of_advance hquote hr) h

/-- A letter that is no quote opens no quoted region and closes none. -/
theorem advance_of_unquoted {quote prev : Option α} {c : α}
    (hquote : ∀ r, quote = some r → isQuote r = true) (hc : isQuote c = false) :
    advance quote prev c = quote := by
  cases quote with
  | none => simp [advance, hc]
  | some q =>
      have other : c ≠ q := by
        rintro rfl
        rw [hquote c rfl] at hc
        cases hc
      simp [advance, other]

theorem quoteAfter_of_quoteFree : ∀ {t : List α} {quote prev : Option α},
    (∀ r, quote = some r → isQuote r = true) → QuoteFree t → quoteAfter quote prev t = quote
  | [], _, _, _, _ => rfl
  | c :: cs, _, _, hquote, h => by
      rw [quoteAfter, advance_of_unquoted hquote (h c List.mem_cons_self)]
      exact quoteAfter_of_quoteFree hquote fun d hd => h d (List.mem_cons_of_mem c hd)

theorem QuoteFree.endsOutside {t : List α} (h : QuoteFree t) : EndsOutside t :=
  quoteAfter_of_quoteFree (fun _ hr => nomatch hr) h

end State

section First

theorem standsFrom_zero_iff {quote prev : Option α} {m cs : List α} {c : α} :
    StandsFrom quote prev m (c :: cs) 0 ↔
      quote = none ∧ isQuote c = false ∧ m <+: c :: cs := by
  constructor
  · rintro ⟨ho, ⟨d, hd, hq⟩, hs⟩
    obtain rfl : c = d := by simpa using hd
    exact ⟨ho, hq, hs⟩
  · rintro ⟨rfl, hq, hs⟩
    exact ⟨rfl, ⟨c, rfl, hq⟩, hs⟩

theorem standsFrom_succ_iff {quote prev : Option α} {m cs : List α} {c : α} {k : Nat} :
    StandsFrom quote prev m (c :: cs) (k + 1) ↔
      StandsFrom (advance quote prev c) (some c) m cs k := by
  constructor
  · rintro ⟨ho, hq, hs⟩
    exact ⟨ho, hq, hs⟩
  · rintro ⟨ho, hq, hs⟩
    exact ⟨ho, hq, hs⟩

theorem not_standsFrom_nil {quote prev : Option α} {m : List α} {k : Nat} :
    ¬ StandsFrom quote prev m [] k := by
  rintro ⟨-, ⟨c, hc, -⟩, -⟩
  simp at hc

theorem findFrom_eq_some_iff {m : List α} {n i : Nat} : ∀ {t : List α} {quote prev : Option α},
    findFrom m i quote prev t = some n ↔
      ∃ k, n = i + k ∧ StandsFrom quote prev m t k ∧
        ∀ l < k, ¬ StandsFrom quote prev m t l
  | [], quote, prev => by
      simp only [findFrom, reduceCtorEq, false_iff, not_exists, not_and]
      exact fun k _ hk => absurd hk not_standsFrom_nil
  | c :: cs, quote, prev => by
      have here : (quote.isNone && !isQuote c && m.isPrefixOf (c :: cs)) = true ↔
          StandsFrom quote prev m (c :: cs) 0 := by
        rw [standsFrom_zero_iff]
        simp [and_assoc]
      rw [findFrom]
      by_cases h : StandsFrom quote prev m (c :: cs) 0
      · rw [if_pos (here.2 h)]
        constructor
        · intro e
          obtain rfl := Option.some.inj e
          exact ⟨0, rfl, h, by simp⟩
        · rintro ⟨k, rfl, -, hmin⟩
          rcases Nat.eq_zero_or_pos k with rfl | hk
          · rfl
          · exact absurd h (hmin 0 hk)
      · rw [if_neg (fun e => h (here.1 e)), findFrom_eq_some_iff]
        constructor
        · rintro ⟨k, rfl, hk, hmin⟩
          refine ⟨k + 1, by omega, standsFrom_succ_iff.2 hk, ?_⟩
          intro l hl hs
          cases l with
          | zero => exact h hs
          | succ l => exact hmin l (by omega) (standsFrom_succ_iff.1 hs)
        · rintro ⟨k, rfl, hk, hmin⟩
          cases k with
          | zero => exact absurd hk h
          | succ k =>
              refine ⟨k, by omega, standsFrom_succ_iff.1 hk, ?_⟩
              intro l hl hs
              exact hmin (l + 1) (by omega) (standsFrom_succ_iff.2 hs)

/-- A scan finds the first offset at which the marker stands outside quotes. -/
theorem find_eq_some_iff {m t : List α} {n : Nat} (hm : m ≠ []) :
    find m t = some n ↔ StandsAt m t n ∧ ∀ k < n, ¬ StandsAt m t k := by
  rw [find, if_neg (by simpa using hm), findFrom_eq_some_iff]
  simp

theorem find_eq_none_iff {m t : List α} (hm : m ≠ []) :
    find m t = none ↔ ∀ k, ¬ StandsAt m t k := by
  constructor
  · intro h k
    induction k using Nat.strongRecOn with
    | _ k ih =>
        intro hk
        have e := (find_eq_some_iff hm).2 ⟨hk, ih⟩
        rw [h] at e
        cases e
  · intro h
    cases e : find m t with
    | none => rfl
    | some n => exact absurd ((find_eq_some_iff hm).1 e).1 (h n)

theorem ne_nil_of_find {m t : List α} {n : Nat} (h : find m t = some n) : m ≠ [] :=
  List.ne_nil_of_length_pos (pos_of_find h)

theorem standsAt_of_find {m t : List α} {n : Nat} (h : find m t = some n) : StandsAt m t n :=
  ((find_eq_some_iff (ne_nil_of_find h)).1 h).1

theorem not_standsAt_of_find {m t : List α} {n k : Nat} (h : find m t = some n) (hk : k < n) :
    ¬ StandsAt m t k :=
  ((find_eq_some_iff (ne_nil_of_find h)).1 h).2 k hk

theorem find_congr {m t s : List α} (h : ∀ k, StandsAt m t k ↔ StandsAt m s k) :
    find m t = find m s := by
  by_cases hm : m = []
  · simp [hm]
  · refine Option.ext fun n => ?_
    rw [find_eq_some_iff hm, find_eq_some_iff hm]
    simp only [h]

end First

section Parts

variable {m u v t : List α} {k : Nat}

theorem StandsFrom.lt_length {quote prev : Option α} (h : StandsFrom quote prev m t k) :
    k < t.length := by
  obtain ⟨c, hc, -⟩ := h.unquoted
  exact (List.getElem?_eq_some_iff.1 hc).1

theorem StandsFrom.add_length_le {quote prev : Option α} (h : StandsFrom quote prev m t k) :
    k + m.length ≤ t.length := by
  have hl := h.starts.length_le
  have hk := h.lt_length
  rw [List.length_drop] at hl
  omega

theorem StandsFrom.append_left (h : StandsAt m u k) (v : List α) : StandsAt m (u ++ v) k := by
  have hk := h.lt_length
  refine ⟨?_, ?_, ?_⟩
  · rw [List.take_append_of_le_length (Nat.le_of_lt hk)]
    exact h.outside
  · rw [List.getElem?_append_left hk]
    exact h.unquoted
  · rw [List.drop_append_of_le_length (Nat.le_of_lt hk)]
    exact h.starts.trans (List.prefix_append _ _)

/-- A marker that stands at the end of a first part of the text at the latest stands in it. -/
theorem StandsFrom.of_append (h : StandsAt m (u ++ v) k) (hk : k < u.length)
    (hm : k + m.length ≤ u.length) : StandsAt m u k := by
  refine ⟨?_, ?_, ?_⟩
  · have ho := h.outside
    rwa [List.take_append_of_le_length (Nat.le_of_lt hk)] at ho
  · have hq := h.unquoted
    rwa [List.getElem?_append_left hk] at hq
  · have hs := h.starts
    rw [List.drop_append_of_le_length (Nat.le_of_lt hk)] at hs
    refine List.prefix_of_prefix_length_le hs (List.prefix_append _ _) ?_
    rw [List.length_drop]
    omega

theorem standsAt_append_right_iff (hu : EndsOutside u) :
    StandsAt m (u ++ v) (u.length + k) ↔ StandsAt m v k := by
  have ht : (u ++ v).take (u.length + k) = u ++ v.take k := by
    rw [List.take_append, List.take_of_length_le (by omega)]
    simp
  have hd : (u ++ v).drop (u.length + k) = v.drop k := by
    rw [List.drop_append, List.drop_of_length_le (by omega)]
    simp
  have hg : (u ++ v)[u.length + k]? = v[k]? := by
    rw [List.getElem?_append_right (by omega)]
    simp
  constructor
  · rintro ⟨ho, hq, hs⟩
    rw [ht, quoteAfter_append_of_endsOutside hu] at ho
    rw [hg] at hq
    rw [hd] at hs
    exact ⟨ho, hq, hs⟩
  · rintro ⟨ho, hq, hs⟩
    refine ⟨?_, ?_, ?_⟩
    · rw [ht, quoteAfter_append_of_endsOutside hu]
      exact ho
    · rw [hg]
      exact hq
    · rw [hd]
      exact hs

/-- A marker that reaches over a letter of the text has that letter. -/
theorem StandsFrom.mem_of_reaches {c : α} (h : StandsAt m (u ++ c :: v) k) (hk : k ≤ u.length)
    (hm : u.length < k + m.length) : c ∈ m := by
  have hi : u.length - k < m.length := by omega
  have e : ((u ++ c :: v).drop k)[u.length - k]? = some c := by
    rw [List.getElem?_drop, Nat.add_sub_cancel' hk]
    simp
  have hs := h.starts.getElem hi
  rw [List.getElem?_eq_getElem (Nat.lt_of_lt_of_le hi h.starts.length_le)] at e
  have hc : m[u.length - k] = c := hs.trans (Option.some.inj e)
  rw [← hc]
  exact List.getElem_mem hi

/-- Where a marker reaches over the end of `u`, a part of it stands there.  Every marker that this
part starts, if another text follows, stands at the same offset then. -/
theorem StandsFrom.of_reaches {m' w : List α} (h : StandsAt m (u ++ v) k) (before : k < u.length)
    (across : u.length < k + m.length)
    (starts : ∀ l < m.length, 0 < l → m' <+: m.take l ++ w) : StandsAt m' (u ++ w) k := by
  have part : u.drop k = m.take (u.length - k) := by
    have hs := h.starts
    rw [List.drop_append_of_le_length (Nat.le_of_lt before)] at hs
    have ht := List.prefix_iff_eq_take.1
      (List.prefix_of_prefix_length_le (List.prefix_append _ _) hs
        (by rw [List.length_drop]; omega))
    rwa [List.length_drop] at ht
  refine ⟨?_, ?_, ?_⟩
  · have ho := h.outside
    rw [List.take_append_of_le_length (Nat.le_of_lt before)] at ho ⊢
    exact ho
  · have hq := h.unquoted
    rw [List.getElem?_append_left before] at hq ⊢
    exact hq
  · rw [List.drop_append_of_le_length (Nat.le_of_lt before), part]
    exact starts (u.length - k) (by omega) (by omega)

theorem find_eq_none_of_append (h : find m (u ++ v) = none) : find m u = none := by
  by_cases hm : m = []
  · simp [hm]
  · rw [find_eq_none_iff hm] at h ⊢
    exact fun k hk => h k (hk.append_left v)

theorem find_eq_none_of_append_right (hu : EndsOutside u) (h : find m (u ++ v) = none) :
    find m v = none := by
  by_cases hm : m = []
  · simp [hm]
  · rw [find_eq_none_iff hm] at h ⊢
    exact fun k hk => h (u.length + k) ((standsAt_append_right_iff hu).2 hk)

theorem find_eq_none_of_isPrefix (h : find m t = none) (hu : u <+: t) : find m u = none := by
  obtain ⟨v, rfl⟩ := hu
  exact find_eq_none_of_append h

theorem find_take_of_find {i : Nat} (h : find m t = some i) : find m (t.take i) = none := by
  rw [find_eq_none_iff (ne_nil_of_find h)]
  intro k hk
  have hi := hk.lt_length
  rw [List.length_take] at hi
  have ht := hk.append_left (t.drop i)
  rw [List.take_append_drop] at ht
  exact not_standsAt_of_find h (by omega) ht

theorem endsOutside_take_of_find {i : Nat} (h : find m t = some i) :
    EndsOutside (t.take i) :=
  (standsAt_of_find h).outside

/-- Where a marker is found, the rest of the text starts with it. -/
theorem standsAt_drop_of_find {i : Nat} (h : find m t = some i) : StandsAt m (t.drop i) 0 := by
  have stands := standsAt_of_find h
  refine ⟨rfl, ?_, ?_⟩
  · rw [List.getElem?_drop, Nat.add_zero]
    exact stands.unquoted
  · rw [List.drop_zero]
    exact stands.starts

/-- A scan goes on after a text in which the marker does not stand. -/
theorem find_append_of_not_standsAt (hu : EndsOutside u)
    (h : ∀ k < u.length, ¬ StandsAt m (u ++ v) k) :
    find m (u ++ v) = (find m v).map (u.length + ·) := by
  by_cases hm : m = []
  · simp [hm]
  cases e : find m v with
  | none =>
      rw [Option.map_none, find_eq_none_iff hm]
      intro k hk
      rcases Nat.lt_or_ge k u.length with before | after
      · exact h k before hk
      · obtain ⟨l, rfl⟩ := Nat.exists_eq_add_of_le after
        exact (find_eq_none_iff hm).1 e l ((standsAt_append_right_iff hu).1 hk)
  | some n =>
      obtain ⟨stands, first⟩ := (find_eq_some_iff hm).1 e
      rw [Option.map_some, find_eq_some_iff hm]
      constructor
      · exact (standsAt_append_right_iff hu).2 stands
      · intro k hlt hk
        rcases Nat.lt_or_ge k u.length with before | after
        · exact h k before hk
        · obtain ⟨l, rfl⟩ := Nat.exists_eq_add_of_le after
          exact first l (by omega) ((standsAt_append_right_iff hu).1 hk)

theorem find_append_of_disjoint (h : ∀ c ∈ v, c ∉ m) : find m (u ++ v) = find m u := by
  by_cases hm : m = []
  · simp [hm]
  · refine find_congr fun k => ⟨fun hk => ?_, fun hk => hk.append_left v⟩
    have hpos : 0 < m.length := List.length_pos_iff.2 hm
    have hend : k + m.length ≤ u.length := by
      -- Otherwise the last letter of the marker is one of `v`.
      refine Nat.le_of_not_lt fun hlt => ?_
      have hle := hk.add_length_le
      have hi : m.length - 1 < m.length := by omega
      have hs := hk.starts.getElem hi
      have hmem : m[m.length - 1] ∈ v := by
        rw [hs, List.getElem_drop, List.getElem_append_right (by omega)]
        exact List.getElem_mem _
      exact h _ hmem (List.getElem_mem hi)
    exact hk.of_append (by omega) hend

end Parts

end Marker
end Decomment
