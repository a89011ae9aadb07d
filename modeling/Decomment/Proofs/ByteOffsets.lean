import Decomment.Proofs.QuoteScan
import Decomment.Text.Blank

/-!
# Offsets in bytes

A text is also scanned byte by byte.  In UTF-8 the first byte of a character is told from its other
bytes, so that a marker, which starts with such a byte, can only stand where a character starts.
Quotes and the escape are bytes of their own, which occur in no other character, so that the same
quotes are open for both scans.

**Results.**
* `bytes_isPrefix_iff`: the bytes of a text start with the bytes of its first parts only.
* `isBoundary_bytes_iff`, `isBoundary_toUTF8_iff`: the offsets at which a text can be divided.
* `Alike.quoteAfter_bytes`: the same quote is open after a text for both scans.
* `find_bytes`, `byteOffset_eq`: both scans find a marker at the same place.
* `isBoundary_of_byteOffset`: a marker that is found stands between two boundaries.
-/

namespace Decomment

namespace Text

section Defs

/-- The bytes of a text in UTF-8. -/
def bytes (t : Text) : List UInt8 :=
  t.flatMap String.utf8EncodeChar

/-- The offset is the end of the bytes, or a character starts there. -/
def isBoundary (bs : List UInt8) (k : Nat) : Bool :=
  k == bs.length || bs[k]?.any fun b => decide b.IsUTF8FirstByte

end Defs

section Bytes

@[simp] theorem bytes_nil : bytes [] = [] := rfl

@[simp] theorem bytes_cons (c : Char) (cs : Text) :
    bytes (c :: cs) = String.utf8EncodeChar c ++ bytes cs :=
  List.flatMap_cons

@[simp] theorem bytes_append (u v : Text) : bytes (u ++ v) = bytes u ++ bytes v :=
  List.flatMap_append

theorem bytes_take_append_drop (n : Nat) (t : Text) :
    bytes (t.take n) ++ bytes (t.drop n) = bytes t := by
  rw [← bytes_append, List.take_append_drop]

theorem take_bytes (n : Nat) (t : Text) :
    (bytes t).take (bytes (t.take n)).length = bytes (t.take n) := by
  rw [← bytes_take_append_drop n t, List.take_left]

theorem drop_bytes (n : Nat) (t : Text) :
    (bytes t).drop (bytes (t.take n)).length = bytes (t.drop n) := by
  rw [← bytes_take_append_drop n t, List.drop_left]

theorem bytes_eq_nil_iff {t : Text} : bytes t = [] ↔ t = [] := by
  cases t with
  | nil => simp
  | cons c cs => simp [String.utf8EncodeChar_ne_nil]

/-- The bytes that are still to be read are put after those that were read, last first. -/
theorem toList_loop_eq (b : ByteArray) (left : Nat) : ∀ {i : Nat} {done : List UInt8},
    b.size = i + left → ByteArray.toList.loop b i done = done.reverse ++ b.data.toList.drop i := by
  induction left with
  | zero =>
      intro i done size
      have all_read : b.data.toList.length ≤ i := by
        change b.size ≤ i
        omega
      rw [ByteArray.toList.loop, if_neg (by omega), List.drop_of_length_le all_read,
        List.append_nil]
  | succ left ih =>
      intro i done size
      have inside : i < b.data.toList.length := by
        change i < b.size
        omega
      have next : b.get! i = b.data.toList[i] := getElem!_pos b.data i inside
      rw [ByteArray.toList.loop, if_pos (by omega), ih (by omega),
        List.drop_eq_getElem_cons inside, List.reverse_cons, next, List.append_assoc]
      rfl

theorem toList_eq_data (b : ByteArray) : b.toList = b.data.toList := by
  rw [ByteArray.toList, toList_loop_eq b b.size (Nat.zero_add _).symm]
  rfl

/-- The bytes of a string are those of its characters. -/
theorem toList_toUTF8 (s : String) : s.toUTF8.toList = bytes s.toList := by
  have encoded : s.toUTF8 = (bytes s.toList).toByteArray := String.utf8Encode_toList.symm
  rw [toList_eq_data, encoded, List.toList_data_toByteArray]

theorem length_bytes (s : String) : (bytes s.toList).length = s.utf8ByteSize := by
  rw [← toList_toUTF8, toList_eq_data]
  rfl

theorem length_toUTF8 (s : String) : s.toUTF8.toList.length = s.utf8ByteSize := by
  rw [toList_toUTF8, length_bytes]

theorem toUTF8_append (u v : String) :
    (u ++ v).toUTF8.toList = u.toUTF8.toList ++ v.toUTF8.toList := by
  rw [toList_toUTF8, toList_toUTF8, toList_toUTF8, String.toList_append, bytes_append]

theorem toUTF8_eq_nil_iff {s : String} : s.toUTF8.toList = [] ↔ s = "" := by
  rw [toList_toUTF8, bytes_eq_nil_iff, String.toList_eq_nil_iff]

/-- UTF-8 is a prefix code: the bytes of a text start with those of its first parts only. -/
theorem bytes_isPrefix_iff {m t : Text} : bytes m <+: bytes t ↔ m <+: t := by
  constructor
  · rintro ⟨rest, e⟩
    refine List.isPrefix_of_utf8Encode_append_eq_utf8Encode rest.toByteArray ?_
    have joined := congrArg List.toByteArray e
    rwa [List.toByteArray_append] at joined
  · rintro ⟨v, rfl⟩
    exact ⟨bytes v, (bytes_append m v).symm⟩

theorem length_utf8EncodeChar_pos (c : Char) : 0 < (String.utf8EncodeChar c).length := by
  rw [String.length_utf8EncodeChar]
  exact c.utf8Size_pos

/-- Of the bytes of one character, only the first one is told to be first. -/
theorem isBoundary_bytes_cons_of_lt {c : Char} {cs : Text} {k : Nat}
    (h : k < (String.utf8EncodeChar c).length) :
    isBoundary (bytes (c :: cs)) k = true ↔ k = 0 := by
  have short : k ≠ (bytes (c :: cs)).length := by
    rw [bytes_cons, List.length_append]
    omega
  rw [isBoundary, beq_eq_false_iff_ne.2 short, Bool.false_or, bytes_cons,
    List.getElem?_append_left h, List.getElem?_eq_getElem h, Option.any_some,
    decide_eq_true_iff, UInt8.isUTF8FirstByte_getElem_utf8EncodeChar]

theorem isBoundary_bytes_cons_add (c : Char) (cs : Text) (k : Nat) :
    isBoundary (bytes (c :: cs)) ((String.utf8EncodeChar c).length + k) =
      isBoundary (bytes cs) k := by
  rw [isBoundary, isBoundary, bytes_cons, List.getElem?_append_right (Nat.le_add_right _ _),
    List.length_append, Nat.add_sub_cancel_left]
  congr 1
  rw [Bool.eq_iff_iff, beq_iff_eq, beq_iff_eq]
  omega

/-- A character starts where the bytes of a text can be divided. -/
theorem isBoundary_bytes_iff : ∀ {t : Text} {k : Nat},
    isBoundary (bytes t) k = true ↔ ∃ u v, t = u ++ v ∧ k = (bytes u).length
  | [], k => by
      simp [isBoundary]
  | c :: cs, k => by
      have some_byte := length_utf8EncodeChar_pos c
      rcases Nat.lt_or_ge k (String.utf8EncodeChar c).length with inside | after
      · rw [isBoundary_bytes_cons_of_lt inside]
        constructor
        · rintro rfl
          exact ⟨[], c :: cs, rfl, rfl⟩
        · rintro ⟨u, v, e, rfl⟩
          cases u with
          | nil => rfl
          | cons d ds =>
              obtain ⟨rfl, -⟩ := List.cons.inj e
              rw [bytes_cons, List.length_append] at inside
              omega
      · obtain ⟨l, rfl⟩ := Nat.exists_eq_add_of_le after
        rw [isBoundary_bytes_cons_add, isBoundary_bytes_iff]
        constructor
        · rintro ⟨u, v, rfl, rfl⟩
          exact ⟨c :: u, v, rfl, by rw [bytes_cons, List.length_append]⟩
        · rintro ⟨u, v, e, hk⟩
          cases u with
          | nil =>
              rw [bytes_nil, List.length_nil] at hk
              omega
          | cons d ds =>
              obtain ⟨rfl, rfl⟩ := List.cons.inj e
              rw [bytes_cons, List.length_append] at hk
              exact ⟨ds, v, rfl, by omega⟩

/-- The boundaries of a string are its positions. -/
theorem isBoundary_toUTF8_iff {s : String} {k : Nat} :
    isBoundary s.toUTF8.toList k = true ↔ (⟨k⟩ : String.Pos.Raw).IsValid s := by
  rw [toList_toUTF8, isBoundary_bytes_iff, String.Pos.Raw.isValid_iff_exists_append]
  constructor
  · rintro ⟨u, v, e, rfl⟩
    refine ⟨String.ofList u, String.ofList v, ?_, ?_⟩
    · rw [← String.ofList_append, ← e, String.ofList_toList]
    · have size := length_bytes (String.ofList u)
      rw [String.toList_ofList] at size
      rw [size]
      rfl
  · rintro ⟨u, v, rfl, hk⟩
    refine ⟨u.toList, v.toList, String.toList_append, ?_⟩
    rw [length_bytes]
    exact congrArg String.Pos.Raw.byteIdx hk

end Bytes

section Letters

open QuoteAlphabet

/-- A character of ASCII is one byte, and all bytes of other characters are larger. -/
theorem utf8EncodeChar_cases (c : Char) :
    (c.toNat < 128 ∧ String.utf8EncodeChar c = [c.toUInt8]) ∨
      (128 ≤ c.toNat ∧ ∀ b ∈ String.utf8EncodeChar c, 128 ≤ b.toNat) := by
  have above (x y : UInt8) (hy : 128 ≤ y.toNat) : 128 ≤ (x ||| y).toNat := by
    rw [UInt8.toNat_or]
    exact Nat.le_trans hy Nat.right_le_or
  rcases Char.utf8Size_eq c with h | h | h | h
  · exact .inl ⟨Nat.lt_succ_of_le (UInt32.le_iff_toNat_le.1 (Char.utf8Size_eq_one_iff.1 h)),
      String.utf8EncodeChar_eq_singleton h⟩
  · refine .inr ⟨UInt32.lt_iff_toNat_lt.1 (Char.utf8Size_eq_two_iff.1 h).1, fun b hb => ?_⟩
    simp only [String.utf8EncodeChar_eq_cons_cons h, List.mem_cons, List.not_mem_nil,
      or_false] at hb
    rcases hb with rfl | rfl <;> exact above _ _ (by decide)
  · have wide := UInt32.lt_iff_toNat_lt.1 (Char.utf8Size_eq_three_iff.1 h).1
    refine .inr ⟨Nat.le_trans (by decide) wide, fun b hb => ?_⟩
    simp only [String.utf8EncodeChar_eq_cons_cons_cons h, List.mem_cons, List.not_mem_nil,
      or_false] at hb
    rcases hb with rfl | rfl | rfl <;> exact above _ _ (by decide)
  · have wide := UInt32.lt_iff_toNat_lt.1 (Char.utf8Size_eq_four_iff.1 h)
    refine .inr ⟨Nat.le_trans (by decide) wide, fun b hb => ?_⟩
    simp only [String.utf8EncodeChar_eq_cons_cons_cons_cons h, List.mem_cons, List.not_mem_nil,
      or_false] at hb
    rcases hb with rfl | rfl | rfl | rfl <;> exact above _ _ (by decide)

theorem toUInt8_inj {c d : Char} (hc : c.toNat < 128) (hd : d.toNat < 128) :
    c.toUInt8 = d.toUInt8 ↔ c = d := by
  have toNat (e : Char) (he : e.toNat < 128) : e.toUInt8.toNat = e.toNat :=
    (UInt32.toNat_toUInt8 e.val).trans (Nat.mod_eq_of_lt (Nat.lt_trans he (by decide)))
  constructor
  · intro same
    refine Char.toNat_inj.1 ?_
    rw [← toNat c hc, ← toNat d hd, same]
  · rintro rfl
    rfl

theorem isQuote_toUInt8 {c : Char} (hc : c.toNat < 128) : isQuote c.toUInt8 = isQuote c := by
  have same (d : Char) (hd : d.toNat < 128) : (c.toUInt8 == d.toUInt8) = (c == d) := by
    rw [Bool.eq_iff_iff, beq_iff_eq, beq_iff_eq, toUInt8_inj hc hd]
  calc isQuote c.toUInt8
      = (c.toUInt8 == '\x22'.toUInt8 || c.toUInt8 == '\x27'.toUInt8 ||
          c.toUInt8 == '\x60'.toUInt8) := rfl
    _ = isQuote c := by
        rw [same _ (by decide), same _ (by decide), same _ (by decide)]
        rfl

theorem lt_of_isQuote {c : Char} (h : isQuote c = true) : c.toNat < 128 := by
  have quotes : c = '\x22' ∨ c = '\x27' ∨ c = '\x60' := by
    simpa [isQuote, or_assoc] using h
  rcases quotes with rfl | rfl | rfl <;> decide

theorem isQuote_of_large {c : Char} (h : 128 ≤ c.toNat) : isQuote c = false :=
  Bool.eq_false_iff.2 fun quote => Nat.not_lt.2 h (lt_of_isQuote quote)

theorem isQuote_of_le {b : UInt8} (h : 128 ≤ b.toNat) : isQuote b = false := by
  refine Bool.eq_false_iff.2 fun quote => ?_
  have quotes : b = 0x22 ∨ b = 0x27 ∨ b = 0x60 := by
    simpa [isQuote, or_assoc] using quote
  rcases quotes with rfl | rfl | rfl <;> exact absurd h (by decide)

/-- The last byte of a character is the escape only if the character is. -/
theorem getLast?_utf8EncodeChar_eq_iff {c : Char} :
    (String.utf8EncodeChar c).getLast? = some escape ↔ c = escape := by
  rcases utf8EncodeChar_cases c with ⟨small, e⟩ | ⟨large, wide⟩
  · rw [e, List.getLast?_singleton, Option.some_inj]
    exact toUInt8_inj (d := '\\') small (by decide)
  · constructor
    · intro he
      exact absurd (wide _ (List.mem_of_getLast? he)) (by decide)
    · rintro rfl
      exact absurd large (by decide)

end Letters

end Text

namespace Marker

open QuoteAlphabet Text

section Quotes

/-- A scan over bytes stands where a scan over characters does: the same quote is open, and the
letter before is an escape in both or in neither. -/
structure Alike (quote prev : Option Char) (byteQuote bytePrev : Option UInt8) : Prop where
  quote_eq : byteQuote = quote.map Char.toUInt8
  isQuote_of_open : ∀ q, quote = some q → isQuote q = true
  escape_iff : bytePrev = some escape ↔ prev = some escape

variable {quote prev : Option Char} {byteQuote bytePrev : Option UInt8}

theorem Alike.isQuote_of_byte (h : Alike quote prev byteQuote bytePrev) :
    ∀ b, byteQuote = some b → isQuote b = true := by
  intro b hb
  rw [h.quote_eq] at hb
  obtain ⟨q, hq, rfl⟩ := Option.map_eq_some_iff.1 hb
  have quote := h.isQuote_of_open q hq
  rwa [isQuote_toUInt8 (lt_of_isQuote quote)]

/-- Both scans read a character of ASCII alike. -/
theorem Alike.advance_toUInt8 (h : Alike quote prev byteQuote bytePrev) {c : Char}
    (small : c.toNat < 128) :
    advance byteQuote bytePrev c.toUInt8 = (advance quote prev c).map Char.toUInt8 := by
  rw [h.quote_eq]
  cases hq : quote with
  | none =>
      simp only [advance, Option.map_none, isQuote_toUInt8 small]
      split <;> rfl
  | some q =>
      have same := toUInt8_inj small (lt_of_isQuote (h.isQuote_of_open q hq))
      simp only [advance, Option.map_some, same, ne_eq, h.escape_iff]
      split <;> rfl

/-- The bytes of a character open and close what the character does. -/
theorem Alike.quoteAfter_utf8EncodeChar (h : Alike quote prev byteQuote bytePrev) (c : Char) :
    quoteAfter byteQuote bytePrev (String.utf8EncodeChar c) =
      (advance quote prev c).map Char.toUInt8 := by
  rcases utf8EncodeChar_cases c with ⟨small, e⟩ | ⟨large, wide⟩
  · rw [e]
    exact h.advance_toUInt8 small
  · have free : QuoteFree (String.utf8EncodeChar c) := fun b hb => isQuote_of_le (wide b hb)
    rw [quoteAfter_of_quoteFree h.isQuote_of_byte free,
      advance_of_unquoted h.isQuote_of_open (isQuote_of_large large), h.quote_eq]

/-- The two scans stay alike over the bytes of one character. -/
theorem Alike.step (h : Alike quote prev byteQuote bytePrev) (c : Char) :
    Alike (advance quote prev c) (some c)
      (quoteAfter byteQuote bytePrev (String.utf8EncodeChar c))
      ((String.utf8EncodeChar c).getLast?.or bytePrev) := by
  refine ⟨h.quoteAfter_utf8EncodeChar c, fun _ hq => isQuote_of_advance h.isQuote_of_open hq, ?_⟩
  have last := List.getLast?_eq_some_getLast (l := String.utf8EncodeChar c)
    String.utf8EncodeChar_ne_nil
  rw [Option.some_inj, ← getLast?_utf8EncodeChar_eq_iff, last, Option.some_or]

/-- The same quote is open after a text, whether it is read by characters or by bytes. -/
theorem Alike.quoteAfter_bytes : ∀ {t : Text} {quote prev : Option Char}
    {byteQuote bytePrev : Option UInt8}, Alike quote prev byteQuote bytePrev →
      quoteAfter byteQuote bytePrev (bytes t) = (quoteAfter quote prev t).map Char.toUInt8
  | [], _, _, _, _, h => h.quote_eq
  | c :: cs, _, _, _, _, h => by
      rw [bytes_cons, quoteAfter_append, quoteAfter]
      exact (h.step c).quoteAfter_bytes

theorem endsOutside_bytes_iff {t : Text} : EndsOutside (bytes t) ↔ EndsOutside t := by
  have start : Alike none none none none :=
    ⟨rfl, (fun _ hq => nomatch hq), by simp⟩
  rw [EndsOutside, start.quoteAfter_bytes, Option.map_eq_none_iff, EndsOutside]

end Quotes

section Finding

variable {m t : Text}

theorem exists_cons_bytes (c : Char) (cs : Text) :
    ∃ b bs, bytes (c :: cs) = b :: bs ∧ b.IsUTF8FirstByte ∧ isQuote b = isQuote c := by
  cases e : String.utf8EncodeChar c with
  | nil => exact absurd e String.utf8EncodeChar_ne_nil
  | cons b bs =>
      have inside : 0 < (String.utf8EncodeChar c).length := length_utf8EncodeChar_pos c
      have first : ((String.utf8EncodeChar c)[0]).IsUTF8FirstByte :=
        UInt8.isUTF8FirstByte_getElem_utf8EncodeChar.2 rfl
      simp only [e, List.getElem_cons_zero] at first
      refine ⟨b, bs ++ bytes cs, by rw [bytes_cons, e]; rfl, first, ?_⟩
      rcases utf8EncodeChar_cases c with ⟨small, e'⟩ | ⟨large, wide⟩
      · obtain ⟨rfl, -⟩ := List.cons.inj (e.symm.trans e')
        exact isQuote_toUInt8 small
      · rw [isQuote_of_large large]
        exact isQuote_of_le (wide b (by rw [e]; exact List.mem_cons_self))

/-- Where a marker stands in a text, its bytes stand in the bytes of the text. -/
theorem standsAt_bytes {n : Nat} (h : StandsAt m t n) :
    StandsAt (bytes m) (bytes t) (bytes (t.take n)).length := by
  obtain ⟨outside, ⟨c, hc, hq⟩, starts⟩ := h
  obtain ⟨cs, rest⟩ : ∃ cs, t.drop n = c :: cs := by
    rw [← List.head?_drop] at hc
    exact List.head?_eq_some_iff.1 hc
  obtain ⟨b, bs, hb, -, unquoted⟩ := exists_cons_bytes c cs
  refine ⟨?_, ⟨b, ?_, unquoted.trans hq⟩, ?_⟩
  · rw [take_bytes]
    exact endsOutside_bytes_iff.2 outside
  · rw [← List.head?_drop, drop_bytes, rest, hb, List.head?_cons]
  · rw [drop_bytes, bytes_isPrefix_iff]
    exact starts

/-- They stand nowhere else: they start with a byte that starts a character. -/
theorem exists_of_standsAt_bytes (hm : m ≠ []) {k : Nat} (h : StandsAt (bytes m) (bytes t) k) :
    ∃ n, k = (bytes (t.take n)).length ∧ StandsAt m t n := by
  obtain ⟨c, cs, rfl⟩ := List.exists_cons_of_ne_nil hm
  obtain ⟨b, bs, hb, first, unquoted⟩ := exists_cons_bytes c cs
  obtain ⟨outside, ⟨d, hd, hq⟩, starts⟩ := h
  have here : (bytes t)[k]? = some b := by
    obtain ⟨rest, e⟩ := starts
    rw [← List.head?_drop, ← e, hb, List.cons_append, List.head?_cons]
  have boundary : isBoundary (bytes t) k = true := by
    rw [isBoundary, here, Option.any_some, decide_eq_true first, Bool.or_true]
  obtain ⟨u, v, rfl, rfl⟩ := isBoundary_bytes_iff.1 boundary
  rw [bytes_append, List.take_left] at outside
  rw [bytes_append, List.drop_left, bytes_isPrefix_iff] at starts
  refine ⟨u.length, by rw [List.take_left], ?_, ⟨c, ?_, ?_⟩, ?_⟩
  · rw [List.take_left]
    exact endsOutside_bytes_iff.1 outside
  · obtain ⟨rest, rfl⟩ := starts
    simp
  · rw [← unquoted, Option.some.inj (here.symm.trans hd)]
    exact hq
  · rw [List.drop_left]
    exact starts

/-- The scan over bytes finds a marker where the scan over characters does: after the bytes of the
text before it. -/
theorem find_bytes (m t : Text) :
    find (bytes m) (bytes t) = (find m t).map fun n => (bytes (t.take n)).length := by
  by_cases hm : m = []
  · rw [hm, bytes_nil, find_nil, find_nil, Option.map_none]
  have hbytes : bytes m ≠ [] := fun e => hm (bytes_eq_nil_iff.1 e)
  cases e : find m t with
  | none =>
      rw [Option.map_none, find_eq_none_iff hbytes]
      intro k stands
      obtain ⟨n, -, hn⟩ := exists_of_standsAt_bytes hm stands
      exact (find_eq_none_iff hm).1 e n hn
  | some n =>
      obtain ⟨stands, first⟩ := (find_eq_some_iff hm).1 e
      rw [Option.map_some, find_eq_some_iff hbytes]
      refine ⟨standsAt_bytes stands, fun k before earlier => ?_⟩
      obtain ⟨l, rfl, hl⟩ := exists_of_standsAt_bytes hm earlier
      refine first l (Nat.lt_of_not_le fun later => ?_) hl
      -- A longer first part of the text has no fewer bytes.
      have part : t.take n <+: t.take l := List.take_prefix_take_left later
      exact absurd before (Nat.not_lt.2 (bytes_isPrefix_iff.2 part).length_le)

theorem byteOffset_eq (m t : String) :
    byteOffset m t = (find m.toList t.toList).map fun n => (bytes (t.toList.take n)).length := by
  rw [byteOffset, toList_toUTF8, toList_toUTF8, find_bytes]

/-- A marker that is found stands between two boundaries of the text. -/
theorem isBoundary_of_byteOffset {marker text : String} {n : Nat}
    (h : byteOffset marker text = some n) :
    isBoundary text.toUTF8.toList n = true ∧
      isBoundary text.toUTF8.toList (n + marker.utf8ByteSize) = true ∧
      (text.toUTF8.toList.drop n).take marker.utf8ByteSize = marker.toUTF8.toList := by
  rw [byteOffset_eq] at h
  obtain ⟨k, hk, rfl⟩ := Option.map_eq_some_iff.1 h
  obtain ⟨rest, e⟩ := List.isPrefixOf_iff_prefix.1 (isPrefixOf_drop_of_find hk)
  have parts : text.toList = text.toList.take k ++ marker.toList ++ rest := by
    rw [List.append_assoc, e, List.take_append_drop]
  rw [toList_toUTF8, toList_toUTF8, ← length_bytes marker]
  refine ⟨isBoundary_bytes_iff.2 ⟨_, _, (List.take_append_drop k text.toList).symm, rfl⟩,
    isBoundary_bytes_iff.2 ⟨_, _, parts, ?_⟩, ?_⟩
  · rw [bytes_append, List.length_append]
  · rw [drop_bytes, ← e, bytes_append, List.take_left]

end Finding

end Marker
end Decomment
