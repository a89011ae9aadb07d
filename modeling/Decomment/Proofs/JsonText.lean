import Decomment.Json.Reader
import Decomment.Json.Writer

/-!
# The tokens of a text that was written

What was written is read one part after the other.  A blank is skipped, a bracket is a token, a
string ends at its quote, and what is escaped in it is read as what it stands for.  A word ends
where a comma or a blank follows, or the text, and a whole number is read back from its digits.

**Results.**
* `read_print`: a whole number of 64 bits is read back from its digits.
* `lexesTo_writeString`: a string is read back with all its characters.
* `lexesTo_write`: the text of a value without doubles is read as the tokens of the value.
-/

namespace Decomment

namespace Text

theorem numeral_ne_nil (n : Nat) : numeral n ≠ [] := by
  rw [numeral]
  split <;> simp

theorem isAsciiDigit_of_mem_numeral {n : Nat} {c : Char} (h : c ∈ numeral n) :
    isAsciiDigit c = true :=
  List.all_eq_true.1 (all_isAsciiDigit_numeral n) c h

/-- No numeral but zero begins with a zero. -/
theorem head?_numeral_ne_zero {n : Nat} (h : 0 < n) : (numeral n).head? ≠ some '0' := by
  rw [numeral]
  split
  · rename_i hn
    have first : ∀ d : Fin 10, d ≠ 0 → Char.ofNat ('0'.toNat + d.val) ≠ '0' := by decide
    intro e
    refine first ⟨n, hn⟩ (fun h0 => Nat.ne_of_gt h (congrArg Fin.val h0)) ?_
    rw [List.head?_cons, digit, Nat.mod_eq_of_lt hn] at e
    exact Option.some.inj e
  · have lead : (numeral (n / 10)).head? ≠ some '0' := head?_numeral_ne_zero (by omega)
    rw [List.head?_append]
    cases e : (numeral (n / 10)).head? with
    | none => exact absurd (List.head?_eq_none_iff.1 e) (numeral_ne_nil _)
    | some c =>
        rw [e] at lead
        exact lead
termination_by n
decreasing_by omega

theorem length_numeral_of_lt {n : Nat} (h : n < 10) : (numeral n).length = 1 := by
  rw [numeral, if_pos h, List.length_singleton]

theorem hexValue_hexDigit {n : Nat} (h : n < 16) : hexValue (hexDigit n) = some n := by
  have all : ∀ d : Fin 16, hexValue (hexDigit d.val) = some d.val := by decide
  exact all ⟨n, h⟩

end Text

namespace Json

namespace Number

/-- The number is a whole number of 64 bits, with a sign or without. -/
def IsExact : Number → Prop
  | .natural n => n < Word.size
  | .negative n => n ≠ 0 ∧ n ≤ Word.half
  | .double _ => False

instance : DecidablePred IsExact
  | .natural n => inferInstanceAs (Decidable (n < Word.size))
  | .negative n => inferInstanceAs (Decidable (n ≠ 0 ∧ n ≤ Word.half))
  | .double _ => inferInstanceAs (Decidable False)

theorem takeDigits_numeral (n : Nat) : takeDigits (Text.numeral n) = (Text.numeral n, []) := by
  have digits : ∀ c ∈ Text.numeral n, Text.isAsciiDigit c = true :=
    fun c hc => Text.isAsciiDigit_of_mem_numeral hc
  have taken : (Text.numeral n ++ []).takeWhile Text.isAsciiDigit = Text.numeral n ++ [] :=
    List.takeWhile_append_of_pos digits
  have left : (Text.numeral n ++ []).dropWhile Text.isAsciiDigit = [] :=
    List.dropWhile_append_of_pos digits
  rw [List.append_nil] at taken left
  rw [takeDigits, taken, left]

/-- A numeral has no needless zeros. -/
theorem not_padded_numeral (n : Nat) :
    ((Text.numeral n).isEmpty ||
      ((Text.numeral n).length > 1 && (Text.numeral n).head? = some '0')) = false := by
  have nonempty : (Text.numeral n).isEmpty = false :=
    List.isEmpty_eq_false_iff.2 (Text.numeral_ne_nil n)
  rw [nonempty, Bool.false_or, Bool.and_eq_false_iff]
  by_cases hn : n < 10
  · left
    rw [Text.length_numeral_of_lt hn]
    rfl
  · exact .inr (decide_eq_false (Text.head?_numeral_ne_zero (by omega)))

theorem written_numeral (n : Nat) :
    written (Text.numeral n) = some ⟨false, Text.numeral n, none, none⟩ ∧
      written ('-' :: Text.numeral n) = some ⟨true, Text.numeral n, none, none⟩ := by
  have unsigned : ∀ t, Text.numeral n ≠ '-' :: t := by
    intro t e
    have minus : '-' ∈ Text.numeral n := by
      rw [e]
      exact List.mem_cons_self
    have digit := Text.isAsciiDigit_of_mem_numeral minus
    exact absurd digit (by decide)
  have padded := not_padded_numeral n
  constructor
  · unfold written
    split
    rename_i minus t e
    split at e
    · rename_i u eu
      exact absurd eu (unsigned u)
    · obtain ⟨rfl, rfl⟩ := Prod.mk.inj e
      simp only [takeDigits_numeral, padded]
      rfl
  · simp only [written, takeDigits_numeral, padded]
    rfl

/-- A whole number of 64 bits is read back from its digits. -/
theorem read_print {n : Number} (h : n.IsExact) : read (print n) = some n := by
  cases n with
  | natural n =>
      have size : n < Word.size := h
      simp [read, print, (written_numeral n).1, value, Text.numeralValue_numeral, size]
  | negative n =>
      obtain ⟨positive, half⟩ : n ≠ 0 ∧ n ≤ Word.half := h
      simp [read, print, (written_numeral n).2, value, Text.numeralValue_numeral, positive, half]
  | double bits => exact absurd h id

/-- The digits of a whole number, and its sign. -/
theorem mem_print {n : Number} (h : n.IsExact) {c : Char} (hc : c ∈ print n) :
    c = '-' ∨ Text.isAsciiDigit c = true := by
  cases n with
  | natural n => exact .inr (Text.isAsciiDigit_of_mem_numeral hc)
  | negative n =>
      rcases List.mem_cons.1 hc with rfl | hc
      · exact .inl rfl
      · exact .inr (Text.isAsciiDigit_of_mem_numeral hc)
  | double bits => exact absurd h id

theorem print_ne_nil {n : Number} (h : n.IsExact) : print n ≠ [] := by
  cases n with
  | natural n => exact Text.numeral_ne_nil n
  | negative n => exact List.cons_ne_nil _ _
  | double bits => exact absurd h id

end Number

namespace Value

mutual

/-- The numbers in the value. -/
def numbers : Value → List Number
  | .number n => [n]
  | .array vs => numbersOfAll vs
  | .object ms => numbersOfMembers ms
  | _ => []

def numbersOfAll : List Value → List Number
  | [] => []
  | v :: vs => numbers v ++ numbersOfAll vs

def numbersOfMembers : Members → List Number
  | [] => []
  | (_, v) :: ms => numbers v ++ numbersOfMembers ms

end

/-- All numbers in the value are whole numbers of 64 bits. -/
def IsExact (v : Value) : Prop :=
  ∀ n ∈ v.numbers, n.IsExact

instance : DecidablePred IsExact :=
  fun v => inferInstanceAs (Decidable (∀ n ∈ v.numbers, n.IsExact))

theorem isExact_number_iff {n : Number} : (number n).IsExact ↔ n.IsExact := by
  simp [IsExact, numbers]

theorem isExact_array_iff {vs : List Value} : (array vs).IsExact ↔ ∀ v ∈ vs, v.IsExact := by
  rw [IsExact, numbers]
  induction vs with
  | nil => simp [numbersOfAll]
  | cons v vs ih =>
      simp only [numbersOfAll, List.forall_mem_append, List.forall_mem_cons, ih, IsExact]

theorem isExact_object_iff {ms : Members} : (object ms).IsExact ↔ ∀ m ∈ ms, m.2.IsExact := by
  rw [IsExact, numbers]
  induction ms with
  | nil => simp [numbersOfMembers]
  | cons m ms ih =>
      simp only [numbersOfMembers, List.forall_mem_append, List.forall_mem_cons, ih, IsExact]

mutual

/-- The tokens of a value. -/
def tokens : Value → List Token
  | .string s => [.string s]
  | .array [] => [.beginArray, .endArray]
  | .array (v :: vs) => [.beginArray] ++ tokens v ++ elementTokens vs
  | .object [] => [.beginObject, .endObject]
  | .object ((k, v) :: ms) =>
      [.beginObject] ++ [.string k] ++ [.colon] ++ tokens v ++ memberTokens ms
  | v => [.scalar v]

/-- The tokens of the elements after the first, and of the end of the array. -/
def elementTokens : List Value → List Token
  | [] => [.endArray]
  | v :: vs => [.comma] ++ tokens v ++ elementTokens vs

/-- The tokens of the members after the first, and of the end of the object. -/
def memberTokens : Members → List Token
  | [] => [.endObject]
  | (k, v) :: ms => [.comma] ++ [.string k] ++ [.colon] ++ tokens v ++ memberTokens ms

end

end Value

namespace Lexer

open Writer

/-- Between tokens, the text is read as the tokens if `rest` follows. -/
def LexesTo (t : Text) (ts : List Token) (rest : Text) : Prop :=
  ∀ done, lexFrom done .between (t ++ rest) = lexFrom (ts.reverse ++ done) .between rest

/-- A word before the text ends where the text begins. -/
def EndsWord (t : Text) : Prop :=
  ∀ c ∈ t.head?, isDelimiter c = true

section Parts

variable {t u rest : Text} {ts us : List Token}

theorem LexesTo.append (ht : LexesTo t ts (u ++ rest)) (hu : LexesTo u us rest) :
    LexesTo (t ++ u) (ts ++ us) rest := by
  intro done
  rw [List.append_assoc, ht done, hu (ts.reverse ++ done), List.reverse_append, List.append_assoc]

theorem lexesTo_blanks (h : ∀ c ∈ t, isSpace c = true) : LexesTo t [] rest := by
  intro done
  induction t with
  | nil => rfl
  | cons c t ih =>
      rw [List.cons_append, lexFrom_space done c (h c List.mem_cons_self)]
      exact ih fun d hd => h d (List.mem_cons_of_mem c hd)

theorem lexesTo_newLine (depth : Nat) (rest : Text) : LexesTo (newLine depth) [] rest := by
  refine lexesTo_blanks fun c hc => ?_
  rcases List.mem_cons.1 hc with rfl | hc
  · rfl
  · rw [(List.mem_replicate.1 hc).2]
    rfl

theorem lexesTo_punctuation {c : Char} {k : Token} (h : punctuation c = some k) (rest : Text) :
    LexesTo [c] [k] rest := by
  intro done
  have first : start c = (some k, .between) := by
    unfold punctuation at h
    split at h <;> cases h <;> rfl
  rw [List.singleton_append, lexFrom, step, first]
  rfl

end Parts

section Words

variable {w rest : Text} {v : Value}

theorem lexFrom_word (hv : scalar w = some v) (hw : ∀ c ∈ w, isDelimiter c = false)
    (hrest : EndsWord rest) {read left : Text} (e : w = read.reverse ++ left)
    (done : List Token) :
    lexFrom done (.word read) (left ++ rest) = lexFrom (.scalar v :: done) .between rest := by
  induction left generalizing read with
  | nil =>
      rw [List.append_nil] at e
      rw [List.nil_append]
      cases rest with
      | nil => simp [lexFrom, finish, ← e, hv]
      | cons c cs =>
          have ends : isDelimiter c = true := hrest c rfl
          simp [lexFrom, step, ends, ← e, hv]
  | cons c left ih =>
      have inside : isDelimiter c = false :=
        hw c (by rw [e]; exact List.mem_append_right _ List.mem_cons_self)
      rw [List.cons_append, lexFrom, step, inside]
      exact ih (by rw [e, List.reverse_cons, List.append_assoc, List.singleton_append])

theorem lexesTo_word (hv : scalar w = some v) (hw : ∀ c ∈ w, isDelimiter c = false)
    (hne : w ≠ []) (hrest : EndsWord rest) : LexesTo w [.scalar v] rest := by
  intro done
  cases w with
  | nil => exact absurd rfl hne
  | cons c cs =>
      have outside := hw c List.mem_cons_self
      have first : start c = (none, .word [c]) := by
        unfold isDelimiter at outside
        simp only [Bool.or_eq_false_iff, beq_eq_false_iff_ne, Option.isSome_eq_false_iff,
          Option.isNone_iff_eq_none] at outside
        obtain ⟨⟨space, quote⟩, mark⟩ := outside
        simp [start, space, quote, mark]
      rw [List.cons_append, lexFrom, step, first]
      exact lexFrom_word hv hw hrest rfl done

theorem lexesTo_literal (hv : scalar w = some v) (hw : w.any isDelimiter = false) (hne : w ≠ [])
    (hrest : EndsWord rest) : LexesTo w [.scalar v] rest := by
  refine lexesTo_word hv (fun c hc => ?_) hne hrest
  exact Bool.eq_false_iff.2 (List.any_eq_false.1 hw c hc)

/-- A digit or a sign is no delimiter, and no name has one. -/
theorem not_isDelimiter_of_isAsciiDigit {c : Char} (h : c = '-' ∨ Text.isAsciiDigit c = true) :
    isDelimiter c = false ∧ c ∉ "true".toList ∧ c ∉ "false".toList ∧ c ∉ "null".toList := by
  rcases h with rfl | h
  · decide
  · have range : '0'.toNat ≤ c.toNat ∧ c.toNat ≤ '9'.toNat := by
      simp only [Text.isAsciiDigit, Bool.and_eq_true, decide_eq_true_eq] at h
      exact ⟨h.1, h.2⟩
    have all : ∀ n : Fin 10, isDelimiter (Char.ofNat ('0'.toNat + n.val)) = false ∧
        Char.ofNat ('0'.toNat + n.val) ∉ "true".toList ∧
        Char.ofNat ('0'.toNat + n.val) ∉ "false".toList ∧
        Char.ofNat ('0'.toNat + n.val) ∉ "null".toList := by decide
    have same : Char.ofNat ('0'.toNat + (c.toNat - '0'.toNat)) = c := by
      rw [Nat.add_sub_cancel' range.1, Char.ofNat_toNat]
    have digit := all ⟨c.toNat - '0'.toNat, by have := range.2; simp at this ⊢; omega⟩
    rwa [same] at digit

theorem scalar_print {n : Number} (h : n.IsExact) :
    scalar (Number.print n) = some (.number n) := by
  obtain ⟨c, cs, e⟩ := List.exists_cons_of_ne_nil (Number.print_ne_nil h)
  have first : c ∈ Number.print n := by rw [e]; exact List.mem_cons_self
  obtain ⟨-, notTrue, notFalse, notNull⟩ :=
    not_isDelimiter_of_isAsciiDigit (Number.mem_print h first)
  have other : ∀ w : Text, c ∉ w → Number.print n ≠ w := fun w hw same => hw (same ▸ first)
  rw [scalar, if_neg (other _ notTrue), if_neg (other _ notFalse), if_neg (other _ notNull),
    Number.read_print h, Option.map_some]

theorem lexesTo_print {n : Number} (h : n.IsExact) (hrest : EndsWord rest) :
    LexesTo (Number.print n) [.scalar (.number n)] rest :=
  lexesTo_word (scalar_print h)
    (fun _ hc => (not_isDelimiter_of_isAsciiDigit (Number.mem_print h hc)).1)
    (Number.print_ne_nil h) hrest

end Words

section Strings

theorem lexFrom_escape {c d : Char} (hc : escaped c = some d) (done : List Token)
    (read rest : Text) :
    lexFrom done (.string read) ('\\' :: c :: rest) = lexFrom done (.string (d :: read)) rest := by
  have letter : c ≠ 'u' := by
    rintro rfl
    cases hc
  simp [lexFrom, step, letter, hc]

/-- A control character that has no letter is escaped as a code unit. -/
theorem lexFrom_unit {c : Char} (hc : c.toNat < 0x20) (done : List Token) (read rest : Text) :
    lexFrom done (.string read)
        ('\\' :: 'u' :: '0' :: '0' :: Text.hexDigit (c.toNat / 16) ::
          Text.hexDigit (c.toNat % 16) :: rest) =
      lexFrom done (.string (c :: read)) rest := by
  have zero : Text.hexValue '0' = some 0 := by decide
  have high : Text.hexValue (Text.hexDigit (c.toNat / 16)) = some (c.toNat / 16) :=
    Text.hexValue_hexDigit (by omega)
  have low : Text.hexValue (Text.hexDigit (c.toNat % 16)) = some (c.toNat % 16) :=
    Text.hexValue_hexDigit (by omega)
  have code : 16 * (c.toNat / 16) + c.toNat % 16 = c.toNat := by omega
  have unit : closeUnit read none c.toNat = some (.string (c :: read)) := by
    have notHigh : ¬0xD800 ≤ c.toNat := by omega
    have notLow : ¬0xDC00 ≤ c.toNat := by omega
    simp [closeUnit, notHigh, notLow, Char.ofNat_toNat]
  simp [lexFrom, step, zero, high, low, code, unit]

theorem lexFrom_writeChar (c : Char) (done : List Token) (read rest : Text) :
    lexFrom done (.string read) (writeChar c ++ rest) =
      lexFrom done (.string (c :: read)) rest := by
  unfold writeChar
  split
  · rename_i plain
    simp only [isPlain, Bool.and_eq_true, bne_iff_ne, ne_eq, decide_eq_true_eq] at plain
    obtain ⟨⟨quote, backslash⟩, control⟩ := plain
    have inside : isControl c = false := decide_eq_false (Nat.not_lt.2 control)
    simp [lexFrom, step, quote, backslash, inside]
  · rename_i plain
    split
    case h_8 quote backslash _ _ _ _ _ =>
      have control : ¬c = '\x22' → ¬c = '\\' → c.toNat < 0x20 := by
        simpa [isPlain] using plain
      exact lexFrom_unit (control quote backslash) done read rest
    all_goals exact lexFrom_escape (by rfl) done read rest

/-- A string is read back with all its characters. -/
theorem lexesTo_writeString (s : String) (rest : Text) :
    LexesTo (writeString s) [.string s] rest := by
  have body (t read : Text) (done : List Token) :
      lexFrom done (.string read) (t.flatMap writeChar ++ '\x22' :: rest) =
        lexFrom done (.string (t.reverse ++ read)) ('\x22' :: rest) := by
    induction t generalizing read with
    | nil => rfl
    | cons c t ih =>
        rw [List.flatMap_cons, List.append_assoc, lexFrom_writeChar, ih, List.reverse_cons,
          List.append_assoc, List.singleton_append]
  intro done
  have opened : ∀ t, lexFrom done .between ('\x22' :: t) = lexFrom done (.string []) t :=
    fun _ => rfl
  rw [writeString, List.cons_append, List.cons_append, opened, List.append_assoc,
    List.singleton_append, body, List.append_nil]
  simp [lexFrom, step, String.ofList_toList]

end Strings

section Values

theorem endsWord_newLine (depth : Nat) (t : Text) : EndsWord (newLine depth ++ t) := by
  intro c hc
  obtain rfl := Option.some.inj hc
  rfl

theorem endsWord_writeElements (depth : Nat) (vs : List Value) (t : Text) :
    EndsWord (writeElements depth vs ++ t) := by
  cases vs with
  | nil =>
      rw [writeElements, List.append_assoc]
      exact endsWord_newLine depth _
  | cons v vs =>
      intro c hc
      obtain rfl := Option.some.inj hc
      rfl

theorem endsWord_writeMembers (depth : Nat) (ms : Members) (t : Text) :
    EndsWord (writeMembers depth ms ++ t) := by
  cases ms with
  | nil =>
      rw [writeMembers, List.append_assoc]
      exact endsWord_newLine depth _
  | cons m ms =>
      intro c hc
      obtain rfl := Option.some.inj hc
      rfl

section Lines

variable {c : Char} {m : Token} {t rest : Text} {ts : List Token}

/-- An element on a line of its own, after the bracket or the comma before it. -/
theorem lexesTo_element (h : punctuation c = some m) (depth : Nat) (ht : LexesTo t ts rest) :
    LexesTo (c :: newLine depth ++ t) ([m] ++ ts) rest := by
  have mark : LexesTo (c :: newLine depth) [m] (t ++ rest) :=
    (lexesTo_punctuation h _).append (lexesTo_newLine depth _)
  exact mark.append ht

/-- A member on a line of its own, with a colon and a blank after its name. -/
theorem lexesTo_member (h : punctuation c = some m) (depth : Nat) (k : String)
    (ht : LexesTo t ts rest) :
    LexesTo (c :: newLine depth ++ writeString k ++ [':', ' '] ++ t)
      ([m] ++ [.string k] ++ [.colon] ++ ts) rest := by
  have blank : LexesTo [' '] [] (t ++ rest) := by
    refine lexesTo_blanks fun c hc => ?_
    rw [List.mem_singleton.1 hc]
    rfl
  have colon : LexesTo [':', ' '] [.colon] (t ++ rest) :=
    (lexesTo_punctuation (c := ':') rfl _).append blank
  have name : LexesTo (c :: newLine depth ++ writeString k) ([m] ++ [.string k])
      ([':', ' '] ++ (t ++ rest)) :=
    lexesTo_element h depth (lexesTo_writeString k _)
  exact (name.append colon).append ht

end Lines

mutual

/-- The text of a value without doubles is read as the tokens of the value. -/
theorem lexesTo_write (depth : Nat) (rest : Text) (hrest : EndsWord rest) :
    ∀ v : Value, v.IsExact → LexesTo (write depth v) v.tokens rest
  | .null, _ => lexesTo_literal (w := "null".toList) rfl rfl (by decide) hrest
  | .bool true, _ => lexesTo_literal (w := "true".toList) rfl rfl (by decide) hrest
  | .bool false, _ => lexesTo_literal (w := "false".toList) rfl rfl (by decide) hrest
  | .number n, h => lexesTo_print (Value.isExact_number_iff.1 h) hrest
  | .string s, _ => lexesTo_writeString s rest
  | .array [], _ =>
      (lexesTo_punctuation (c := '[') rfl _).append (lexesTo_punctuation (c := ']') rfl rest)
  | .array (v :: vs), h => by
      obtain ⟨hv, hvs⟩ := List.forall_mem_cons.1 (Value.isExact_array_iff.1 h)
      have first := lexesTo_write (depth + 1) (writeElements depth vs ++ rest)
        (endsWord_writeElements depth vs rest) v hv
      exact (lexesTo_element (c := '[') rfl (depth + 1) first).append
        (lexesTo_writeElements depth rest vs hvs)
  | .object [], _ =>
      (lexesTo_punctuation (c := '\x7b') rfl _).append
        (lexesTo_punctuation (c := '\x7d') rfl rest)
  | .object ((k, v) :: ms), h => by
      obtain ⟨hv, hms⟩ := List.forall_mem_cons.1 (Value.isExact_object_iff.1 h)
      have first := lexesTo_write (depth + 1) (writeMembers depth ms ++ rest)
        (endsWord_writeMembers depth ms rest) v hv
      exact (lexesTo_member (c := '\x7b') rfl (depth + 1) k first).append
        (lexesTo_writeMembers depth rest ms hms)

theorem lexesTo_writeElements (depth : Nat) (rest : Text) :
    ∀ vs : List Value, (∀ v ∈ vs, v.IsExact) →
      LexesTo (writeElements depth vs) (Value.elementTokens vs) rest
  | [], _ => (lexesTo_newLine depth _).append (lexesTo_punctuation (c := ']') rfl rest)
  | v :: vs, h => by
      obtain ⟨hv, hvs⟩ := List.forall_mem_cons.1 h
      have first := lexesTo_write (depth + 1) (writeElements depth vs ++ rest)
        (endsWord_writeElements depth vs rest) v hv
      exact (lexesTo_element (c := ',') rfl (depth + 1) first).append
        (lexesTo_writeElements depth rest vs hvs)

theorem lexesTo_writeMembers (depth : Nat) (rest : Text) :
    ∀ ms : Members, (∀ m ∈ ms, m.2.IsExact) →
      LexesTo (writeMembers depth ms) (Value.memberTokens ms) rest
  | [], _ => (lexesTo_newLine depth _).append (lexesTo_punctuation (c := '\x7d') rfl rest)
  | (k, v) :: ms, h => by
      obtain ⟨hv, hms⟩ := List.forall_mem_cons.1 h
      have first := lexesTo_write (depth + 1) (writeMembers depth ms ++ rest)
        (endsWord_writeMembers depth ms rest) v hv
      exact (lexesTo_member (c := ',') rfl (depth + 1) k first).append
        (lexesTo_writeMembers depth rest ms hms)

end

/-- A text that ends with a line feed is read as the tokens of the value. -/
theorem lex_write {v : Value} (h : v.IsExact) : lex (v.write ++ ['\n']) = some v.tokens := by
  have ends : EndsWord ['\n'] := fun c hc => by
    obtain rfl := Option.some.inj hc
    rfl
  have read := lexesTo_write 0 ['\n'] ends v h []
  rw [lex, Value.write, read, List.append_nil, lexFrom_space _ _ rfl, lexFrom, finish]
  simp

end Values

end Lexer
end Json
end Decomment
