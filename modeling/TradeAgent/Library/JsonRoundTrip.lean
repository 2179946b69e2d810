import Mathlib.Data.String.Basic
import TradeAgent.Library.Json

/-! Reading what was written gives the value back: strings first, then numbers, then
values by induction over their structure. -/

namespace Json

/-! ## Strings -/

theorem hexValue_digitChar : ∀ d < 16, hexValue (Nat.digitChar d) = some d := by decide

theorem scan_hex (unit : ℕ) (rest : List Char) (bound : unit < 0x10000) :
    scan (hex unit ++ rest) = (scan rest).map fun p => (unit :: p.1, p.2) := by
  have digit (n : ℕ) : hexValue (n % 16).digitChar = some (n % 16) :=
    hexValue_digitChar _ (Nat.mod_lt _ (by omega))
  have value : 4096 * (unit / 4096 % 16) + 256 * (unit / 256 % 16) + 16 * (unit / 16 % 16) +
      unit % 16 = unit := by omega
  simp only [hex, List.cons_append, List.nil_append, scan, digit, Option.bind_eq_bind,
    Option.bind_some, Option.pure_def, value]
  cases scan rest <;> rfl

theorem scalar_value (c : Char) : c.toNat < 0xd800 ∨ (0xdfff < c.toNat ∧ c.toNat < 0x110000) :=
  c.valid

theorem units_bound {c : Char} {unit : ℕ} (member : unit ∈ units c) : unit < 0x10000 := by
  have scalar := scalar_value c
  simp only [units] at member
  split at member
  · have same := List.mem_singleton.mp member
    omega
  · simp only [List.mem_cons, List.not_mem_nil, or_false] at member
    rcases member with here | here <;> omega

theorem scan_units (found : List ℕ) (rest : List Char) (bound : ∀ unit ∈ found, unit < 0x10000) :
    scan (found.flatMap hex ++ rest) = (scan rest).map fun p => (found ++ p.1, p.2) := by
  induction found with
  | nil => simp
  | cons unit later ih =>
    rw [List.flatMap_cons, List.append_assoc, scan_hex _ _ (bound unit (by simp)),
      ih fun u member => bound u (by simp [member])]
    cases scan rest <;> rfl

theorem units_ascii {c : Char} (small : c.toNat < 0x10000) : units c = [c.toNat] := by
  simp [units, small]

/-- An escape is scanned as the code units of its character, whatever follows. -/
theorem scan_escape (c : Char) (rest : List Char) :
    scan (escape c ++ rest) = (scan rest).map fun p => (units c ++ p.1, p.2) := by
  unfold escape
  split_ifs with quote slash newline carriage tab feed back plain
  · subst quote
    simp [scan, unescape, units]
    cases scan rest <;> rfl
  · subst slash
    simp [scan, unescape, units]
    cases scan rest <;> rfl
  · subst newline
    simp [scan, unescape, units]
    cases scan rest <;> rfl
  · subst carriage
    simp [scan, unescape, units]
    cases scan rest <;> rfl
  · subst tab
    simp [scan, unescape, units]
    cases scan rest <;> rfl
  · simp [scan, unescape, units, feed]
    cases scan rest <;> rfl
  · simp [scan, unescape, units, back]
    cases scan rest <;> rfl
  · rw [List.singleton_append, scan, units_ascii (by omega)]
    · rw [if_neg (by omega)]
      cases scan rest <;> rfl
    all_goals simp_all
  · exact scan_units _ _ fun _ => units_bound

theorem scan_quoted (s rest : List Char) :
    scan (s.flatMap escape ++ '"' :: rest) = some (s.flatMap units, rest) := by
  induction s with
  | nil => simp [scan]
  | cons c later ih => rw [List.flatMap_cons, List.append_assoc, scan_escape, ih]; rfl

theorem join_units (c : Char) (later : List ℕ) :
    join (units c ++ later) = (join later).map (c :: ·) := by
  have scalar := scalar_value c
  by_cases small : c.toNat < 0x10000
  · have ordinary : high c.toNat = false ∧ low c.toNat = false := by
      simp only [high, low, Bool.and_eq_false_iff, decide_eq_false_iff_not]
      omega
    rw [units_ascii small]
    cases later with
    | nil => simp [join, ordinary]
    | cons next rest => simp [join, ordinary]
  · have first : high (0xd800 + (c.toNat - 0x10000) / 0x400) = true := by
      simp only [high, Bool.and_eq_true, decide_eq_true_eq]
      omega
    have second : low (0xdc00 + (c.toNat - 0x10000) % 0x400) = true := by
      simp only [low, Bool.and_eq_true, decide_eq_true_eq]
      omega
    have value : 0x10000 + (0xd800 + (c.toNat - 0x10000) / 0x400 - 0xd800) * 0x400 +
        (0xdc00 + (c.toNat - 0x10000) % 0x400 - 0xdc00) = c.toNat := by omega
    simp only [units, if_neg small, List.cons_append, List.nil_append, join, first, second,
      Bool.and_self, if_true, value, Char.ofNat_toNat]

theorem join_text (s : List Char) : join (s.flatMap units) = some s := by
  induction s with
  | nil => rfl
  | cons c later ih => rw [List.flatMap_cons, join_units, ih]; rfl

theorem readText_quoted (s : String) (rest : List Char) :
    readText (s.toList.flatMap escape ++ '"' :: rest) = some (s, rest) := by
  simp [readText, scan_quoted, join_text]

/-! ## Numbers -/

/-- What follows a value never continues a number. -/
def Stops (rest : List Char) : Prop :=
  ∀ c ∈ rest.head?, c.isDigit = false ∧ c ≠ '.' ∧ c ≠ 'e' ∧ c ≠ 'E'

theorem Stops.nil : Stops [] := by simp [Stops]

theorem span_digits {ds rest : List Char} (digits : ∀ c ∈ ds, c.isDigit)
    (stop : ∀ c ∈ rest.head?, c.isDigit = false) :
    (ds ++ rest).span Char.isDigit = (ds, rest) := by
  rw [List.span_eq_takeWhile_dropWhile, List.takeWhile_append_of_pos digits,
    List.dropWhile_append_of_pos digits]
  cases rest with
  | nil => simp
  | cons c later => simp [stop c (by simp)]

theorem wholePart_plain {whole rest : List Char}
    (plain : whole = ['0'] ∨ ∃ d ds, whole = d :: ds ∧ d ≠ '0')
    (digits : ∀ c ∈ whole, c.isDigit) (stop : ∀ c ∈ rest.head?, c.isDigit = false) :
    wholePart (whole ++ rest) = some (whole, rest) := by
  rcases plain with rfl | ⟨d, ds, rfl, positive⟩
  · rfl
  · have digit : d.isDigit := digits d (by simp)
    have taken := span_digits digits stop
    simp only [List.cons_append] at taken ⊢
    simp [-List.span_eq_takeWhile_dropWhile, wholePart, digit, taken]

theorem fractionPart_point {fraction rest : List Char} (digits : ∀ c ∈ fraction, c.isDigit)
    (stop : ∀ c ∈ rest.head?, c.isDigit = false ∧ c ≠ '.') :
    fractionPart (Literal.point fraction ++ rest) = (Literal.point fraction, rest) := by
  cases fraction with
  | nil =>
    cases rest with
    | nil => rfl
    | cons c later =>
      have apart := (stop c (by simp)).2
      simp only [Literal.point, List.nil_append]
      unfold fractionPart
      split
      · simp_all
      · rfl
  | cons d ds =>
    have taken := span_digits digits fun c member => (stop c member).1
    simp only [Literal.point, List.cons_append] at taken ⊢
    simp [-List.span_eq_takeWhile_dropWhile, fractionPart, taken]

theorem exponentPart_power {exponent rest : List Char}
    (power : exponent = [] ∨ ∃ ds, ds ≠ [] ∧ (∀ c ∈ ds, c.isDigit) ∧
      (exponent = 'e' :: '+' :: ds ∨ exponent = 'e' :: '-' :: ds))
    (stop : Stops rest) : exponentPart (exponent ++ rest) = (exponent, rest) := by
  rcases power with rfl | ⟨ds, some, digits, rfl | rfl⟩
  · cases rest with
    | nil => rfl
    | cons c later =>
      have apart := stop c (by simp)
      simp [exponentPart, apart]
  all_goals
    obtain ⟨d, later, rfl⟩ := List.exists_cons_of_ne_nil some
    have taken := span_digits digits fun c member => (stop c member).1
    simp only [List.cons_append] at taken
    simp [-List.span_eq_takeWhile_dropWhile, exponentPart, exponentSign, taken]

theorem signPart_digit {c : Char} (text : List Char) (digit : c.isDigit) :
    signPart (c :: text) = (false, c :: text) := by
  unfold signPart
  split
  next same =>
    cases same
    simp at digit
  next => rfl

/-- A whole part starts with a digit. -/
theorem plain_head {whole : List Char}
    (plain : whole = ['0'] ∨ ∃ d ds, whole = d :: ds ∧ d ≠ '0')
    (digits : ∀ c ∈ whole, c.isDigit) : ∃ d ds, whole = d :: ds ∧ d.isDigit := by
  rcases plain with rfl | ⟨d, ds, rfl, -⟩
  · exact ⟨'0', [], rfl, rfl⟩
  · exact ⟨d, ds, rfl, digits d (by simp)⟩

theorem signPart_signed {whole : List Char} (negative : Bool) (rest : List Char)
    (plain : whole = ['0'] ∨ ∃ d ds, whole = d :: ds ∧ d ≠ '0')
    (digits : ∀ c ∈ whole, c.isDigit) :
    signPart ((if negative then ['-'] else []) ++ (whole ++ rest)) = (negative, whole ++ rest) := by
  obtain ⟨d, ds, rfl, digit⟩ := plain_head plain digits
  cases negative with
  | true => rfl
  | false => exact signPart_digit _ digit

theorem readNumber_literal (fl : Floats) (l : Literal) {rest : List Char} (stop : Stops rest) :
    readNumber fl (l.text ++ rest) = some (.float (fl.read l.text), rest) := by
  have wholeDigits : ∀ c ∈ l.whole, c.isDigit := fun c member => l.digits c (by simp [member])
  have power : ∀ c ∈ (l.exponent ++ rest).head?, c.isDigit = false ∧ c ≠ '.' := by
    rcases l.power with none | ⟨ds, -, -, some | some⟩
    · rw [none]
      exact fun c member => ⟨(stop c member).1, (stop c member).2.1⟩
    all_goals simp [some]
  have tail : ∀ c ∈ (Literal.point l.fraction ++ (l.exponent ++ rest)).head?,
      c.isDigit = false := by
    cases shape : l.fraction with
    | nil => exact fun c member => (power c member).1
    | cons d ds => simp [Literal.point]
  have kept : ¬ (Literal.point l.fraction = [] ∧ l.exponent = []) := by
    rintro ⟨noFraction, noExponent⟩
    rcases l.broken with some | some
    · cases shape : l.fraction with
      | nil => exact some shape
      | cons d ds => simp [Literal.point, shape] at noFraction
    · exact some noExponent
  have spread : l.text ++ rest = (if l.negative then ['-'] else []) ++
      (l.whole ++ (Literal.point l.fraction ++ (l.exponent ++ rest))) := by
    simp [Literal.text, List.append_assoc]
  have fractionDigits : ∀ c ∈ l.fraction, c.isDigit := fun c member => l.digits c (by simp [member])
  have fraction := fractionPart_point fractionDigits power
  rw [spread, readNumber, signPart_signed _ _ l.plain wholeDigits]
  simp only [wholePart_plain l.plain wholeDigits tail, fraction, exponentPart_power l.power stop,
    if_neg kept, Literal.text, Option.bind_eq_bind, Option.bind_some, Option.pure_def]

theorem toDigits_digits (n : ℕ) : ∀ c ∈ Nat.toDigits 10 n, c.isDigit :=
  fun _ => Nat.isDigit_of_mem_toDigits (by omega) (by omega)

theorem digitChar_zero {n : ℕ} (small : n < 10) (zero : n.digitChar = '0') : n = 0 := by
  revert n
  decide

/-- Decimal digits have no leading zero. -/
theorem toDigits_plain (n : ℕ) :
    Nat.toDigits 10 n = ['0'] ∨ ∃ d ds, Nat.toDigits 10 n = d :: ds ∧ d ≠ '0' := by
  induction n using Nat.strong_induction_on with
  | _ n ih =>
    by_cases small : n < 10
    · rw [Nat.toDigits_of_lt_base small]
      by_cases zero : n = 0
      · exact .inl (by rw [zero]; rfl)
      · exact .inr ⟨_, [], rfl, fun same => zero (digitChar_zero small same)⟩
    · rw [Nat.toDigits_of_base_le (by omega) (by omega)]
      rcases ih (n / 10) (by omega) with zero | ⟨d, ds, shape, positive⟩
      · have value := Nat.ofDigitChars_ten_toDigits (n := n / 10)
        rw [zero] at value
        have : n / 10 = 0 := value.symm
        omega
      · exact .inr ⟨d, ds ++ [(n % 10).digitChar], by rw [shape]; rfl, positive⟩

theorem integer_signed (n : ℤ) :
    integer n = (if n < 0 then ['-'] else []) ++ Nat.toDigits 10 n.natAbs := by
  cases n with
  | ofNat m => simp [integer]
  | negSucc m => simp [integer, Int.negSucc_lt_zero]

theorem readNumber_integer (fl : Floats) (n : ℤ) {rest : List Char} (stop : Stops rest) :
    readNumber fl (integer n ++ rest) = some (.int n, rest) := by
  have plain := toDigits_plain n.natAbs
  have digits := toDigits_digits n.natAbs
  have still : ∀ c ∈ rest.head?, c.isDigit = false ∧ c ≠ '.' :=
    fun c member => ⟨(stop c member).1, (stop c member).2.1⟩
  have noFraction : fractionPart rest = ([], rest) :=
    @fractionPart_point [] rest (by simp) still
  have noExponent : exponentPart rest = ([], rest) := exponentPart_power (.inl rfl) stop
  have spread : integer n ++ rest = (if decide (n < 0) then ['-'] else []) ++
      (Nat.toDigits 10 n.natAbs ++ rest) := by
    simp [integer_signed, List.append_assoc]
  have value : (if decide (n < 0) = true then -(n.natAbs : ℤ) else n.natAbs) = n := by
    simp only [decide_eq_true_eq]
    split_ifs <;> omega
  have taken := wholePart_plain plain digits fun c member => (still c member).1
  rw [spread, readNumber, signPart_signed _ _ plain digits]
  simp only [taken, noFraction, noExponent, Option.bind_eq_bind, Option.bind_some, and_self, if_true,
    Nat.ofDigitChars_ten_toDigits, value, Option.pure_def]

/-! ## Values -/

/-- Separators a reader passes over. -/
structure Style.Plain (style : Style) : Prop where
  comma : ∃ blanks, style.comma = ',' :: blanks ∧ ∀ c ∈ blanks, blank c
  colon : ∃ blanks, style.colon = ':' :: blanks ∧ ∀ c ∈ blanks, blank c

theorem spaced_plain : spaced.Plain :=
  ⟨⟨[' '], rfl, by simp [blank]⟩, ⟨[' '], rfl, by simp [blank]⟩⟩

theorem compact_plain : compact.Plain := ⟨⟨[], rfl, by simp⟩, ⟨[], rfl, by simp⟩⟩

theorem skip_blanks {blanks : List Char} (all : ∀ c ∈ blanks, blank c) (rest : List Char) :
    skip (blanks ++ rest) = skip rest := List.dropWhile_append_of_pos all

/-- A value's text starts with a character that is neither blank nor a closing bracket. -/
def Opens (text : List Char) : Prop :=
  ∃ c rest, text = c :: rest ∧ blank c = false ∧ c ≠ ']' ∧ c ≠ '}'

theorem Opens.skip {text : List Char} (opens : Opens text) (rest : List Char) :
    skip (text ++ rest) = text ++ rest := by
  obtain ⟨c, later, rfl, here, -⟩ := opens
  simp [Json.skip, here]

theorem digit_opens {c : Char} (digit : c.isDigit) : blank c = false ∧ c ≠ ']' ∧ c ≠ '}' := by
  refine ⟨?_, ?_, ?_⟩
  · by_contra space
    simp only [blank, Bool.not_eq_false, Bool.or_eq_true, decide_eq_true_eq] at space
    rcases space with ((rfl | rfl) | rfl) | rfl <;> simp at digit
  all_goals
    rintro rfl
    simp at digit

theorem signed_opens {whole : List Char} (negative : Bool) (rest : List Char)
    (plain : whole = ['0'] ∨ ∃ d ds, whole = d :: ds ∧ d ≠ '0')
    (digits : ∀ c ∈ whole, c.isDigit) :
    Opens ((if negative then ['-'] else []) ++ (whole ++ rest)) := by
  obtain ⟨d, ds, rfl, digit⟩ := plain_head plain digits
  cases negative with
  | true => exact ⟨'-', _, rfl, by decide⟩
  | false => exact ⟨d, _, rfl, digit_opens digit⟩

theorem literal_opens (l : Literal) : Opens l.text := by
  have opens := signed_opens l.negative (Literal.point l.fraction ++ l.exponent) l.plain
    fun c member => l.digits c (by simp [member])
  simpa [Literal.text, List.append_assoc] using opens

theorem integer_opens (n : ℤ) : Opens (integer n) := by
  have opens := signed_opens (decide (n < 0)) [] (toDigits_plain n.natAbs)
    (toDigits_digits n.natAbs)
  simpa [integer_signed] using opens

theorem write_opens (fl : Floats) (style : Style) (v : Json fl.Carrier) :
    Opens (write fl style v) := by
  cases v with
  | null => exact ⟨'n', _, rfl, by decide⟩
  | bool b => cases b <;> exact ⟨_, _, rfl, by decide⟩
  | int n => exact integer_opens n
  | float x => exact literal_opens _
  | nan => exact ⟨'N', _, rfl, by decide⟩
  | infinity negative => cases negative <;> exact ⟨_, _, rfl, by decide⟩
  | string s => exact ⟨'"', _, rfl, by decide⟩
  | array items => cases items <;> exact ⟨'[', _, rfl, by decide⟩
  | object members => cases members <;> exact ⟨'{', _, rfl, by decide⟩

theorem readNumber_head {fl : Floats} {text : List Char} {r : Json fl.Carrier × List Char}
    (number : readNumber fl text = some r) :
    ∃ c rest, text = c :: rest ∧ (c = '-' ∨ c.isDigit) := by
  cases text with
  | nil => simp [readNumber, signPart, wholePart] at number
  | cons c rest =>
    refine ⟨c, rest, rfl, ?_⟩
    by_contra neither
    obtain ⟨sign, digit⟩ := not_or.mp neither
    have unsigned : signPart (c :: rest) = (false, c :: rest) := by
      unfold signPart
      split <;> simp_all
    have missing : wholePart (c :: rest) = none := by
      unfold wholePart
      split <;> simp_all
    simp [readNumber, unsigned, missing] at number

/-- What opens no string, object or array is a word or a number. -/
theorem readValue_plain (fl : Floats) (fuel : ℕ) {c : Char} (rest : List Char)
    (apart : c ≠ '"' ∧ c ≠ '{' ∧ c ≠ '[') :
    readValue fl (fuel + 1) (c :: rest) =
      (word fl nullWord .null (c :: rest) <|> word fl trueWord (.bool true) (c :: rest) <|>
      word fl falseWord (.bool false) (c :: rest) <|> readNumber fl (c :: rest) <|>
      word fl nanWord .nan (c :: rest) <|>
      word fl infinityWord (.infinity false) (c :: rest) <|>
      word fl ('-' :: infinityWord) (.infinity true) (c :: rest)) := by
  unfold readValue
  split
  next same => exact absurd (List.cons.inj same).1 apart.1
  next same => exact absurd (List.cons.inj same).1 apart.2.1
  next same => exact absurd (List.cons.inj same).1 apart.2.2
  next => rfl

theorem word_prefix (fl : Floats) (expected : List Char) (v : Json fl.Carrier) (rest : List Char) :
    word fl expected v (expected ++ rest) = some (v, rest) := by
  simp [word]

theorem word_other (fl : Floats) {first c : Char} (apart : first ≠ c) (expected : List Char)
    (v : Json fl.Carrier) (rest : List Char) :
    word fl (first :: expected) v (c :: rest) = none := by
  simp [word, apart]

/-- A number is tried before the words for what no number denotes. -/
theorem readValue_late (fl : Floats) (fuel : ℕ) {c : Char} (rest : List Char)
    (apart : c ≠ '"' ∧ c ≠ '{' ∧ c ≠ '[') (letters : c ≠ 'n' ∧ c ≠ 't' ∧ c ≠ 'f') :
    readValue fl (fuel + 1) (c :: rest) =
      (readNumber fl (c :: rest) <|> word fl nanWord .nan (c :: rest) <|>
      word fl infinityWord (.infinity false) (c :: rest) <|>
      word fl ('-' :: infinityWord) (.infinity true) (c :: rest)) := by
  have null : word fl nullWord .null (c :: rest) = none := word_other fl letters.1.symm _ _ rest
  have yes : word fl trueWord (.bool true) (c :: rest) = none :=
    word_other fl letters.2.1.symm _ _ rest
  have no : word fl falseWord (.bool false) (c :: rest) = none :=
    word_other fl letters.2.2.symm _ _ rest
  rw [readValue_plain fl fuel rest apart, null, yes, no]
  rfl

theorem readValue_number {fl : Floats} {text : List Char} {r : Json fl.Carrier × List Char}
    (fuel : ℕ) (number : readNumber fl text = some r) : readValue fl (fuel + 1) text = some r := by
  obtain ⟨c, rest, rfl, head⟩ := readNumber_head number
  have apart : (c ≠ '"' ∧ c ≠ '{' ∧ c ≠ '[') ∧ c ≠ 'n' ∧ c ≠ 't' ∧ c ≠ 'f' := by
    refine ⟨⟨?_, ?_, ?_⟩, ?_, ?_, ?_⟩ <;> rintro rfl <;> simp at head
  rw [readValue_late fl fuel rest apart.1 apart.2, number]
  rfl

theorem readNumber_letter (fl : Floats) {c : Char} (rest : List Char)
    (letter : c ≠ '-' ∧ c.isDigit = false) : readNumber fl (c :: rest) = none := by
  cases number : readNumber fl (c :: rest) with
  | none => rfl
  | some r =>
    obtain ⟨d, later, same, head⟩ := readNumber_head number
    cases same
    rcases head with sign | digit
    · exact absurd sign letter.1
    · rw [letter.2] at digit
      cases digit

theorem readValue_null (fl : Floats) (fuel : ℕ) (rest : List Char) :
    readValue fl (fuel + 1) (nullWord ++ rest) = some (.null, rest) := by
  have found := word_prefix fl nullWord .null rest
  rw [nullWord, List.cons_append] at found ⊢
  rw [readValue_plain fl fuel _ (by decide), nullWord, found]
  rfl

theorem readValue_bool (fl : Floats) (fuel : ℕ) (b : Bool) (rest : List Char) :
    readValue fl (fuel + 1) ((if b then trueWord else falseWord) ++ rest) =
      some (.bool b, rest) := by
  cases b with
  | true =>
    have found := word_prefix fl trueWord (.bool true) rest
    rw [if_pos rfl]
    rw [trueWord, List.cons_append] at found ⊢
    rw [readValue_plain fl fuel _ (by decide), nullWord, word_other fl (by decide), trueWord, found]
    rfl
  | false =>
    have found := word_prefix fl falseWord (.bool false) rest
    rw [if_neg (by decide)]
    rw [falseWord, List.cons_append] at found ⊢
    rw [readValue_plain fl fuel _ (by decide), nullWord, word_other fl (by decide), trueWord,
      word_other fl (by decide), falseWord, found]
    rfl

theorem readValue_nan (fl : Floats) (fuel : ℕ) (rest : List Char) :
    readValue fl (fuel + 1) (nanWord ++ rest) = some (.nan, rest) := by
  have found := word_prefix fl nanWord .nan rest
  rw [nanWord, List.cons_append] at found ⊢
  rw [readValue_late fl fuel _ (by decide) (by decide), readNumber_letter fl _ (by decide), nanWord,
    found]
  rfl

theorem readValue_infinity (fl : Floats) (fuel : ℕ) (negative : Bool) (rest : List Char) :
    readValue fl (fuel + 1) ((if negative then ['-'] else []) ++ infinityWord ++ rest) =
      some (.infinity negative, rest) := by
  cases negative with
  | false =>
    have found := word_prefix fl infinityWord (.infinity false) rest
    rw [if_neg (by decide), List.nil_append]
    rw [infinityWord, List.cons_append] at found ⊢
    rw [readValue_late fl fuel _ (by decide) (by decide), readNumber_letter fl _ (by decide),
      nanWord, word_other fl (by decide), infinityWord, found]
    rfl
  | true =>
    have found := word_prefix fl ('-' :: infinityWord) (.infinity true) rest
    have unread : readNumber fl ('-' :: (infinityWord ++ rest)) = none := by
      simp [readNumber, signPart, wholePart, infinityWord]
    rw [if_pos rfl, List.append_assoc, List.singleton_append]
    rw [List.cons_append] at found
    rw [readValue_late fl fuel _ (by decide) (by decide), unread, nanWord,
      word_other fl (by decide), infinityWord, word_other fl (by decide)]
    exact congrArg (none <|> none <|> none <|> ·) found

theorem stops_comma {style : Style} (plain : style.Plain) (rest : List Char) :
    Stops (style.comma ++ rest) := by
  obtain ⟨blanks, shape, -⟩ := plain.comma
  rw [shape]
  intro c member
  cases member
  decide

theorem stops_items {fl : Floats} {style : Style} (plain : style.Plain)
    (items : List (Json fl.Carrier)) (rest : List Char) :
    Stops (writeItems fl style items ++ rest) := by
  cases items with
  | nil => simp [Stops, writeItems]
  | cons v later =>
    rw [writeItems, List.append_assoc, List.append_assoc]
    exact stops_comma plain _

theorem stops_members {fl : Floats} {style : Style} (plain : style.Plain)
    (members : List (String × Json fl.Carrier)) (rest : List Char) :
    Stops (writeMembers fl style members ++ rest) := by
  cases members with
  | nil => simp [Stops, writeMembers]
  | cons m later =>
    rw [writeMembers]
    simp only [List.append_assoc]
    exact stops_comma plain _

theorem readText_key (k : String) (rest : List Char) :
    quoted k ++ rest = '"' :: (k.toList.flatMap escape ++ '"' :: rest) := by
  simp [quoted]

theorem skip_opens {blanks text : List Char} (all : ∀ c ∈ blanks, blank c) (opens : Opens text)
    (rest : List Char) : skip (blanks ++ (text ++ rest)) = text ++ rest := by
  rw [skip_blanks all, opens.skip]

theorem write_length (fl : Floats) (style : Style) (v : Json fl.Carrier) :
    0 < (write fl style v).length := by
  obtain ⟨c, later, shape, -⟩ := write_opens fl style v
  simp [shape]

theorem writeItems_length (fl : Floats) (style : Style) (items : List (Json fl.Carrier)) :
    0 < (writeItems fl style items).length := by
  cases items with
  | nil => simp [writeItems]
  | cons v later =>
    have := writeItems_length fl style later
    simp only [writeItems, List.length_append]
    omega

theorem writeMembers_length (fl : Floats) (style : Style)
    (members : List (String × Json fl.Carrier)) : 0 < (writeMembers fl style members).length := by
  cases members with
  | nil => simp [writeMembers]
  | cons m later =>
    have := writeMembers_length fl style later
    simp only [writeMembers, List.length_append]
    omega

/-- The text of a nonempty array after its opening bracket. -/
def itemsText (fl : Floats) (style : Style) : List (Json fl.Carrier) → List Char
  | [] => []
  | v :: later => write fl style v ++ writeItems fl style later

def membersText (fl : Floats) (style : Style) : List (String × Json fl.Carrier) → List Char
  | [] => []
  | (k, v) :: later => quoted k ++ style.colon ++ write fl style v ++ writeMembers fl style later

theorem skip_cons {c : Char} (rest : List Char) (plain : blank c = false) :
    skip (c :: rest) = c :: rest := by
  simp [skip, plain]

theorem quoted_opens (k : String) : Opens (quoted k) := ⟨'"', _, rfl, by decide⟩

mutual

/-- Enough fuel reads a written value and leaves what follows it. -/
theorem readValue_write (fl : Floats) {style : Style} (plain : style.Plain) :
    ∀ (v : Json fl.Carrier) (fuel : ℕ) (rest : List Char), v.Distinct → Stops rest →
      (write fl style v).length ≤ fuel + 1 →
      readValue fl (fuel + 1) (write fl style v ++ rest) = some (v, rest)
  | .null, fuel, rest, _, _, _ => readValue_null fl fuel rest
  | .bool b, fuel, rest, _, _, _ => readValue_bool fl fuel b rest
  | .int n, fuel, rest, _, stop, _ => readValue_number fuel (readNumber_integer fl n stop)
  | .float x, fuel, rest, _, stop, _ => by
    have number := readNumber_literal fl (fl.repr x) stop
    rw [fl.exact] at number
    exact readValue_number fuel number
  | .nan, fuel, rest, _, _, _ => readValue_nan fl fuel rest
  | .infinity negative, fuel, rest, _, _, _ => readValue_infinity fl fuel negative rest
  | .string s, fuel, rest, _, _, _ => by
    simp only [write, readText_key, readValue, readText_quoted, Option.map_some]
  | .array [], fuel, rest, _, _, _ => by simp [write, readValue, skip, blank]
  | .array (v :: later), fuel, rest, distinct, _, long => by
    have inner : readItems fl fuel (write fl style v ++ (writeItems fl style later ++ rest)) =
        some (v :: later, rest) := by
      have read := readItems_write fl plain (v :: later) fuel rest (by simp) distinct
        (by simpa [write, itemsText] using long)
      simpa [itemsText] using read
    obtain ⟨c, tail, shape, visible, bracket, -⟩ := write_opens fl style v
    simp only [write, List.cons_append, List.append_assoc, readValue]
    rw [shape, List.cons_append] at inner ⊢
    rw [skip_cons _ visible]
    split
    next same => exact absurd (List.cons.inj same).1 bracket
    next => rw [inner]; rfl
  | .object [], fuel, rest, _, _, _ => by simp [write, readValue, skip, blank]
  | .object ((k, v) :: later), fuel, rest, distinct, _, long => by
    have inner : readMembers fl fuel (membersText fl style ((k, v) :: later) ++ rest) =
        some ((k, v) :: later, rest) :=
      readMembers_write fl plain ((k, v) :: later) fuel rest (by simp) distinct.2
        (by simpa [write, membersText] using long)
    have kept : (Dict.ofList ((k, v) :: later)).entries = (k, v) :: later :=
      Dict.ofList_entries distinct.1
    simp only [write, membersText, List.cons_append, List.append_assoc, readValue] at inner ⊢
    rw [readText_key] at inner ⊢
    rw [skip_cons _ (by decide)]
    split
    next same => exact absurd (List.cons.inj same).1 (by decide)
    next => rw [inner, Option.map_some, kept]

theorem readItems_write (fl : Floats) {style : Style} (plain : style.Plain) :
    ∀ (items : List (Json fl.Carrier)) (fuel : ℕ) (rest : List Char), items ≠ [] →
      DistinctItems items → (itemsText fl style items).length ≤ fuel →
      readItems fl fuel (itemsText fl style items ++ rest) = some (items, rest)
  | [], _, _, nonempty, _, _ => absurd rfl nonempty
  | v :: later, fuel, rest, _, distinct, long => by
    have first := write_length fl style v
    have last := writeItems_length fl style later
    simp only [itemsText, List.length_append] at long
    obtain ⟨depth, rfl⟩ : ∃ depth, fuel = depth + 2 := ⟨fuel - 2, by omega⟩
    have head := readValue_write fl plain v depth (writeItems fl style later ++ rest) distinct.1
      (stops_items plain later rest) (by omega)
    rw [readItems]
    simp only [itemsText, List.append_assoc, head]
    cases later with
    | nil => simp [writeItems, skip, blank]
    | cons w more =>
      obtain ⟨blanks, comma, all⟩ := plain.comma
      have tail := readItems_write fl plain (w :: more) (depth + 1) rest (by simp) distinct.2
        (by simp only [writeItems, itemsText, List.length_append] at long ⊢; omega)
      simp only [itemsText, List.append_assoc] at tail
      simp only [writeItems, comma, List.cons_append, List.append_assoc]
      rw [skip_cons _ (by decide)]
      simp only [skip_opens all (write_opens fl style w), tail, Option.map_some]

theorem readMembers_write (fl : Floats) {style : Style} (plain : style.Plain) :
    ∀ (members : List (String × Json fl.Carrier)) (fuel : ℕ) (rest : List Char), members ≠ [] →
      DistinctMembers members → (membersText fl style members).length ≤ fuel →
      readMembers fl fuel (membersText fl style members ++ rest) = some (members, rest)
  | [], _, _, nonempty, _, _ => absurd rfl nonempty
  | (k, v) :: later, fuel, rest, _, distinct, long => by
    obtain ⟨colonBlanks, colon, colonAll⟩ := plain.colon
    have first := write_length fl style v
    have last := writeMembers_length fl style later
    simp only [membersText, colon, List.length_append, List.length_cons] at long
    obtain ⟨depth, rfl⟩ : ∃ depth, fuel = depth + 2 := ⟨fuel - 2, by omega⟩
    have head := readValue_write fl plain v depth (writeMembers fl style later ++ rest) distinct.1
      (stops_members plain later rest) (by omega)
    simp only [membersText, List.append_assoc]
    rw [readText_key, readMembers, readText_quoted, colon, List.cons_append]
    dsimp only
    rw [skip_cons _ (by decide)]
    simp only [skip_opens colonAll (write_opens fl style v), head]
    cases later with
    | nil => simp [writeMembers, skip, blank]
    | cons m more =>
      obtain ⟨l, w⟩ := m
      obtain ⟨blanks, comma, all⟩ := plain.comma
      have tail := readMembers_write fl plain ((l, w) :: more) (depth + 1) rest (by simp) distinct.2
        (by simp only [writeMembers, membersText, List.length_append] at long ⊢; omega)
      simp only [membersText, List.append_assoc] at tail
      simp only [writeMembers, comma, List.cons_append, List.append_assoc]
      rw [skip_cons _ (by decide)]
      simp only [skip_opens all (quoted_opens l), tail, Option.map_some]

end

/-- Reading a written value gives it back. -/
theorem read_write (fl : Floats) {style : Style} (plain : style.Plain) {v : Json fl.Carrier}
    (distinct : v.Distinct) : read fl (write fl style v) = some v := by
  have whole := readValue_write fl plain v (write fl style v).length [] distinct Stops.nil
    (by omega)
  have start := (write_opens fl style v).skip []
  rw [List.append_nil] at whole start
  simp only [read, start, whole]
  rfl

/-! ## Canonical order -/

mutual

/-- The same value but for the order of members, as dictionaries compare. -/
def Same {F : Type} : Json F → Json F → Prop
  | .array items, .array others => SameItems items others
  | .object members, .object others => ∃ ordered, ordered.Perm others ∧ SameMembers members ordered
  | v, w => v = w

def SameItems {F : Type} : List (Json F) → List (Json F) → Prop
  | [], [] => True
  | v :: rest, w :: others => Same v w ∧ SameItems rest others
  | _, _ => False

def SameMembers {F : Type} : List (String × Json F) → List (String × Json F) → Prop
  | [], [] => True
  | (k, v) :: rest, (l, w) :: others => k = l ∧ Same v w ∧ SameMembers rest others
  | _, _ => False

end

mutual

/-- Putting members in order changes no value. -/
theorem same_sorted {F : Type} : ∀ v : Json F, Same v (sorted v)
  | .null | .bool _ | .int _ | .float _ | .nan | .infinity _ | .string _ => rfl
  | .array items => same_sortedItems items
  | .object members =>
    ⟨sortedMembers members, (List.perm_insertionSort _ _).symm, same_sortedMembers members⟩

theorem same_sortedItems {F : Type} : ∀ items : List (Json F), SameItems items (sortedItems items)
  | [] => trivial
  | v :: rest => ⟨same_sorted v, same_sortedItems rest⟩

theorem same_sortedMembers {F : Type} :
    ∀ members : List (String × Json F), SameMembers members (sortedMembers members)
  | [] => trivial
  | (_, v) :: rest => ⟨rfl, same_sorted v, same_sortedMembers rest⟩

end

theorem sortedMembers_keys {F : Type} (members : List (String × Json F)) :
    (sortedMembers members).map Prod.fst = members.map Prod.fst := by
  induction members with
  | nil => rfl
  | cons m rest ih => simp [sortedMembers, ih]

theorem distinctMembers_iff {F : Type} {members : List (String × Json F)} :
    DistinctMembers members ↔ ∀ m ∈ members, Distinct m.2 := by
  induction members with
  | nil => simp [DistinctMembers]
  | cons m rest ih => simp [DistinctMembers, ih]

mutual

theorem sorted_distinct {F : Type} : ∀ {v : Json F}, v.Distinct → (sorted v).Distinct
  | .null, _ | .bool _, _ | .int _, _ | .float _, _ | .nan, _ | .infinity _, _ | .string _, _ =>
    trivial
  | .array _, distinct => sortedItems_distinct distinct
  | .object members, distinct => by
    have order := List.perm_insertionSort (fun a b : String × Json F => a.1 ≤ b.1)
      (sortedMembers members)
    refine ⟨?_, distinctMembers_iff.mpr fun m member => ?_⟩
    · rw [(order.map Prod.fst).nodup_iff, sortedMembers_keys]
      exact distinct.1
    · exact distinctMembers_iff.mp (sortedMembers_distinct distinct.2) m (order.subset member)

theorem sortedItems_distinct {F : Type} :
    ∀ {items : List (Json F)}, DistinctItems items → DistinctItems (sortedItems items)
  | [], _ => trivial
  | _ :: _, distinct => ⟨sorted_distinct distinct.1, sortedItems_distinct distinct.2⟩

theorem sortedMembers_distinct {F : Type} :
    ∀ {members : List (String × Json F)}, DistinctMembers members →
      DistinctMembers (sortedMembers members)
  | [], _ => trivial
  | _ :: _, distinct => ⟨sorted_distinct distinct.1, sortedMembers_distinct distinct.2⟩

end

/-- Members with distinct keys have one order by key. -/
theorem insertionSort_congr {F : Type} {members others : List (String × Json F)}
    (distinct : (members.map Prod.fst).Nodup) (same : members.Perm others) :
    members.insertionSort (fun a b => a.1 ≤ b.1) = others.insertionSort fun a b => a.1 ≤ b.1 := by
  let before (a b : String × Json F) : Prop := a.1 ≤ b.1
  have total : Std.Total before := ⟨fun a b => le_total a.1 b.1⟩
  have trans : IsTrans _ before := ⟨fun _ _ _ => le_trans⟩
  have order := List.perm_insertionSort before members
  have order' := List.perm_insertionSort before others
  refine @List.Perm.eq_of_pairwise _ before _ _ (fun a b left right ab ba => ?_)
    (List.pairwise_insertionSort before members) (List.pairwise_insertionSort before others)
    (order.trans (same.trans order'.symm))
  have here : a ∈ members := order.subset left
  have there : b ∈ members := same.symm.subset (order'.subset right)
  exact List.inj_on_of_nodup_map distinct here there (le_antisymm ab ba)

theorem sameMembers_keys {F : Type} :
    ∀ {members others : List (String × Json F)}, SameMembers members others →
      members.map Prod.fst = others.map Prod.fst
  | [], [], _ => rfl
  | (_, _) :: _, (_, _) :: _, same => by
    simp [same.1, sameMembers_keys same.2.2]

theorem sortedMembers_perm {F : Type} {members others : List (String × Json F)}
    (same : members.Perm others) : (sortedMembers members).Perm (sortedMembers others) := by
  have each (l : List (String × Json F)) : sortedMembers l = l.map fun m => (m.1, sorted m.2) := by
    induction l with
    | nil => rfl
    | cons m rest ih => rw [sortedMembers, ih]; rfl
  rw [each, each]
  exact same.map _

mutual

/-- Values that compare equal have one canonical form. -/
theorem sorted_congr {F : Type} :
    ∀ {v w : Json F}, v.Distinct → Same v w → sorted v = sorted w
  | .null, w, _, same | .bool _, w, _, same | .int _, w, _, same | .float _, w, _, same
  | .nan, w, _, same | .infinity _, w, _, same | .string _, w, _, same => by
    cases w <;> simp_all [Same]
  | .array items, w, distinct, same => by
    cases w with
    | array others =>
      rw [sorted, sorted, sortedItems_congr distinct same]
    | _ => simp [Same] at same
  | .object members, w, distinct, same => by
    cases w with
    | object others =>
      obtain ⟨between, order, each⟩ := same
      rw [sorted, sorted, sortedMembers_congr distinct.2 each]
      refine congrArg object (insertionSort_congr ?_ (sortedMembers_perm order))
      rw [sortedMembers_keys, ← sameMembers_keys each]
      exact distinct.1
    | _ => simp [Same] at same

theorem sortedItems_congr {F : Type} :
    ∀ {items others : List (Json F)}, DistinctItems items → SameItems items others →
      sortedItems items = sortedItems others
  | [], [], _, _ => rfl
  | _ :: _, _ :: _, distinct, same => by
    rw [sortedItems, sortedItems, sorted_congr distinct.1 same.1,
      sortedItems_congr distinct.2 same.2]

theorem sortedMembers_congr {F : Type} :
    ∀ {members others : List (String × Json F)}, DistinctMembers members →
      SameMembers members others → sortedMembers members = sortedMembers others
  | [], [], _, _ => rfl
  | (_, _) :: _, (_, _) :: _, distinct, same => by
    rw [sortedMembers, sortedMembers, same.1, sorted_congr distinct.1 same.2.1,
      sortedMembers_congr distinct.2 same.2.2]

end

end Json
