import Mathlib.Algebra.Order.Ring.Rat
import Mathlib.Tactic.Linarith

/-! Finite decimal numbers as written: a sign, a coefficient and an exponent of ten.
Two numerals may denote one value and still print differently, so both the value and
the fixed-point text are functions of the representation. -/

structure Numeral where
  negative : Bool
  coefficient : ℕ
  exponent : ℤ
  deriving DecidableEq, Repr

namespace Numeral

def scale (coefficient : ℕ) : ℤ → ℚ
  | .ofNat e => coefficient * 10 ^ e
  | .negSucc e => coefficient / 10 ^ (e + 1)

def value (d : Numeral) : ℚ :=
  if d.negative then -scale d.coefficient d.exponent else scale d.coefficient d.exponent

def ofInt (n : ℤ) : Numeral := ⟨decide (n < 0), n.natAbs, 0⟩

/-- Decimal digits of a natural number, most significant first. -/
def digits (n : ℕ) : List Char := Nat.toDigits 10 n

def zeros (n : ℕ) : List Char := List.replicate n '0'

/-- Fixed-point text without exponent, every stored digit kept. -/
def fixed (d : Numeral) : List Char :=
  let whole := digits d.coefficient
  let body := match d.exponent with
    | .ofNat e => if d.coefficient = 0 then ['0'] else whole ++ zeros e
    | .negSucc e =>
      let places := e + 1
      let padded := zeros (places + 1 - whole.length) ++ whole
      padded.take (padded.length - places) ++ '.' :: padded.drop (padded.length - places)
  if d.negative then '-' :: body else body

/-- What a decimal constructor reads: a finite numeral, or an infinity or NaN. -/
inductive Reading where
  | finite (d : Numeral)
  | special
  deriving DecidableEq, Repr

def isDigit (c : Char) : Bool := '0' ≤ c && c ≤ '9'

def natural (ds : List Char) : ℕ := ds.foldl (fun n c => 10 * n + (c.toNat - 48)) 0

def isSpace (c : Char) : Bool := c = ' ' || ('\t' ≤ c && c ≤ '\r') || ('\x1c' ≤ c && c ≤ '\x1f')

def strip (text : List Char) : List Char :=
  ((text.dropWhile isSpace).reverse.dropWhile isSpace).reverse

def sign : List Char → Bool × List Char
  | '-' :: rest => (true, rest)
  | '+' :: rest => (false, rest)
  | rest => (false, rest)

/-- An exponent part, or nothing; anything else is no numeral. -/
def exponentPart : List Char → Option ℤ
  | [] => some 0
  | c :: rest =>
    if c = 'e' ∨ c = 'E' then
      let (negative, ds) := sign rest
      if ds ≠ [] ∧ ds.all isDigit then some (if negative then -(natural ds : ℤ) else natural ds)
      else none
    else none

def isSpecial (text : List Char) : Bool :=
  let word := text.map Char.toLower
  word = "inf".toList || word = "infinity".toList ||
    (word.take 3 = "nan".toList && (word.drop 3).all isDigit) ||
    (word.take 4 = "snan".toList && (word.drop 4).all isDigit)

/-- Text to decimal: surrounding blanks and underscores are ignored. -/
def read (text : List Char) : Option Reading :=
  let (negative, body) := sign ((strip text).filter (· ≠ '_'))
  if isSpecial body then some .special
  else
    let whole := body.takeWhile isDigit
    let afterWhole := body.dropWhile isDigit
    let (fraction, rest) := match afterWhole with
      | '.' :: tail => (tail.takeWhile isDigit, tail.dropWhile isDigit)
      | _ => ([], afterWhole)
    if whole ++ fraction = [] then none
    else (exponentPart rest).map fun e =>
      .finite ⟨negative, natural (whole ++ fraction), e - fraction.length⟩

end Numeral
