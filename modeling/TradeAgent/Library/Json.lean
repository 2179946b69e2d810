import Mathlib.Data.List.Sort
import TradeAgent.Library.Dict

/-! JSON values of a dynamic language, the text its writer produces and the reader for it.
Integers are unbounded; floating-point numbers are a parameter, known by the literal each
is written as and by how a literal is read back. Objects keep the order of their members. -/

/-- The literal of a floating-point number: a fraction or an exponent tells it from an integer. -/
structure Literal where
  negative : Bool
  whole : List Char
  fraction : List Char
  exponent : List Char
  plain : whole = ['0'] ∨ ∃ d ds, whole = d :: ds ∧ d ≠ '0'
  digits : ∀ c ∈ whole ++ fraction, c.isDigit
  power : exponent = [] ∨ ∃ ds, ds ≠ [] ∧ (∀ c ∈ ds, c.isDigit) ∧
    (exponent = 'e' :: '+' :: ds ∨ exponent = 'e' :: '-' :: ds)
  broken : fraction ≠ [] ∨ exponent ≠ []

namespace Literal

def point : List Char → List Char
  | [] => []
  | ds => '.' :: ds

def text (l : Literal) : List Char :=
  (if l.negative then ['-'] else []) ++ l.whole ++ point l.fraction ++ l.exponent

end Literal

/-- Finite floating-point numbers: the shortest literal of one is read back as it. -/
structure Floats where
  Carrier : Type
  repr : Carrier → Literal
  read : List Char → Carrier
  exact : ∀ x, read (repr x).text = x

inductive Json (F : Type) where
  | null
  | bool (b : Bool)
  | int (n : ℤ)
  | float (x : F)
  | nan
  | infinity (negative : Bool)
  | string (s : String)
  | array (items : List (Json F))
  | object (members : List (String × Json F))

namespace Json

mutual

/-- The keys of every object are distinct. -/
def Distinct {F : Type} : Json F → Prop
  | .array items => DistinctItems items
  | .object members => (members.map Prod.fst).Nodup ∧ DistinctMembers members
  | _ => True

def DistinctItems {F : Type} : List (Json F) → Prop
  | [] => True
  | v :: rest => Distinct v ∧ DistinctItems rest

def DistinctMembers {F : Type} : List (String × Json F) → Prop
  | [] => True
  | (_, v) :: rest => Distinct v ∧ DistinctMembers rest

end

/-! ## Writing -/

/-- The separators a writer puts between items and after a key. -/
structure Style where
  comma : List Char
  colon : List Char

def spaced : Style := ⟨[',', ' '], [':', ' ']⟩

def compact : Style := ⟨[','], [':']⟩

def nullWord := ['n', 'u', 'l', 'l']

def trueWord := ['t', 'r', 'u', 'e']

def falseWord := ['f', 'a', 'l', 's', 'e']

def nanWord := ['N', 'a', 'N']

def infinityWord := ['I', 'n', 'f', 'i', 'n', 'i', 't', 'y']

def integer : ℤ → List Char
  | .ofNat n => Nat.toDigits 10 n
  | .negSucc n => '-' :: Nat.toDigits 10 (n + 1)

/-- A UTF-16 code unit as four lower-case hexadecimal digits. -/
def hex (unit : ℕ) : List Char :=
  ['\\', 'u', (unit / 4096 % 16).digitChar, (unit / 256 % 16).digitChar,
    (unit / 16 % 16).digitChar, (unit % 16).digitChar]

/-- The code units of a character: one, or a pair of surrogates past the basic plane. -/
def units (c : Char) : List ℕ :=
  if c.toNat < 0x10000 then [c.toNat]
  else [0xd800 + (c.toNat - 0x10000) / 0x400, 0xdc00 + (c.toNat - 0x10000) % 0x400]

def escape (c : Char) : List Char :=
  if c = '"' then ['\\', '"']
  else if c = '\\' then ['\\', '\\']
  else if c = '\n' then ['\\', 'n']
  else if c = '\r' then ['\\', 'r']
  else if c = '\t' then ['\\', 't']
  else if c.toNat = 0x0c then ['\\', 'f']
  else if c.toNat = 0x08 then ['\\', 'b']
  else if 0x20 ≤ c.toNat ∧ c.toNat ≤ 0x7e then [c]
  else (units c).flatMap hex

def quoted (s : String) : List Char := '"' :: s.toList.flatMap escape ++ ['"']

section Writer

variable (fl : Floats) (style : Style)

mutual

def write : Json fl.Carrier → List Char
  | .null => nullWord
  | .bool b => if b then trueWord else falseWord
  | .int n => integer n
  | .float x => (fl.repr x).text
  | .nan => nanWord
  | .infinity negative => (if negative then ['-'] else []) ++ infinityWord
  | .string s => quoted s
  | .array [] => ['[', ']']
  | .array (v :: rest) => '[' :: write v ++ writeItems rest
  | .object [] => ['{', '}']
  | .object ((k, v) :: rest) => '{' :: quoted k ++ style.colon ++ write v ++ writeMembers rest

def writeItems : List (Json fl.Carrier) → List Char
  | [] => [']']
  | v :: rest => style.comma ++ write v ++ writeItems rest

def writeMembers : List (String × Json fl.Carrier) → List Char
  | [] => ['}']
  | (k, v) :: rest =>
    style.comma ++ quoted k ++ style.colon ++ write v ++ writeMembers rest

end

end Writer

mutual

/-- Every object's members in the order of their keys. -/
def sorted {F : Type} : Json F → Json F
  | .array items => .array (sortedItems items)
  | .object members =>
    .object ((sortedMembers members).insertionSort fun a b => a.1 ≤ b.1)
  | v => v

def sortedItems {F : Type} : List (Json F) → List (Json F)
  | [] => []
  | v :: rest => sorted v :: sortedItems rest

def sortedMembers {F : Type} : List (String × Json F) → List (String × Json F)
  | [] => []
  | (k, v) :: rest => (k, sorted v) :: sortedMembers rest

end

/-! ## Reading -/

def blank (c : Char) : Bool := c = ' ' || c = '\t' || c = '\n' || c = '\r'

def skip (text : List Char) : List Char := text.dropWhile blank

def hexValue (c : Char) : Option ℕ :=
  if '0' ≤ c ∧ c ≤ '9' then some (c.toNat - 48)
  else if 'a' ≤ c ∧ c ≤ 'f' then some (c.toNat - 87)
  else if 'A' ≤ c ∧ c ≤ 'F' then some (c.toNat - 55)
  else none

def unescape (c : Char) : Option ℕ :=
  if c = '"' ∨ c = '\\' ∨ c = '/' then some c.toNat
  else if c = 'b' then some 0x08
  else if c = 'f' then some 0x0c
  else if c = 'n' then some 0x0a
  else if c = 'r' then some 0x0d
  else if c = 't' then some 0x09
  else none

/-- The code units up to the closing quote, and the text after it. -/
def scan : List Char → Option (List ℕ × List Char)
  | [] => none
  | '"' :: rest => some ([], rest)
  | '\\' :: 'u' :: a :: b :: c :: d :: rest => do
    let unit := 4096 * (← hexValue a) + 256 * (← hexValue b) + 16 * (← hexValue c) + (← hexValue d)
    let (found, after) ← scan rest
    return (unit :: found, after)
  | '\\' :: c :: rest => do
    let unit ← unescape c
    let (found, after) ← scan rest
    return (unit :: found, after)
  | c :: rest =>
    if c.toNat < 0x20 then none
    else do
      let (found, after) ← scan rest
      return (c.toNat :: found, after)

def high (unit : ℕ) : Bool := 0xd800 ≤ unit && unit ≤ 0xdbff

def low (unit : ℕ) : Bool := 0xdc00 ≤ unit && unit ≤ 0xdfff

/-- Characters of code units; a surrogate without its partner is no character. -/
def join : List ℕ → Option (List Char)
  | [] => some []
  | [unit] => if high unit || low unit then none else some [Char.ofNat unit]
  | first :: second :: rest =>
    if high first && low second then
      (join rest).map (Char.ofNat (0x10000 + (first - 0xd800) * 0x400 + (second - 0xdc00)) :: ·)
    else if high first || low first then none
    else (join (second :: rest)).map (Char.ofNat first :: ·)

/-- A string, its opening quote already taken. -/
def readText (text : List Char) : Option (String × List Char) := do
  let (found, after) ← scan text
  return (String.ofList (← join found), after)

def wholePart : List Char → Option (List Char × List Char)
  | '0' :: rest => some (['0'], rest)
  | c :: rest => if c.isDigit then some ((c :: rest).span Char.isDigit) else none
  | [] => none

def fractionPart : List Char → List Char × List Char
  | '.' :: rest =>
    match rest.span Char.isDigit with
    | ([], _) => ([], '.' :: rest)
    | (ds, after) => ('.' :: ds, after)
  | text => ([], text)

def exponentSign : List Char → List Char × List Char
  | '+' :: rest => (['+'], rest)
  | '-' :: rest => (['-'], rest)
  | text => ([], text)

def exponentPart : List Char → List Char × List Char
  | c :: rest =>
    if c = 'e' ∨ c = 'E' then
      match (exponentSign rest).2.span Char.isDigit with
      | ([], _) => ([], c :: rest)
      | (ds, after) => (c :: (exponentSign rest).1 ++ ds, after)
    else ([], c :: rest)
  | [] => ([], [])

def signPart : List Char → Bool × List Char
  | '-' :: rest => (true, rest)
  | text => (false, text)

section Reader

variable (fl : Floats)

/-- The longest number at the head of a text; with no fraction and no exponent an integer. -/
def readNumber (text : List Char) : Option (Json fl.Carrier × List Char) := do
  let (negative, body) := signPart text
  let (whole, afterWhole) ← wholePart body
  let (fraction, afterFraction) := fractionPart afterWhole
  let (exponent, rest) := exponentPart afterFraction
  if fraction = [] ∧ exponent = [] then
    let n : ℤ := Nat.ofDigitChars 10 whole 0
    return (.int (if negative then -n else n), rest)
  else
    return (.float (fl.read ((if negative then ['-'] else []) ++ whole ++ fraction ++ exponent)),
      rest)

def word (expected : List Char) (value : Json fl.Carrier) (text : List Char) :
    Option (Json fl.Carrier × List Char) :=
  if expected <+: text then some (value, text.drop expected.length) else none

mutual

/-- A value at the head of a text. Later members replace earlier ones of their key. -/
def readValue : ℕ → List Char → Option (Json fl.Carrier × List Char)
  | 0, _ => none
  | fuel + 1, text =>
    match text with
    | '"' :: rest => (readText rest).map fun (s, after) => (.string s, after)
    | '{' :: rest =>
      match skip rest with
      | '}' :: after => some (.object [], after)
      | rest => (readMembers fuel rest).map fun (members, after) =>
          (.object (Dict.ofList members).entries, after)
    | '[' :: rest =>
      match skip rest with
      | ']' :: after => some (.array [], after)
      | rest => (readItems fuel rest).map fun (items, after) => (.array items, after)
    | text =>
      word fl nullWord .null text <|> word fl trueWord (.bool true) text <|>
      word fl falseWord (.bool false) text <|> readNumber fl text <|>
      word fl nanWord .nan text <|> word fl infinityWord (.infinity false) text <|>
      word fl ('-' :: infinityWord) (.infinity true) text

def readItems : ℕ → List Char → Option (List (Json fl.Carrier) × List Char)
  | 0, _ => none
  | fuel + 1, text =>
    match readValue fuel text with
    | none => none
    | some (v, after) =>
      match skip after with
      | ']' :: rest => some ([v], rest)
      | ',' :: rest => (readItems fuel (skip rest)).map fun (vs, rest) => (v :: vs, rest)
      | _ => none

def readMembers : ℕ → List Char → Option (List (String × Json fl.Carrier) × List Char)
  | 0, _ => none
  | fuel + 1, text =>
    match text with
    | '"' :: rest =>
      match readText rest with
      | none => none
      | some (k, after) =>
        match skip after with
        | ':' :: rest =>
          match readValue fuel (skip rest) with
          | none => none
          | some (v, after) =>
            match skip after with
            | '}' :: rest => some ([(k, v)], rest)
            | ',' :: rest =>
              (readMembers fuel (skip rest)).map fun (ms, rest) => ((k, v) :: ms, rest)
            | _ => none
        | _ => none
    | _ => none

end

/-- The value a whole text denotes; every nested value uses up a character of it. -/
def read (text : List Char) : Option (Json fl.Carrier) :=
  match readValue fl (text.length + 1) (skip text) with
  | some (v, rest) => if skip rest = [] then some v else none
  | none => none

end Reader

end Json
