import Mathlib.Data.List.Basic
import Mathlib.Data.Nat.Notation

/-! Regular expressions as a backtracking matcher reads them: alternatives in order, repetitions greedy or
lazy, the leftmost match first. What counts as a digit, a blank or a letter, and which characters are alike
when case is ignored, is left to the alphabet. -/
namespace TradeAgent

structure Alphabet where
  /-- The value of a decimal digit. -/
  decimal : Char → Option ℕ
  space : Char → Bool
  word : Char → Bool
  /-- Whether a character of an expression accepts one of the text. -/
  alike : Char → Char → Bool

inductive Regex where
  | empty
  | char (expected : Char)
  | digit
  | space
  | any
  | oneOf (characters : List Char)
  | noneOf (characters : List Char)
  | boundary
  | ending
  | seq (first second : Regex)
  | alt (first second : Regex)
  | times (least more : ℕ) (greedy : Bool) (body : Regex)
  | many (least : ℕ) (body : Regex)
  | group (name : String) (body : Regex)
  | ahead (body : Regex)
  deriving DecidableEq

namespace Regex

section writing

/-- A word, letter by letter. -/
def literal (text : String) : Regex := text.toList.foldr (fun c rest => seq (char c) rest) empty

def sequence (parts : List Regex) : Regex := parts.foldr seq empty

/-- One of several, the first that matches. -/
def choice : List Regex → Regex
  | [] => noneOf []
  | [last] => last
  | first :: rest => alt first (choice rest)

def words (texts : List String) : Regex := choice (texts.map literal)

def optional (body : Regex) : Regex := times 0 1 true body

end writing

/-- A place in the text, and what the groups caught on the way to it, the latest first. -/
structure Cursor where
  previous : Option Char
  rest : List Char
  position : ℕ
  groups : List (String × List Char)

namespace Cursor

def start (text : List Char) : Cursor := ⟨none, text, 0, []⟩

/-- Past the next character, if it passes the test. -/
def past (s : Cursor) (test : Char → Bool) : Option Cursor :=
  match s.rest with
  | c :: rest => if test c then some { s with previous := some c, rest := rest, position := s.position + 1 } else none
  | [] => none

/-- The text between two places. -/
def textUntil (s next : Cursor) : List Char := s.rest.take (next.position - s.position)

def group? (s : Cursor) (name : String) : Option (List Char) := (s.groups.find? (·.1 = name)).map Prod.snd

end Cursor

/-- The rest of a match, from a place on. -/
abbrev Rest := Cursor → Option Cursor

section matching

/-- Up to so many turns of a body. A turn that takes nothing ends them. -/
def upTo (body : Cursor → Rest → Option Cursor) (greedy : Bool) : ℕ → Cursor → Rest → Option Cursor
  | 0, s, k => k s
  | more + 1, s, k =>
    let again := fun next => if next.position = s.position then none else upTo body greedy more next k
    if greedy then
      match body s again with
      | some found => some found
      | none => k s
    else
      match k s with
      | some found => some found
      | none => body s again

def exactly (body : Cursor → Rest → Option Cursor) : ℕ → Cursor → Rest → Option Cursor
  | 0, s, k => k s
  | n + 1, s, k => body s fun next => exactly body n next k

variable (a : Alphabet)

/-- A match of an expression from a place on that the rest of the match accepts. -/
def run : Regex → Cursor → Rest → Option Cursor
  | empty, s, k => k s
  | char expected, s, k => (s.past (a.alike expected)).bind k
  | digit, s, k => (s.past fun c => (a.decimal c).isSome).bind k
  | space, s, k => (s.past a.space).bind k
  | any, s, k => (s.past (· ≠ '\n')).bind k
  | oneOf characters, s, k => (s.past (· ∈ characters)).bind k
  | noneOf characters, s, k => (s.past (· ∉ characters)).bind k
  | boundary, s, k => if s.previous.any a.word = s.rest.head?.any a.word then none else k s
  | ending, s, k => if s.rest = [] ∨ s.rest = ['\n'] then k s else none
  | seq first second, s, k => run first s fun next => run second next k
  | alt first second, s, k =>
    match run first s k with
    | some found => some found
    | none => run second s k
  | times least more greedy body, s, k => exactly (run body) least s fun next => upTo (run body) greedy more next k
  | many least body, s, k => exactly (run body) least s fun next => upTo (run body) true next.rest.length next k
  | group name body, s, k => run body s fun next => k { next with groups := (name, s.textUntil next) :: next.groups }
  | ahead body, s, k =>
    match run body s some with
    | some _ => k s
    | none => none

/-- A match: where it starts, and the place after it. -/
structure Found where
  begins : ℕ
  text : List Char
  after : Cursor

def matchAt (r : Regex) (s : Cursor) : Option Found :=
  (run a r { s with groups := [] } some).map fun next => ⟨s.position, s.textUntil next, next⟩

/-- The matches from a place on, left to right; none overlaps the one before it. -/
def scan (r : Regex) : ℕ → Cursor → List Found
  | 0, _ => []
  | turns + 1, s =>
    match matchAt a r s with
    | some found =>
      if found.after.position = s.position then
        found :: (s.past fun _ => true).elim [] (scan r turns)
      else found :: scan r turns found.after
    | none => (s.past fun _ => true).elim [] (scan r turns)

def finditer (r : Regex) (text : List Char) : List Found := scan a r (text.length + 1) (.start text)

def search (r : Regex) (text : List Char) : Bool := (finditer a r text).isEmpty = false

end matching

section places

/-- A place further on in the same text. -/
def Reaches (s next : Cursor) : Prop :=
  ∃ taken, s.rest = taken ++ next.rest ∧ next.position = s.position + taken.length

theorem Reaches.here (s : Cursor) : Reaches s s := ⟨[], rfl, rfl⟩

theorem Reaches.trans {s middle next : Cursor} (first : Reaches s middle) (second : Reaches middle next) :
    Reaches s next := by
  obtain ⟨one, rest, at_⟩ := first
  obtain ⟨two, rest', at_'⟩ := second
  refine ⟨one ++ two, ?_, ?_⟩
  · rw [rest, rest', List.append_assoc]
  · rw [at_', at_, List.length_append, Nat.add_assoc]

theorem past_reaches {s next : Cursor} {test : Char → Bool} (moved : s.past test = some next) : Reaches s next := by
  unfold Cursor.past at moved
  split at moved
  next c rest text =>
    split at moved
    next =>
      obtain rfl := Option.some.inj moved
      exact ⟨[c], text, rfl⟩
    next => cases moved
  next => cases moved

theorem past_bind {s found : Cursor} {test : Char → Bool} {k : Rest}
    (matched : (s.past test).bind k = some found) : ∃ next, Reaches s next ∧ k next = some found := by
  obtain ⟨next, moved, rest⟩ := Option.bind_eq_some_iff.mp matched
  exact ⟨next, past_reaches moved, rest⟩

/-- A body whose matches go on from places further on. -/
def Advances (body : Cursor → Rest → Option Cursor) : Prop :=
  ∀ s k found, body s k = some found → ∃ next, Reaches s next ∧ k next = some found

theorem Advances.upTo {body : Cursor → Rest → Option Cursor} (advances : Advances body) (greedy : Bool) (n : ℕ) :
    Advances (upTo body greedy n) := by
  induction n with
  | zero => exact fun s k found matched => ⟨s, .here s, matched⟩
  | succ n ih =>
    intro s k found matched
    have turn (tried : body s (fun next => if next.position = s.position then none
        else Regex.upTo body greedy n next k) = some found) : ∃ next, Reaches s next ∧ k next = some found := by
      obtain ⟨middle, first, rest⟩ := advances _ _ _ tried
      split at rest
      next => cases rest
      next =>
        obtain ⟨next, second, last⟩ := ih _ _ _ rest
        exact ⟨next, first.trans second, last⟩
    unfold Regex.upTo at matched
    dsimp only at matched
    split at matched
    next =>
      split at matched
      next tried =>
        obtain rfl := Option.some.inj matched
        exact turn tried
      next => exact ⟨s, .here s, matched⟩
    next =>
      split at matched
      next done =>
        obtain rfl := Option.some.inj matched
        exact ⟨s, .here s, done⟩
      next => exact turn matched

theorem Advances.exactly {body : Cursor → Rest → Option Cursor} (advances : Advances body) (n : ℕ) :
    Advances (exactly body n) := by
  induction n with
  | zero => exact fun s k found matched => ⟨s, .here s, matched⟩
  | succ n ih =>
    intro s k found matched
    obtain ⟨middle, first, rest⟩ := advances _ _ _ matched
    obtain ⟨next, second, last⟩ := ih _ _ _ rest
    exact ⟨next, first.trans second, last⟩

theorem run_advances (a : Alphabet) (r : Regex) : Advances (run a r) := by
  induction r with
  | empty => exact fun s k found matched => ⟨s, .here s, matched⟩
  | char | digit | space | any | oneOf | noneOf => exact fun s k found matched => past_bind matched
  | boundary =>
    intro s k found matched
    unfold run at matched
    split at matched
    next => cases matched
    next => exact ⟨s, .here s, matched⟩
  | ending =>
    intro s k found matched
    unfold run at matched
    split at matched
    next => exact ⟨s, .here s, matched⟩
    next => cases matched
  | seq first second ih ih' =>
    intro s k found matched
    obtain ⟨middle, one, rest⟩ := ih _ _ _ matched
    obtain ⟨next, two, last⟩ := ih' _ _ _ rest
    exact ⟨next, one.trans two, last⟩
  | alt first second ih ih' =>
    intro s k found matched
    unfold run at matched
    split at matched
    next tried =>
      obtain rfl := Option.some.inj matched
      exact ih _ _ _ tried
    next => exact ih' _ _ _ matched
  | times least more greedy body ih =>
    intro s k found matched
    obtain ⟨middle, one, rest⟩ := Advances.exactly ih least _ _ _ matched
    obtain ⟨next, two, last⟩ := Advances.upTo ih greedy more _ _ _ rest
    exact ⟨next, one.trans two, last⟩
  | many least body ih =>
    intro s k found matched
    obtain ⟨middle, one, rest⟩ := Advances.exactly ih least _ _ _ matched
    obtain ⟨next, two, last⟩ := Advances.upTo ih true _ _ _ _ rest
    exact ⟨next, one.trans two, last⟩
  | group name body ih =>
    intro s k found matched
    obtain ⟨next, one, last⟩ := ih _ _ _ matched
    exact ⟨{ next with groups := (name, s.textUntil next) :: next.groups }, one, last⟩
  | ahead body ih =>
    intro s k found matched
    unfold run at matched
    split at matched
    next => exact ⟨s, .here s, matched⟩
    next => cases matched

/-- A match is where it says: what stands from its start on is its text. -/
structure Found.At (found : Found) (s : Cursor) : Prop where
  reaches : Reaches s found.after
  text : ∃ skipped, s.rest = skipped ++ found.text ++ found.after.rest ∧
    found.begins = s.position + skipped.length ∧ found.after.position = found.begins + found.text.length

theorem matchAt_at {a : Alphabet} {r : Regex} {s : Cursor} {found : Found} (matched : matchAt a r s = some found) :
    found.At s := by
  obtain ⟨next, ran, rfl⟩ := Option.map_eq_some_iff.mp matched
  obtain ⟨other, reaches, same⟩ := run_advances a r _ _ _ ran
  obtain rfl : next = other := (Option.some.inj same).symm
  obtain ⟨taken, rest, at_⟩ := reaches
  have text : s.textUntil next = taken := by
    dsimp only at rest at_
    unfold Cursor.textUntil
    rw [rest, at_, Nat.add_sub_cancel_left, List.take_left]
  refine ⟨⟨taken, rest, at_⟩, [], ?_, rfl, ?_⟩
  · rw [text]
    exact rest
  · rw [text]
    exact at_

theorem Found.At.earlier {found : Found} {s next : Cursor} (reaches : Reaches s next) (here : found.At next) :
    found.At s := by
  obtain ⟨after, skipped, text, begins, ends⟩ := here
  refine ⟨reaches.trans after, ?_⟩
  obtain ⟨taken, rest, at_⟩ := reaches
  refine ⟨taken ++ skipped, ?_, ?_, ends⟩
  · rw [rest, text, List.append_assoc, List.append_assoc, List.append_assoc]
  · rw [begins, at_, List.length_append, Nat.add_assoc]

theorem scan_at {a : Alphabet} {r : Regex} {found : Found} (turns : ℕ) (s : Cursor)
    (member : found ∈ scan a r turns s) : found.At s := by
  induction turns generalizing s with
  | zero => cases member
  | succ turns ih =>
    have later (member : found ∈ (s.past fun _ => true).elim [] (scan a r turns)) : found.At s := by
      cases moved : s.past fun _ => true with
      | none =>
        rw [moved] at member
        cases member
      | some next =>
        rw [moved] at member
        exact (ih next member).earlier (past_reaches moved)
    unfold scan at member
    split at member
    next first matched =>
      split at member
      next =>
        rcases List.mem_cons.mp member with rfl | member
        · exact matchAt_at matched
        · exact later member
      next =>
        rcases List.mem_cons.mp member with rfl | member
        · exact matchAt_at matched
        · exact (ih _ member).earlier (matchAt_at matched).reaches
    next => exact later member

/-- Each match of a text is the slice of it that it says. -/
theorem finditer_slice {a : Alphabet} {r : Regex} {text : List Char} {found : Found}
    (member : found ∈ finditer a r text) :
    (text.drop found.begins).take (found.after.position - found.begins) = found.text := by
  obtain ⟨-, skipped, whole, begins, ends⟩ := scan_at _ _ member
  have start : found.begins = skipped.length := begins.trans (Nat.zero_add _)
  rw [show text = skipped ++ found.text ++ found.after.rest from whole, List.append_assoc, start,
    List.drop_left, ends, start, Nat.add_sub_cancel_left, List.take_left]

end places

end Regex

end TradeAgent
