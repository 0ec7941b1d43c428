import LedgerReport.Text.Basic
import LedgerReport.Error
set_option autoImplicit false

namespace LedgerReport
open Text

inductive TokenKind where
  | number
  | order
  | name
  | operator
  | opening
  | closing
  deriving DecidableEq, Repr

/-- A token: its kind, its characters and the position of the first of them. -/
structure Token where
  kind : TokenKind
  chars : List Char
  position : Nat
  deriving DecidableEq, Repr

namespace Token

def text (t : Token) : String := String.ofList t.chars

def isNameStart (c : Char) : Bool := c.isAlpha || c = '_'

def isNameChar (c : Char) : Bool := c.isAlphanum || c = '_'

def isOperator (c : Char) : Bool := c = '+' || c = '-' || c = '*' || c = '/'

def splitDigits (cs : List Char) : List Char × List Char :=
  (cs.takeWhile isDecimalDigit, cs.dropWhile isDecimalDigit)

/-- A point with digits at the start of a text, and what follows it; nothing if there is none. -/
def splitFraction : List Char → List Char × List Char
  | '.' :: r =>
    match splitDigits r with
    | ([], _) => ([], '.' :: r)
    | (ds, rest) => ('.' :: ds, rest)
  | cs => ([], cs)

/-- The lexeme at the start of a text, of no kind if it is made of blanks, and what follows it. -/
def lexeme? : List Char → Option (Option TokenKind × List Char × List Char)
  | [] => none
  | c :: r =>
    if isBlank c then some (none, c :: r.takeWhile isBlank, r.dropWhile isBlank)
    else if isDecimalDigit c then
      let (ds, r) := splitDigits r
      let (fraction, r) := splitFraction r
      some (some .number, c :: (ds ++ fraction), r)
    else if c = '.' then
      match splitDigits r with
      | ([], _) => none
      | (ds, rest) => some (some .number, c :: ds, rest)
    else if c = '@' then
      match splitDigits r with
      | ([], _) => none
      | (ds, rest) => some (some .order, c :: ds, rest)
    else if isNameStart c then
      some (some .name, c :: r.takeWhile isNameChar, r.dropWhile isNameChar)
    else if isOperator c then some (some .operator, [c], r)
    else if c = '(' then some (some .opening, [c], r)
    else if c = ')' then some (some .closing, [c], r)
    else none

theorem splitDigits_append (cs : List Char) : (splitDigits cs).1 ++ (splitDigits cs).2 = cs := by
  simp [splitDigits]

theorem splitFraction_append (cs : List Char) :
    (splitFraction cs).1 ++ (splitFraction cs).2 = cs := by
  unfold splitFraction
  split
  · rename_i r
    have h := splitDigits_append r
    split
    · rfl
    · rename_i ds rest _ hd
      rw [hd] at h
      simpa using h
  · rfl

theorem lexeme?_append {cs chars rest : List Char} {kind : Option TokenKind}
    (h : lexeme? cs = some (kind, chars, rest)) : chars ++ rest = cs := by
  cases cs with
  | nil => simp [lexeme?] at h
  | cons c r =>
    have hd := splitDigits_append r
    have hf := splitFraction_append (splitDigits r).2
    simp only [lexeme?] at h
    split at h
    · cases h; simp
    split at h
    · cases h
      simp only [List.cons_append, List.append_assoc, hf, hd]
    split at h
    · split at h
      · cases h
      · rename_i heq
        cases h
        rw [heq] at hd
        simpa using hd
    split at h
    · split at h
      · cases h
      · rename_i heq
        cases h
        rw [heq] at hd
        simpa using hd
    split at h
    · cases h; simp
    split at h
    · cases h; rfl
    split at h
    · cases h; rfl
    split at h
    · cases h; rfl
    · cases h

theorem ne_nil_of_lexeme? {cs chars rest : List Char} {kind : Option TokenKind}
    (h : lexeme? cs = some (kind, chars, rest)) : chars ≠ [] := by
  cases cs with
  | nil => simp [lexeme?] at h
  | cons c r =>
    simp only [lexeme?] at h
    repeat' split at h
    all_goals cases h
    all_goals simp

theorem length_lt_of_lexeme? {cs chars rest : List Char} {kind : Option TokenKind}
    (h : lexeme? cs = some (kind, chars, rest)) : rest.length < cs.length := by
  have hn := List.length_pos_iff.2 (ne_nil_of_lexeme? h)
  rw [← lexeme?_append h, List.length_append]
  omega

/-- The tokens of a text that starts at a position; a character at which no lexeme starts is
reported with its position. -/
def scan (position : Nat) (cs : List Char) : Except (Nat × Char) (List Token) :=
  match _h : lexeme? cs with
  | none => match cs with
    | [] => .ok []
    | c :: _ => .error (position, c)
  | some (kind, chars, rest) => do
    let tokens ← scan (position + chars.length) rest
    match kind with
    | none => return tokens
    | some kind => return ⟨kind, chars, position⟩ :: tokens
termination_by cs.length
decreasing_by exact length_lt_of_lexeme? _h

def read (expression : String) : Except Error (List Token) :=
  match scan 0 expression.toList with
  | .ok tokens => .ok tokens
  | .error (position, c) => .error (.expression expression position (.character c))

end Token
end LedgerReport
