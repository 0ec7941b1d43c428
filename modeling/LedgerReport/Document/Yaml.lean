import LedgerReport.Document.YamlScalar
/-!
Reading YAML text: block and flow collections, plain and quoted scalars, and comments.

A collection in block form stands in one column; what belongs to one of its entries stands further
to the right, apart from a sequence under the key of a mapping, which may stand in the same column.
Tabs separate nothing. When a mapping gives a key twice the last value counts, in the place of the
first. Anchors, tags, explicit keys and block scalars are not read.
-/

set_option autoImplicit false

namespace LedgerReport.Yaml

structure Cursor where
  rest : List Char
  column : Nat

namespace Cursor

def advance (c : Cursor) (n : Nat) : Cursor := ⟨c.rest.drop n, c.column + n⟩

def skipFrom (comment crossed : Bool) : List Char → Nat → Cursor × Bool
  | [], column => (⟨[], column⟩, crossed)
  | c :: r, column =>
    if c = '\n' then skipFrom false true r 0
    else if comment then skipFrom true crossed r (column + 1)
    else if c = ' ' then skipFrom false crossed r (column + 1)
    else if c = '#' then skipFrom true crossed r (column + 1)
    else (⟨c :: r, column⟩, crossed)

def skip (c : Cursor) : Cursor × Bool := skipFrom false false c.rest c.column

def next (c : Cursor) : Cursor := c.skip.1

end Cursor

def isGapAt (cs : List Char) : Bool :=
  match cs with
  | [] => true
  | c :: _ => c = ' ' || c = '\t' || c = '\n'

def isFlowSign (c : Char) : Bool := c = ',' || c = '[' || c = ']' || c = '\x7b' || c = '\x7d'

def isIndicator (c : Char) : Bool := "-?:,[]\x7b\x7d#&*!|>'\"%@`\t".toList.contains c

def startsPlain (flow : Bool) : List Char → Bool
  | [] => false
  | c :: r =>
    !isIndicator c || (!isGapAt r && (c = '-' || (!flow && (c = '?' || c = ':'))))

def endsKey (flow : Bool) (r : List Char) : Bool :=
  isGapAt r || (flow && (r.head?.map isFlowSign).getD false)

def spanWord (flow : Bool) : List Char → List Char × List Char
  | [] => ([], [])
  | c :: r =>
    if isGapAt (c :: r) || (c = ':' && endsKey flow r) || (flow && (isFlowSign c || c = '?')) then
      ([], c :: r)
    else ((c :: (spanWord flow r).1), (spanWord flow r).2)

def spanLine (flow : Bool) : Nat → Cursor → List Char × Cursor
  | 0, c => ([], c)
  | fuel + 1, c =>
    let (word, _) := spanWord flow c.rest
    let after := c.advance word.length
    let spaces := after.rest.takeWhile (· = ' ')
    let further := after.advance spaces.length
    if word.isEmpty then ([], c)
    else if spaces.isEmpty then (word, after)
    else
      match further.rest with
      | '#' :: _ => (word, after)
      | _ =>
        let (more, last) := spanLine flow fuel further
        if more.isEmpty then (word, after) else (word ++ spaces ++ more, last)

def folded (n : Nat) : List Char := if n ≤ 1 then [' '] else List.replicate (n - 1) '\n'

def isMark (c : Cursor) : Bool :=
  c.column = 0 && (c.rest.take 3 = ['-', '-', '-'] || c.rest.take 3 = ['.', '.', '.']) &&
    isGapAt (c.rest.drop 3)

/-- A plain scalar, perhaps over several lines that start at a column or to the right of it. -/
def readPlain (flow : Bool) (column : Nat) : Nat → Cursor → List Char × Cursor
  | 0, c => ([], c)
  | fuel + 1, c =>
    let (line, after) := spanLine flow c.rest.length c
    let gap := after.rest.takeWhile fun d => d = ' ' || d = '\n'
    let breaks := gap.count '\n'
    let start := gap.reverse.takeWhile (· ≠ '\n')
    let further : Cursor := ⟨after.rest.drop gap.length, start.length⟩
    if line.isEmpty || breaks = 0 || (!flow && further.column < column) || isMark further then
      (line, after)
    else
      match further.rest with
      | '#' :: _ => (line, after)
      | _ =>
        let (more, last) := readPlain flow column fuel further
        if more.isEmpty then (line, after) else (line ++ folded breaks ++ more, last)

inductive Fault where
  | character
  | token
  | misplaced
  | document
  | key
  | overlong (digits : String)
  deriving DecidableEq, Repr

def faultAt (lineStart : Bool) (cs : List Char) : Fault :=
  match cs with
  | [] => .misplaced
  | c :: r =>
    if c = '@' || c = '%' || c = '\t' || c = Char.ofNat 96 then .token
    else if (c = ':' || c = '-' || c = '?') && isGapAt r && !lineStart then .token
    else .misplaced

/-- The gap at a place inside quotes: what stands for it, and the cursor after it. -/
def readGap (c : Cursor) : List Char × Cursor :=
  let gap := c.rest.takeWhile fun d => d = ' ' || d = '\t' || d = '\n'
  let breaks := gap.count '\n'
  if breaks = 0 then (gap, c.advance gap.length)
  else (folded breaks, ⟨c.rest.drop gap.length, (gap.reverse.takeWhile (· ≠ '\n')).length⟩)

def readSingle : Nat → Cursor → Except Fault (List Char × Cursor)
  | 0, _ => .error .token
  | fuel + 1, c =>
    match c.rest with
    | [] => .error .token
    | '\'' :: '\'' :: _ => (readSingle fuel (c.advance 2)).map fun p => ('\'' :: p.1, p.2)
    | '\'' :: _ => .ok ([], c.advance 1)
    | d :: _ =>
      if isGapAt c.rest then
        let (gap, c) := readGap c
        (readSingle fuel c).map fun p => (gap ++ p.1, p.2)
      else (readSingle fuel (c.advance 1)).map fun p => (d :: p.1, p.2)

def shortEscape? : Char → Option Char
  | '0' => some '\x00'
  | 'a' => some '\x07'
  | 'b' => some '\x08'
  | 't' => some '\t'
  | '\t' => some '\t'
  | 'n' => some '\n'
  | 'v' => some '\x0b'
  | 'f' => some '\x0c'
  | 'r' => some '\r'
  | 'e' => some '\x1b'
  | ' ' => some ' '
  | '"' => some '"'
  | '\\' => some '\\'
  | '/' => some '/'
  | 'N' => some (Char.ofNat 0x85)
  | '_' => some (Char.ofNat 0xA0)
  | 'L' => some (Char.ofNat 0x2028)
  | 'P' => some (Char.ofNat 0x2029)
  | _ => none

def escapeWidth? : Char → Option Nat
  | 'x' => some 2
  | 'u' => some 4
  | 'U' => some 8
  | _ => none

def hexNumber? (cs : List Char) : Option Nat :=
  if cs.all fun c => c.isDigit || ('a' ≤ c.toLower && c.toLower ≤ 'f') then
    some (digitsInBase 16 cs)
  else none

def readDouble : Nat → Cursor → Except Fault (List Char × Cursor)
  | 0, _ => .error .token
  | fuel + 1, c =>
    match c.rest with
    | [] => .error .token
    | '"' :: _ => .ok ([], c.advance 1)
    | '\\' :: '\n' :: r =>
      let gap := r.takeWhile fun d => d = ' ' || d = '\t' || d = '\n'
      (readDouble fuel ⟨r.drop gap.length, gap.length⟩).map fun p =>
        (List.replicate (gap.count '\n') '\n' ++ p.1, p.2)
    | '\\' :: e :: r =>
      match shortEscape? e, escapeWidth? e with
      | some d, _ => (readDouble fuel (c.advance 2)).map fun p => (d :: p.1, p.2)
      | none, some width =>
        let digits := r.take width
        match if digits.length = width then hexNumber? digits else none with
        | some n =>
          (readDouble fuel (c.advance (2 + width))).map fun p => (Char.ofNat n :: p.1, p.2)
        | none => .error .token
      | none, none => .error .token
    | d :: _ =>
      if isGapAt c.rest then
        let (gap, c) := readGap c
        (readDouble fuel c).map fun p => (gap ++ p.1, p.2)
      else (readDouble fuel (c.advance 1)).map fun p => (d :: p.1, p.2)

def readQuoted? (c : Cursor) : Option (Except Fault (Value × Cursor)) :=
  let text (p : List Char × Cursor) : Value × Cursor := (.text (String.ofList p.1), p.2)
  match c.rest with
  | '\'' :: _ => some ((readSingle c.rest.length (c.advance 1)).map text)
  | '"' :: _ => some ((readDouble c.rest.length (c.advance 1)).map text)
  | _ => none

section
-- what a plain scalar stands for
variable (plain : String → Except Fault Value)

/-- A scalar at a token. Further lines of a plain one start at a column or to the right of it. -/
def readScalar (flow : Bool) (column : Nat) (c : Cursor) : Except Fault (Value × Cursor) :=
  match readQuoted? c with
  | some quoted => quoted
  | none =>
    let (cs, last) := if startsPlain flow c.rest then readPlain flow column c.rest.length c
      else ([], c)
    if cs.isEmpty then .error (faultAt false c.rest)
    else (plain (String.ofList cs)).map fun v => (v, last)

def keyOf : Value → Except Fault Key
  | .text s => .ok (.text s)
  | .number n => .ok (.number n)
  | .boolean b => .ok (.boolean b)
  | .null => .ok .null
  | _ => .error .key

mutual

def readFlow : Nat → Nat → Cursor → Except Fault (Value × Cursor)
  | 0, _, _ => .error .misplaced
  | fuel + 1, column, c =>
    match c.rest with
    | '[' :: _ => (readFlowItems fuel column (c.advance 1).next).map fun p => (.list p.1, p.2)
    | '{' :: _ => (readFlowEntries fuel column (c.advance 1).next []).map fun p => (.map p.1, p.2)
    | _ => readScalar plain true column c

def readFlowItems : Nat → Nat → Cursor → Except Fault (List Value × Cursor)
  | 0, _, _ => .error .misplaced
  | fuel + 1, column, c =>
    match c.rest with
    | ']' :: _ => .ok ([], c.advance 1)
    | _ => do
      let (v, c) ← readFlow fuel column c
      let c := c.next
      let (v, c) ← match c.rest with
        | ':' :: _ => do
          let key ← keyOf v
          let (w, c) ← readFlowValue fuel column (c.advance 1).next
          pure (Value.map [(key, w)], c.next)
        | _ => pure (v, c)
      match c.rest with
      | ',' :: _ => (readFlowItems fuel column (c.advance 1).next).map fun p => (v :: p.1, p.2)
      | ']' :: _ => .ok ([v], c.advance 1)
      | cs => .error (faultAt true cs)

def readFlowValue : Nat → Nat → Cursor → Except Fault (Value × Cursor)
  | 0, _, _ => .error .misplaced
  | fuel + 1, column, c =>
    match c.rest with
    | ',' :: _ | ']' :: _ | '}' :: _ => .ok (.null, c)
    | _ => readFlow fuel column c

def readFlowEntries : Nat → Nat → Cursor → Entries → Except Fault (Entries × Cursor)
  | 0, _, _, _ => .error .misplaced
  | fuel + 1, column, c, before =>
    match c.rest with
    | '}' :: _ => .ok (before, c.advance 1)
    | _ => do
      let (k, c) ← readFlow fuel column c
      let key ← keyOf k
      let c := c.next
      let (v, c) ← match c.rest with
        | ':' :: _ => readFlowValue fuel column (c.advance 1).next
        | _ => pure (.null, c)
      let entries := before.insert key v
      let c := c.next
      match c.rest with
      | ',' :: _ => readFlowEntries fuel column (c.advance 1).next entries
      | '}' :: _ => .ok (entries, c.advance 1)
      | cs => .error (faultAt true cs)

end

def isDash (c : Cursor) : Bool :=
  match c.rest with
  | '-' :: r => isGapAt r
  | _ => false

/-- The key of a block mapping at a token, and the cursor after its colon; `none` if what stands
here is no key. -/
def readKey? (c : Cursor) : Except Fault (Option (Value × Cursor)) := do
  let (v, last) ← match readQuoted? c with
    | some quoted => quoted
    | none =>
      let (cs, last) := if startsPlain false c.rest then spanLine false c.rest.length c else ([], c)
      (plain (String.ofList cs)).map fun v => (v, last)
  let read := c.rest.take (c.rest.length - last.rest.length)
  let colon := last.advance (last.rest.takeWhile (· = ' ')).length
  match colon.rest with
  | ':' :: r =>
    return if isGapAt r && !read.isEmpty && !read.contains '\n' then some (v, colon.advance 1)
      else none
  | _ => return none

/-- A scalar or a flow collection that ends its line, and the cursor at the token after it. -/
def readInline (column : Nat) (c : Cursor) : Except Fault (Value × Cursor) := do
  let (v, c) ← match c.rest with
    | '[' :: _ | '{' :: _ => readFlow plain (2 * c.rest.length + 2) column c
    | _ => readScalar plain false column c
  let (c, crossed) := c.skip
  if crossed || c.rest.isEmpty then return (v, c)
  else throw (faultAt false c.rest)

def keyFault (c : Cursor) : Fault :=
  if isDash c then .misplaced
  else if startsPlain false c.rest || (readQuoted? c).isSome then .token
  else faultAt true c.rest

mutual

/-- A value in block form at a token, and the cursor at the token after it. Further lines of a
scalar start at a column or to the right of it. -/
def readBlock : Nat → Nat → Cursor → Except Fault (Value × Cursor)
  | 0, _, _ => .error .misplaced
  | fuel + 1, column, c =>
    if isDash c then (readItems fuel c.column c).map fun p => (.list p.1, p.2)
    else do
      match ← readKey? plain c with
      | some _ => (readEntries fuel c.column c []).map fun p => (.map p.1, p.2)
      | none => readInline plain column c

def readItems : Nat → Nat → Cursor → Except Fault (List Value × Cursor)
  | 0, _, _ => .error .misplaced
  | fuel + 1, column, c => do
    let (inner, crossed) := (c.advance 1).skip
    let (v, c) ←
      if inner.rest.isEmpty || (crossed && inner.column ≤ column) then pure (.null, inner)
      else readBlock fuel (column + 1) inner
    if c.rest.isEmpty || c.column < column then return ([v], c)
    if column < c.column then throw (faultAt true c.rest)
    if isDash c then (readItems fuel column c).map fun p => (v :: p.1, p.2)
    else return ([v], c)

def readEntries : Nat → Nat → Cursor → Entries → Except Fault (Entries × Cursor)
  | 0, _, _, _ => .error .misplaced
  | fuel + 1, column, c, before => do
    match ← readKey? plain c with
    | none => throw (keyFault c)
    | some (k, c) =>
      let key ← keyOf k
      let (inner, crossed) := c.skip
      let (v, c) ←
        if inner.rest.isEmpty then pure (.null, inner)
        else if !crossed then
          if isDash inner then throw .token else readInline plain (column + 1) inner
        else if column < inner.column then readBlock fuel (column + 1) inner
        else if inner.column = column && isDash inner then
          (readItems fuel column inner).map fun p => (.list p.1, p.2)
        else pure (.null, inner)
      let entries := before.insert key v
      if c.rest.isEmpty || c.column < column || isMark c then return (entries, c)
      if column < c.column then throw (faultAt true c.rest)
      readEntries fuel column c entries

end

end

def isAllowed (c : Char) : Bool :=
  let n := c.toNat
  n = 9 || n = 10 || n = 13 || (32 ≤ n && n ≤ 126) || n = 0x85 || (0xA0 ≤ n && n ≤ 0xFFFD) ||
    0x10000 ≤ n

/-- The value that a YAML text of one document writes; a text without a document writes null. -/
def readWith (plain : String → Except Fault Value) (text : String) : Except Fault Value := do
  if !text.toList.all isAllowed then throw .character
  let body := match text.toList with
    | '\ufeff' :: r => r
    | cs => cs
  let start := (Cursor.mk body 0).next
  let c := if isMark start && start.rest.head? = some '-' then (start.advance 3).next else start
  if c.rest.isEmpty then return .null
  let (v, c) ← if isMark c then pure (.null, c) else readBlock plain (4 * c.rest.length + 8) 0 c
  let ended := isMark c && c.rest.head? = some '.'
  let c := if ended then (c.advance 3).next else c
  if c.rest.isEmpty then return v
  else throw (if ended || isMark c then .document else faultAt true c.rest)

/-- The value of a plain scalar, unless it is a whole number with too many digits. -/
def readableValue (s : String) : Except Fault Value :=
  match overlongDigits? s.toList with
  | some digits => .error (.overlong digits)
  | none => .ok (plainValue s)

/-- The value that a YAML text writes. The whole text is looked through before a number in it is
read. -/
def read (text : String) : Except Fault Value := do
  let _ ← readWith (fun s => .ok (plainValue s)) text
  readWith readableValue text

end LedgerReport.Yaml
