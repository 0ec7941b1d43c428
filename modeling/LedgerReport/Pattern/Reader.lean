import LedgerReport.Pattern.Fault
import LedgerReport.Pattern.Tree
import LedgerReport.Numeral
import LedgerReport.Text.Word
set_option autoImplicit false

namespace LedgerReport.Pattern
open Text

structure Piece where
  chars : List Char
  position : Nat

def pieces (position : Nat) : List Char → List Piece
  | [] => []
  | '\\' :: c :: r => ⟨['\\', c], position⟩ :: pieces (position + 2) r
  | c :: r => ⟨[c], position⟩ :: pieces (position + 1) r

structure Reading where
  rest : List Piece
  finish : Nat
  flags : List Flag
  names : List (String × Nat)
  groups : Nat
  /-- the widths of the groups that are closed -/
  widths : List (Nat × Width)
  /-- the first group that must not be named while something before a place is looked for -/
  behindFrom : Option Nat
  numbers : List (Nat × Nat)

abbrev Reader (α : Type) := StateT Reading (Except Fault) α

namespace Reader

def position : Reader Nat := do
  let s ← get
  return match s.rest with
    | [] => s.finish
    | p :: _ => p.position

def failAt {α : Type} (reason : Reason) (back : Nat) : Reader α := do
  throw (.bad reason (some ((← position) - back)))

def fail {α : Type} (reason : Reason) : Reader α := failAt reason 0

def next? : Reader (Option (List Char)) := return ((← get).rest.head?).map (·.chars)

def goTo (rest : List Piece) : Reader Unit :=
  match rest with
  | ⟨['\\'], position⟩ :: _ => throw (.bad .escapeAtEnd (some position))
  | _ => modify fun s => { s with rest }

def take? : Reader (Option (List Char)) := do
  match (← get).rest with
  | [] => return none
  | p :: r =>
    goTo r
    return some p.chars

def accept (c : Char) : Reader Bool := do
  if (← next?) = some [c] then
    let _ ← take?
    return true
  else return false

def takeUpTo (ofClass : Char → Bool) : Nat → Reader (List Char)
  | 0 => return []
  | n + 1 => do
    match ← next? with
    | some [c] =>
      if ofClass c then
        let _ ← take?
        return c :: (← takeUpTo ofClass n)
      else return []
    | _ => return []

def takeAll (ofClass : Char → Bool) : Reader (List Char) := do
  takeUpTo ofClass (← get).rest.length

def takeName (what : String) (closing : Char) : Reader String := do
  let rec more (name : List Char) : Nat → Reader (List Char)
    | 0 => return name
    | fuel + 1 => do
      match ← take? with
      | none =>
        if name.isEmpty then fail (.missingName what)
        else failAt (.unfinishedName (String.singleton closing)) name.length
      | some piece =>
        if piece = [closing] then
          if name.isEmpty then failAt (.missingName what) 1
          return name
        else more (name ++ piece) fuel
  return String.ofList (← more [] ((← get).rest.length + 1))

def isClosed (n : Nat) : Reader Bool := return (← get).widths.any fun g => g.1 == n

def checkBehind (n : Nat) : Reader Unit := do
  match (← get).behindFrom with
  | none => return
  | some first =>
    unless ← isClosed n do fail .openGroup
    if first ≤ n then fail .groupInSameLookBehind

def isOctal (c : Char) : Bool := '0' ≤ c && c ≤ '7'

def isHexadecimal (c : Char) : Bool := c.isDigit || ('a' ≤ c && c ≤ 'f') || ('A' ≤ c && c ≤ 'F')

def inBase (base : Nat) (cs : List Char) : Nat :=
  cs.foldl (fun n c =>
    base * n + if c.isDigit then c.toNat - 48 else (c.toNat ||| 32) - 87) 0

def controlPoint? : Char → Option Nat
  | 'a' => some 7
  | 'b' => some 8
  | 'f' => some 12
  | 'n' => some 10
  | 'r' => some 13
  | 't' => some 9
  | 'v' => some 11
  | '\\' => some 92
  | _ => none

def kind? : Char → Option Member
  | 'd' => some (.kind .digit false)
  | 'D' => some (.kind .digit true)
  | 's' => some (.kind .space false)
  | 'S' => some (.kind .space true)
  | 'w' => some (.kind .word false)
  | 'W' => some (.kind .word true)
  | _ => none

def place? : Char → Option Place
  | 'A' => some .textStart
  | 'b' => some .boundary
  | 'B' => some .noBoundary
  | 'Z' => some .textEnd
  | _ => none

def numbered? (c : Char) : Reader (Option Nat) := do
  let digits (n : Nat) : Reader (Option Nat) := do
    let ds ← takeUpTo isHexadecimal n
    let shown := '\\' :: c :: ds
    if ds.length ≠ n then failAt (.incompleteEscape (String.ofList shown)) shown.length
    let point := inBase 16 ds
    if 0x110000 ≤ point then failAt (.escape (String.ofList shown)) shown.length
    return some point
  match c with
  | 'x' => digits 2
  | 'u' => digits 4
  | 'U' => digits 8
  | 'N' =>
    unless ← accept '\x7b' do fail .missingBrace
    let name ← takeName "character name" '\x7d'
    failAt (.characterName name) (name.length + 4)
  | _ => return none

def plainEscape (c : Char) : Reader Nat := do
  if c.isAlpha || c.isDigit then failAt (.escape (String.ofList ['\\', c])) 2
  return c.toNat

def setEscape (c : Char) : Reader Member := do
  match controlPoint? c, kind? c with
  | some n, _ => return .point n
  | none, some k => return k
  | none, none =>
    match ← numbered? c with
    | some n => return .point n
    | none =>
      if isOctal c then
        let ds ← takeUpTo isOctal 2
        let n := inBase 8 (c :: ds)
        if 0o377 < n then
          let shown := '\\' :: c :: ds
          failAt (.octalEscape (String.ofList shown)) shown.length
        return .point n
      return .point (← plainEscape c)

/-- An escape by digits outside a character set: a code point of three octal digits, or the text of
a group again. -/
def digitEscape (c : Char) : Reader Tree := do
  let refer (shown : List Char) : Reader Tree := do
    let n := inBase 10 shown
    if n ≤ (← get).groups then
      unless ← isClosed n do failAt .openGroup (shown.length + 1)
      checkBehind n
      return .again n
    failAt (.groupNumber n) shown.length
  match ← takeUpTo Char.isDigit 1 with
  | [d] =>
    if isOctal c && isOctal d then
      match ← takeUpTo isOctal 1 with
      | [e] =>
        let n := inBase 8 [c, d, e]
        if 0o377 < n then failAt (.octalEscape (String.ofList ['\\', c, d, e])) 4
        return .point n
      | _ => refer [c, d]
    else refer [c, d]
  | _ => refer [c]

def escape (c : Char) : Reader Tree := do
  match kind? c, place? c, controlPoint? c with
  | some k, _, _ => return .set false [k]
  | none, some place, _ => return .at place
  | none, none, some n => return .point n
  | none, none, none =>
    match ← numbered? c with
    | some n => return .point n
    | none =>
      if c = '0' then return .point (inBase 8 (← takeUpTo isOctal 2))
      if c.isDigit then digitEscape c else return .point (← plainEscape c)

def member (piece : List Char) : Reader Member :=
  match piece with
  | ['\\', c] => setEscape c
  | c :: _ => return .point c.toNat
  | [] => return .point 0

/-- The members of a character set that starts at `start`, after those already read. -/
def members (start : Nat) : Nat → List Member → Reader (List Member)
  | 0, before => return before
  | fuel + 1, before => do
    let unfinished {α : Type} : Reader α := do
      failAt .unterminatedSet ((← position) - start)
    match ← take? with
    | none => unfinished
    | some piece =>
      if piece = [']'] && !before.isEmpty then return before
      let first ← member piece
      if ← accept '-' then
        match ← take? with
        | none => unfinished
        | some piece' =>
          if piece' = [']'] then return before ++ [first, .point 45]
          let last ← member piece'
          let wrong {α : Type} : Reader α :=
            failAt (.range (String.ofList piece) (String.ofList piece'))
              (piece.length + 1 + piece'.length)
          match first, last with
          | .point a, .point b =>
            if b < a then wrong
            members start fuel (before ++ [.range a b])
          | _, _ => wrong
      else members start fuel (before ++ [first])

def flag? : Char → Option (Option Flag)
  | 'i' => some (some .ignoreCase)
  | 'm' => some (some .multiLine)
  | 's' => some (some .dotAll)
  | 'x' => some (some .verbose)
  | 'a' => some (some .ascii)
  | 'u' => some (some .allScripts)
  | 'L' | 't' => some none
  | _ => none

def noFlag {α : Type} (piece : List Char) (reason : Reason) : Reader α :=
  match piece with
  | [c] => failAt (if isAlphanumeric c && !isDigitSign c then .unknownFlag else reason) 1
  | _ => failAt reason piece.length

def flagsOn (on : List Flag) (piece : List Char) : Nat → Reader (List Flag × Char)
  | 0 => fail .flagEnd
  | fuel + 1 => do
    match piece with
    | [c] =>
      if c = ')' || c = '-' || c = ':' then return (on, c)
      match flag? c with
      | some flag =>
        if c = 'L' then fail .flagForBytes
        let on := match flag with
          | some f => on ++ [f]
          | none => on
        if on.contains .ascii && on.contains .allScripts then fail .flagConflict
        match ← take? with
        | none => fail .flagEnd
        | some piece => flagsOn on piece fuel
      | none => noFlag piece .flagEnd
    | _ => noFlag piece .flagEnd

def flagsOff (off : List Flag) (piece : List Char) (reason : Reason) : Nat → Reader (List Flag)
  | 0 => fail .missingColon
  | fuel + 1 => do
    match piece with
    | [c] =>
      if c = ':' && !off.isEmpty then return off
      match flag? c with
      | some flag =>
        match flag with
        | none => fail .flagOff
        | some f =>
          if f = .ascii || f = .allScripts then fail .flagOff
          match ← take? with
          | none => fail .missingColon
          | some piece => flagsOff (off ++ [f]) piece .missingColon fuel
      | none => noFlag piece reason
    | _ => noFlag piece reason

/-- The flags of a group: nothing if they are those of the whole pattern. -/
def groupFlags (c : Char) : Reader (Option (List Flag × List Flag)) := do
  let fuel := (← get).rest.length + 1
  let (on, closing) ← if c = '-' then pure ([], '-') else flagsOn [] [c] fuel
  if closing = ')' then
    modify fun s => { s with flags := s.flags ++ on }
    return none
  if closing = ':' then return some (on, [])
  match ← take? with
  | none => fail .missingFlag
  | some piece =>
    let off ← flagsOff [] piece .missingFlag fuel
    if on.any off.contains then failAt .flagOnAndOff 1
    return some (on, off)

def checkName (name : String) : Reader Unit := do
  unless isName name.toList do failAt (.groupNameCharacter name) (name.length + 1)
where
  isName (cs : List Char) : Bool :=
    match cs with
    | [] => false
    | c :: _ => !isDigitSign c && cs.all isWord

def openGroup (name : Option String) : Reader Nat := do
  let s ← get
  let n := s.groups + 1
  match name with
  | none => set { s with groups := n }
  | some name =>
    match s.names.find? fun e => e.1 == name with
    | some e => failAt (.redefined name n e.2) (name.length + 1)
    | none => set { s with groups := n, names := s.names ++ [(name, n)] }
  return n

def closeGroup (n : Nat) (body : Tree) : Reader Unit :=
  modify fun s => { s with widths := s.widths ++ [(n, body.width s.widths)] }

def groupOf (name : String) : Reader Nat := do
  checkName name
  match (← get).names.find? fun e => e.1 == name with
  | some e => return e.2
  | none => failAt (.groupName name) (name.length + 1)

def againByName : Reader Tree := do
  let name ← takeName "group name" ')'
  let n ← groupOf name
  unless ← isClosed n do failAt .openGroup (name.length + 1)
  checkBehind n
  return .again n

def conditionGroup : Reader Nat := do
  let name ← takeName "group name" ')'
  let n ← if checkName.isName name.toList then groupOf name else byNumber name
  checkBehind n
  return n
where
  byNumber (name : String) : Reader Nat := do
    match Numeral.readWhole? name with
    | some (.ofNat n) =>
      if n = 0 then failAt .groupZero (name.length + 1)
      if 1073741823 ≤ n then failAt (.groupNumber n) (name.length + 1)
      let place := (← position) - (name.length + 1)
      modify fun s =>
        if s.numbers.any fun e => e.1 == n then s
        else { s with numbers := s.numbers ++ [(n, place)] }
      return n
    | _ => failAt (.groupNameCharacter name) (name.length + 1)

def skipComment (start : Nat) : Nat → Reader Unit
  | 0 => return
  | fuel + 1 => do
    match ← next? with
    | none => failAt .unterminatedComment ((← position) - start)
    | some piece =>
      let _ ← take?
      unless piece = [')'] do skipComment start fuel

def skipLine : Nat → Reader Unit
  | 0 => return
  | fuel + 1 => do
    match ← take? with
    | none => return
    | some piece => unless piece = ['\n'] do skipLine fuel

def repetitions (digits : List Char) : Reader Nat := do
  if Numeral.digitLimit < digits.length then throw (.overlong (String.ofList digits))
  let n := inBase 10 digits
  if unlimited ≤ n then throw .tooManyRepetitions
  return n

/-- The bounds in braces: the least number and the greatest, `none` if the braces hold no bounds. -/
def bounds? : Reader (Option (Nat × Nat)) := do
  let rest := (← get).rest
  let start ← position
  if (← next?) = some ['\x7d'] then return none
  let low ← takeAll Char.isDigit
  let high ← if ← accept ',' then takeAll Char.isDigit else pure low
  unless ← accept '\x7d' do
    modify fun s => { s with rest }
    return none
  let least ← repetitions low
  let most ← if high.isEmpty then pure unlimited else repetitions high
  if most < least then failAt .repeatBounds ((← position) - start)
  return some (least, most)

def appetite : Reader Appetite := do
  if ← accept '?' then return .lazy
  if ← accept '+' then return .possessive
  return .greedy

/-- The trees read so far, the last one first, with the last one repeated. The sign of the
repetition has its first character before `here`. -/
def repeatLast (here : Nat) (least most : Nat) (before : List Tree) : Reader (List Tree) := do
  let back := (← position) - here + 1
  match before with
  | [] | .at _ :: _ => failAt .nothingToRepeat back
  | .repeated .. :: _ => failAt .multipleRepeat back
  | last :: r =>
    return .repeated (← appetite) least most last :: r

def joined (before : List Tree) : Tree := before.foldl (fun r t => .append t r) .empty

def close (start : Nat) : Reader Unit := do
  unless ← accept ')' do failAt .unterminatedGroup ((← position) - start)

inductive Opening where
  | capture (name : Option String)
  | plain (on off : List Flag)
  | atomic
  | ahead (negated : Bool)
  | behind (negated : Bool)
  | condition (group : Nat)
  | done (tree : Tree)
  | skipped
  | flags
  deriving Repr

def opening (start : Nat) : Reader Opening := do
  unless ← accept '?' do return .capture none
  let some piece ← take? | fail .endOfPattern
  match piece with
  | ['P'] =>
    if ← accept '<' then
      let name ← takeName "group name" '>'
      checkName name
      return .capture (some name)
    if ← accept '=' then return .done (← againByName)
    let some piece ← take? | fail .endOfPattern
    failAt (.extension ("P" ++ String.ofList piece)) (piece.length + 2)
  | [':'] => return .plain [] []
  | ['#'] =>
    skipComment start ((← get).rest.length + 1)
    return .skipped
  | ['='] => return .ahead false
  | ['!'] => return .ahead true
  | ['<'] =>
    let some piece ← take? | fail .endOfPattern
    match piece with
    | ['='] => return .behind false
    | ['!'] => return .behind true
    | _ => failAt (.extension ("<" ++ String.ofList piece)) (piece.length + 2)
  | ['('] => return .condition (← conditionGroup)
  | ['>'] => return .atomic
  | [c] =>
    if c = '-' || (flag? c).isSome then
      match ← groupFlags c with
      | some (on, off) => return .plain on off
      | none => return .flags
    failAt (.extension (String.singleton c)) 2
  | _ => failAt (.extension (String.ofList piece)) (piece.length + 1)

def hasFlag (f : Flag) : Reader Bool := return (← get).flags.contains f

def isLayout (c : Char) : Bool :=
  c = ' ' || c = '\t' || c = '\n' || c = '\r' || c = '\x0b' || c = '\x0c'

mutual

/-- Alternatives. At the top the flags of the whole pattern may stand in front of the first. -/
def alternatives : Nat → Bool → Bool → Bool → Reader Tree
  | 0, _, _, _ => return .empty
  | fuel + 1, comments, top, first => do
    let tree ← sequence fuel comments first []
    if ← accept '|' then
      let comments ← if top then hasFlag .verbose else pure comments
      return .either tree (← alternatives fuel comments top false)
    return tree

def sequence : Nat → Bool → Bool → List Tree → Reader Tree
  | 0, _, _, before => return joined before
  | fuel + 1, comments, first, before => do
    let go := sequence fuel comments first
    match ← next? with
    | none | some ['|'] | some [')'] => return joined before
    | some piece =>
      let _ ← take?
      match piece with
      | ['\\', c] => go ((← escape c) :: before)
      | [c] =>
        if comments && isLayout c then go before
        else if comments && c = '#' then
          skipLine ((← get).rest.length + 1)
          go before
        else
          match c with
          | '[' =>
            let start := (← position) - 1
            let negated ← accept '^'
            let ms ← members start ((← get).rest.length + 1) []
            go (.set negated ms :: before)
          | '?' => go (← repeatLast (← position) 0 1 before)
          | '*' => go (← repeatLast (← position) 0 unlimited before)
          | '+' => go (← repeatLast (← position) 1 unlimited before)
          | '{' =>
            let here ← position
            match ← bounds? with
            | none => go (.point c.toNat :: before)
            | some (least, most) => go (← repeatLast here least most before)
          | '.' => go (.any :: before)
          | '^' => go (.at .lineStart :: before)
          | '$' => go (.at .lineEnd :: before)
          | '(' =>
            let start := (← position) - 1
            match ← opening start with
            | .flags =>
              unless first && before.isEmpty do failAt .lateFlags ((← position) - start)
              sequence fuel (← hasFlag .verbose) first before
            | .skipped => go before
            | .done tree => go (tree :: before)
            | opened => go ((← groupBody fuel comments start opened) :: before)
          | _ => go (.point c.toNat :: before)
      | _ => go before

def groupBody : Nat → Bool → Nat → Opening → Reader Tree
  | 0, _, _, _ => return .empty
  | fuel + 1, comments, start, opened => do
    match opened with
    | .capture name =>
      let n ← openGroup name
      let body ← alternatives fuel comments false false
      close start
      closeGroup n body
      return .group n body
    | .plain on off =>
      let comments := (comments || on.contains .verbose) && !off.contains .verbose
      let body ← alternatives fuel comments false false
      close start
      return .within on off body
    | .atomic =>
      let body ← alternatives fuel comments false false
      close start
      return .atomic body
    | .ahead negated =>
      let body ← alternatives fuel comments false false
      close start
      return .ahead negated body
    | .behind negated =>
      let outer := (← get).behindFrom
      if outer.isNone then modify fun s => { s with behindFrom := some (s.groups + 1) }
      let body ← alternatives fuel comments false false
      modify fun s => { s with behindFrom := outer }
      close start
      return .behind negated (body.width (← get).widths) body
    | .condition n =>
      let yes ← sequence fuel comments false []
      let no ← if ← accept '|' then sequence fuel comments false [] else pure .empty
      if (← next?) = some ['|'] then fail .branches
      close start
      return .given n yes no
    | .done tree => return tree
    | .skipped | .flags => return .empty

end

structure Result where
  tree : Tree
  flags : List Flag

def whole : Reader Result := do
  goTo (← get).rest
  let tree ← alternatives (4 * (← get).rest.length + 4) false true true
  let s ← get
  if s.flags.contains .ascii && s.flags.contains .allScripts then throw .scriptConflict
  unless s.rest.isEmpty do fail .unbalanced
  match s.numbers.find? fun e => decide (s.groups < e.1) with
  | some e => throw (.bad (.groupNumber e.1) (some e.2))
  | none => pure ()
  for w in tree.behindWidths do
    if unlimited < w.least then throw (.bad .behindTooFar none)
    if w.least ≠ w.most then throw (.bad .behindWidth none)
  return ⟨tree, s.flags⟩

end Reader

def read (text : String) : Except Fault Reader.Result :=
  let cs := text.toList
  let start : Reading :=
    { rest := pieces 0 cs, finish := cs.length, flags := [], names := [], groups := 0,
      widths := [], behindFrom := none, numbers := [] }
  (Reader.whole.run start).map (·.1)

end LedgerReport.Pattern
