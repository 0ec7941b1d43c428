import LedgerReport.Pattern.Reader
import LedgerReport.Text.Basic
import LedgerReport.Text.Case
set_option autoImplicit false

namespace LedgerReport.Pattern
open Text

/-- A place in a text and the spans of the groups matched so far, the latest first. -/
structure Trace where
  place : Nat
  spans : List (Nat × Nat × Nat)

def changeFlags (flags on off : List Flag) : List Flag :=
  let kept := if on.contains .ascii || on.contains .allScripts then
      flags.filter fun f => f ≠ .ascii ∧ f ≠ .allScripts
    else flags
  (kept ++ on).filter fun f => !off.contains f

def CharKind.test (ascii : Bool) (c : Char) : CharKind → Bool
  | .digit => isDecimalDigit c && (!ascii || c.toNat < 128)
  | .space => if ascii then c = ' ' || (9 ≤ c.toNat && c.toNat ≤ 13) else isBlank c
  | .word => isWord c && (!ascii || c.toNat < 128)

def variants (flags : List Flag) (c : Char) : List Nat :=
  if flags.contains .ignoreCase then
    if flags.contains .ascii then [c.toNat, c.toLower.toNat, c.toUpper.toNat] else caseVariants c
  else [c.toNat]

def Member.test (flags : List Flag) (c : Char) : Member → Bool
  | .point n => (variants flags c).contains n
  | .range first last => (variants flags c).any fun n => first ≤ n && n ≤ last
  | .kind k negated => k.test (flags.contains .ascii) c != negated

def isBoundary (ascii : Bool) (text : Array Char) (place : Nat) : Bool :=
  let isWordAt (i : Nat) : Bool := match text[i]? with
    | some c => CharKind.word.test ascii c
    | none => false
  (0 < place && isWordAt (place - 1)) != isWordAt place

def Place.test (flags : List Flag) (text : Array Char) (place : Nat) : Place → Bool
  | .textStart => place = 0
  | .textEnd => place = text.size
  | .lineStart =>
    place = 0 || (flags.contains .multiLine && text[place - 1]? = some '\n')
  | .lineEnd =>
    place = text.size ||
      (text[place]? = some '\n' && (flags.contains .multiLine || place + 1 = text.size))
  | .boundary => !text.isEmpty && isBoundary (flags.contains .ascii) text place
  | .noBoundary => !text.isEmpty && !isBoundary (flags.contains .ascii) text place

abbrev Rest := Trace → Option Trace

/-- Repetitions that are tried before what follows. The count is that of the repetitions so far,
`since` the place where the last one started. -/
def repeatGreedy (step : Trace → Rest → Option Trace) (least most : Nat) (k : Rest) :
    Nat → Nat → Option Nat → Rest
  | 0, _, _, t => k t
  | fuel + 1, count, since, t =>
    if count < least then step t (repeatGreedy step least most k fuel (count + 1) since)
    else if (count < most || most = unlimited) && since ≠ some t.place then
      match step t (repeatGreedy step least most k fuel (count + 1) (some t.place)) with
      | some u => some u
      | none => k t
    else k t

def repeatLazy (step : Trace → Rest → Option Trace) (least most : Nat) (k : Rest) :
    Nat → Nat → Option Nat → Rest
  | 0, _, _, t => k t
  | fuel + 1, count, since, t =>
    if count < least then step t (repeatLazy step least most k fuel (count + 1) since)
    else
      match k t with
      | some u => some u
      | none =>
        if (count < most || most = unlimited) && since ≠ some t.place then
          step t (repeatLazy step least most k fuel (count + 1) (some t.place))
        else none

def repeatPossessive (step : Trace → Rest → Option Trace) (least most : Nat) :
    Nat → Nat → Option Nat → Rest
  | 0, _, _, t => some t
  | fuel + 1, count, since, t =>
    if count < least || ((count < most || most = unlimited) && since ≠ some t.place) then
      match step t some with
      | some t' => repeatPossessive step least most fuel (count + 1) (some t.place) t'
      | none => if count < least then none else some t
    else some t

def takeChar (text : Array Char) (test : Char → Bool) (t : Trace) (k : Rest) : Option Trace :=
  match text[t.place]? with
  | some c => if test c then k { t with place := t.place + 1 } else none
  | none => none

def takeSpan (flags : List Flag) (text : Array Char) (first last : Nat) (t : Trace) (k : Rest) :
    Option Trace :=
  let length := last - first
  let equal (i : Nat) : Bool :=
    match text[first + i]?, text[t.place + i]? with
    | some c, some d => (variants flags d).contains c.toNat
    | _, _ => false
  if (List.range length).all equal then k { t with place := t.place + length } else none

def Tree.run (text : Array Char) : Tree → List Flag → Trace → Rest → Option Trace
  | .empty, _, t, k => k t
  | .point n, flags, t, k => takeChar text ((Member.point n).test flags) t k
  | .any, flags, t, k => takeChar text (fun c => c ≠ '\n' || flags.contains .dotAll) t k
  | .set negated ms, flags, t, k =>
    takeChar text (fun c => ms.any (Member.test flags c) != negated) t k
  | .at place, flags, t, k => if place.test flags text t.place then k t else none
  | .append a b, flags, t, k => a.run text flags t fun t => b.run text flags t k
  | .either a b, flags, t, k =>
    match a.run text flags t k with
    | some u => some u
    | none => b.run text flags t k
  | .repeated appetite least most body, flags, t, k =>
    let fuel := least + (text.size - t.place) + 2
    let step := fun t k => body.run text flags t k
    match appetite with
    | .greedy => repeatGreedy step least most k fuel 0 none t
    | .lazy => repeatLazy step least most k fuel 0 none t
    | .possessive => (repeatPossessive step least most fuel 0 none t).bind k
  | .group n body, flags, t, k =>
    body.run text flags t fun u => k { u with spans := (n, t.place, u.place) :: u.spans }
  | .within on off body, flags, t, k => body.run text (changeFlags flags on off) t k
  | .atomic body, flags, t, k => (body.run text flags t some).bind k
  | .ahead negated body, flags, t, k =>
    match body.run text flags t some with
    | some u => if negated then none else k { u with place := t.place }
    | none => if negated then k t else none
  | .behind negated w body, flags, t, k =>
    match if t.place < w.least then none
      else body.run text flags { t with place := t.place - w.least } some with
    | some u => if negated then none else k { u with place := t.place }
    | none => if negated then k t else none
  | .again n, flags, t, k =>
    match t.spans.find? fun s => s.1 == n with
    | some (_, first, last) => takeSpan flags text first last t k
    | none => none
  | .given n yes no, flags, t, k =>
    if t.spans.any fun s => s.1 == n then yes.run text flags t k else no.run text flags t k

structure Regex where
  source : String
  result : Reader.Result

def Regex.foundIn (r : Regex) (s : String) : Bool :=
  let text := s.toList.toArray
  (List.range (text.size + 1)).any fun place =>
    (r.result.tree.run text r.result.flags ⟨place, []⟩ some).isSome

def Regex.ofText (source : String) : Except Fault Regex :=
  (read source).map fun result => ⟨source, result⟩

end LedgerReport.Pattern
