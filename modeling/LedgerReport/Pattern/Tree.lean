import LedgerReport.Text.Basic
set_option autoImplicit false

namespace LedgerReport.Pattern

inductive Flag where
  | ignoreCase
  | multiLine
  | dotAll
  | verbose
  | ascii
  | allScripts
  deriving DecidableEq, Repr

inductive CharKind where
  | digit
  | space
  | word
  deriving DecidableEq, Repr

inductive Member where
  | point (n : Nat)
  | range (first last : Nat)
  | kind (k : CharKind) (negated : Bool)
  deriving DecidableEq, Repr

inductive Place where
  | textStart
  | lineStart
  | lineEnd
  | textEnd
  | boundary
  | noBoundary
  deriving DecidableEq, Repr

/-- Which of several numbers of repetitions is tried first, and whether others are tried. -/
inductive Appetite where
  | greedy
  | lazy
  | possessive
  deriving DecidableEq, Repr

structure Width where
  least : Nat
  most : Nat
  deriving DecidableEq, Repr

def unlimited : Nat := 4294967295

inductive Tree where
  | empty
  | point (n : Nat)
  | any
  | set (negated : Bool) (members : List Member)
  | at (place : Place)
  | append (first second : Tree)
  | either (first second : Tree)
  | repeated (appetite : Appetite) (least most : Nat) (body : Tree)
  | group (n : Nat) (body : Tree)
  | within (on off : List Flag) (body : Tree)
  | atomic (body : Tree)
  | ahead (negated : Bool) (body : Tree)
  /-- what stands before, with the width of the body -/
  | behind (negated : Bool) (width : Width) (body : Tree)
  | again (n : Nat)
  | given (n : Nat) (yes no : Tree)
  deriving Repr

namespace Tree

def width (groups : List (Nat × Width)) : Tree → Width
  | empty | .at _ | ahead .. | behind .. => ⟨0, 0⟩
  | point _ | any | set .. => ⟨1, 1⟩
  | append a b =>
    let v := a.width groups
    let w := b.width groups
    ⟨v.least + w.least, v.most + w.most⟩
  | either a b | given _ a b =>
    let v := a.width groups
    let w := b.width groups
    ⟨min v.least w.least, max v.most w.most⟩
  | repeated _ least most body =>
    let w := body.width groups
    ⟨w.least * least, w.most * most⟩
  | group _ body | within _ _ body | atomic body => body.width groups
  | again n => ((groups.find? fun g => g.1 == n).map (·.2)).getD ⟨0, 0⟩

/-- The widths of what is looked for before a place, in the order of the pattern. -/
def behindWidths : Tree → List Width
  | behind _ w body => w :: body.behindWidths
  | append a b | either a b | given _ a b => a.behindWidths ++ b.behindWidths
  | repeated _ _ _ body | group _ body | within _ _ body | atomic body | ahead _ body =>
    body.behindWidths
  | _ => []

end Tree
end LedgerReport.Pattern
