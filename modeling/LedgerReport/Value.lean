import LedgerReport.Number
import LedgerReport.Text.Quoted
set_option autoImplicit false

namespace LedgerReport

inductive Key where
  | text (s : String)
  | number (n : Number)
  | boolean (b : Bool)
  | null
  deriving DecidableEq

inductive Value where
  | null
  | boolean (b : Bool)
  | number (n : Number)
  | text (s : String)
  | list (items : List Value)
  | map (entries : List (Key × Value))

abbrev Entries := List (Key × Value)

namespace Key

def number? : Key → Option Number
  | number n => some n
  | boolean b => some (.whole (if b then 1 else 0))
  | _ => none

def same (a b : Key) : Bool :=
  match a, b with
  | text s, text t => s == t
  | null, null => true
  | _, _ => match a.number?, b.number? with
    | some m, some n => m.same n
    | _, _ => false

def quoted : Key → String
  | text s => Text.quoted s
  | number n => n.text
  | boolean b => if b then "True" else "False"
  | null => "None"

def display : Key → String
  | text s => s
  | k => k.quoted

end Key

def Entries.get? (entries : Entries) (name : String) : Option Value :=
  (entries.find? fun e => e.1 == .text name).map (·.2)

/-- Entries with the value of a key set: in place if the key is there, at the end if not. -/
def Entries.insert : Entries → Key → Value → Entries
  | [], k, v => [(k, v)]
  | (k', v') :: r, k, v => if k'.same k then (k', v) :: r else (k', v') :: insert r k v

namespace Value

instance : Inhabited Value := ⟨.null⟩

def whole (n : Int) : Value := .number (.whole n)

def real (x : Float) : Value := .number (.real x)

def ofAmount : Amount → Value
  | some n => .number n
  | none => .null

def ofText? : Option String → Value
  | some s => .text s
  | none => .null

def ofFields (fields : List (String × Value)) : Value :=
  .map (fields.map fun f => (.text f.1, f.2))

mutual

def quoted : Value → String
  | .null => "None"
  | .boolean b => if b then "True" else "False"
  | .number n => n.text
  | .text s => Text.quoted s
  | .list items => "[" ++ String.intercalate ", " (quotedItems items) ++ "]"
  | .map entries => "\x7b" ++ String.intercalate ", " (quotedEntries entries) ++ "\x7d"

def quotedItems : List Value → List String
  | [] => []
  | v :: r => v.quoted :: quotedItems r

def quotedEntries : List (Key × Value) → List String
  | [] => []
  | (k, v) :: r => (k.quoted ++ ": " ++ v.quoted) :: quotedEntries r

end

def display : Value → String
  | .text s => s
  | v => v.quoted

/-- Whether a value counts as given: null, false, zero and everything empty do not. -/
def isGiven : Value → Bool
  | .null => false
  | .boolean b => b
  | .number n => !n.isZero
  | .text s => !s.isEmpty
  | .list items => !items.isEmpty
  | .map entries => !entries.isEmpty

/-- The number that a value counts as; truth values count as one and zero. -/
def number? : Value → Option Number
  | .number n => some n
  | .boolean b => some (.whole (if b then 1 else 0))
  | _ => none

mutual

/-- Whether two values are equal. Numbers are compared by value, maps without regard to order. -/
def same : Value → Value → Bool
  | .null, w => match w with
    | .null => true
    | _ => false
  | .text s, w => match w with
    | .text t => s == t
    | _ => false
  | .list items, w => match w with
    | .list others => sameItems items others
    | _ => false
  | .map entries, w => match w with
    | .map others => entries.length == others.length && sameEntries entries others
    | _ => false
  | .boolean b, w => match w.number? with
    | some n => (Number.whole (if b then 1 else 0)).same n
    | none => false
  | .number m, w => match w.number? with
    | some n => m.same n
    | none => false

def sameItems : List Value → List Value → Bool
  | [], w => w.isEmpty
  | v :: r, w => match w with
    | u :: s => v.same u && sameItems r s
    | [] => false

def sameEntries : List (Key × Value) → List (Key × Value) → Bool
  | [], _ => true
  | (k, v) :: r, others =>
    (match others.find? fun e => e.1.same k with
      | some e => v.same e.2
      | none => false) && sameEntries r others

end

end Value
end LedgerReport
