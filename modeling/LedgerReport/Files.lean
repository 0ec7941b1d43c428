import LedgerReport.Text.Basic
import LedgerReport.Error
set_option autoImplicit false

namespace LedgerReport.FileName

def pieces : List Char → List (List Char)
  | [] => [[]]
  | c :: r =>
    match pieces r with
    | [] => [[c]]
    | p :: ps => if c = '/' then [] :: p :: ps else (c :: p) :: ps

def isIdle (part : List Char) : Bool := part.isEmpty || part = ['.']

def parts (name : String) : List (List Char) := (pieces name.toList).filter fun p => !isIdle p

def last (name : String) : List Char := (pieces name.toList).getLast?.getD []

def root (name : String) : List Char :=
  match name.toList with
  | '/' :: '/' :: '/' :: _ => ['/']
  | '/' :: '/' :: _ => ['/', '/']
  | '/' :: _ => ['/']
  | _ => []

def simplified (name : String) : String :=
  let body := List.intercalate ['/'] (parts name)
  let whole := root name ++ body
  if whole.isEmpty then "." else String.ofList whole

/-- The suffix of a last part: from its last point, which is neither its first character nor its
last one. -/
def suffixOf (part : List Char) : List Char :=
  let behind := (part.reverse.takeWhile (· ≠ '.')).reverse
  if behind.isEmpty || part.length ≤ behind.length + 1 then [] else '.' :: behind

def suffix (name : String) : List Char := suffixOf ((parts name).getLast?.getD [])

end LedgerReport.FileName

namespace LedgerReport

abbrev Files := List (String × String)

namespace Files

def content (files : Files) (name : String) : Except Error String :=
  match files.find? fun f => FileName.simplified f.1 == FileName.simplified name with
  | some f => .ok f.2
  | none => .error .fileNotFound

/-- What stands in the file that is opened by a name as it is written: there can be no file where
the name tells a directory. -/
def opened (files : Files) (name : String) : Except Error String := do
  let content ← files.content name
  if FileName.isIdle (FileName.last name) then .error .notADirectory else .ok content

def text (files : Files) (name : String) : Except Error String :=
  (files.content name).map Text.ofFile

end Files
end LedgerReport
