import LedgerReport.Error
set_option autoImplicit false

namespace LedgerReport

inductive Field where
  | code1
  | code2
  | code3
  | name1
  | name2
  | name3
  | statementType
  | accountCode
  deriving DecidableEq, Repr

namespace Field

def all : List Field := [code1, code2, code3, name1, name2, name3, statementType, accountCode]

def name : Field → String
  | code1 => "code1"
  | code2 => "code2"
  | code3 => "code3"
  | name1 => "name1"
  | name2 => "name2"
  | name3 => "name3"
  | statementType => "statement_type"
  | accountCode => "account_code"

def ofName? (name : String) : Option Field := all.find? fun f => f.name == name

theorem mem_all (f : Field) : f ∈ all := by cases f <;> decide

theorem ofName?_name (f : Field) : ofName? f.name = some f := by cases f <;> decide

end Field

structure Movement where
  amount : Amount
  year : Int
  period : Int
  code1 : Value
  code2 : Value
  code3 : Value
  name1 : Value
  name2 : Value
  name3 : Value
  statementType : Value
  accountCode : Value

namespace Movement

def ofFields (amount : Amount) (year period : Int) (value : Field → Value) : Movement :=
  { amount, year, period
    code1 := value .code1
    code2 := value .code2
    code3 := value .code3
    name1 := value .name1
    name2 := value .name2
    name3 := value .name3
    statementType := value .statementType
    accountCode := value .accountCode }

def get (m : Movement) : Field → Value
  | .code1 => m.code1
  | .code2 => m.code2
  | .code3 => m.code3
  | .name1 => m.name1
  | .name2 => m.name2
  | .name3 => m.name3
  | .statementType => m.statementType
  | .accountCode => m.accountCode

@[simp] theorem get_ofFields (amount : Amount) (year period : Int) (value : Field → Value)
    (f : Field) : (ofFields amount year period value).get f = value f := by
  cases f <;> rfl

theorem ofFields_get (m : Movement) : ofFields m.amount m.year m.period m.get = m := rfl

def values (m : Movement) : List Value :=
  .ofAmount m.amount :: .whole m.year :: .whole m.period :: Field.all.map m.get

def columns : List String := "amount" :: "year" :: "period" :: Field.all.map Field.name

def record (m : Movement) : Entries :=
  (columns.zip m.values).map fun c => (.text c.1, c.2)

def signature (m : Movement) : String :=
  "(" ++ String.intercalate ", " (m.values.map Value.quoted) ++ ")"

end Movement
end LedgerReport
