import LedgerReport.Report.Read
import LedgerReport.Command.Run
set_option autoImplicit false

namespace LedgerReport

section Suffix
variable {α : Type} {a : α} {w l pre : List α}

end Suffix

namespace FileName

/-- Whether a name leads to a file, with something in front of the suffix if it is one of YAML
files. -/
structure IsPlain (name : String) : Prop where
  leads : isIdle (last name) = false
  yaml : (last name).map Char.toLower ≠ ".yaml".toList
  yml : (last name).map Char.toLower ≠ ".yml".toList

end FileName
end LedgerReport
