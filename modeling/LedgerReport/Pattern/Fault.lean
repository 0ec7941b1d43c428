import LedgerReport.Numeral
set_option autoImplicit false

namespace LedgerReport.Pattern

inductive Reason where
  | escapeAtEnd
  | escape (text : String)
  | incompleteEscape (text : String)
  | octalEscape (text : String)
  | missingBrace
  | missingName (what : String)
  | unfinishedName (closing : String)
  | characterName (name : String)
  | openGroup
  | groupInSameLookBehind
  | groupNumber (n : Nat)
  | redefined (name : String) (n earlier : Nat)
  | groupName (name : String)
  | groupNameCharacter (name : String)
  | groupZero
  | branches
  | unterminatedSet
  | range (first last : String)
  | repeatBounds
  | nothingToRepeat
  | multipleRepeat
  | endOfPattern
  | extension (text : String)
  | unterminatedComment
  | unterminatedGroup
  | lateFlags
  | unbalanced
  | flagForBytes
  | flagConflict
  | flagOff
  | flagOnAndOff
  | flagEnd
  | unknownFlag
  | missingFlag
  | missingColon
  | behindTooFar
  | behindWidth
  deriving DecidableEq, Repr

def Reason.message : Reason → String
  | .escapeAtEnd => "bad escape (end of pattern)"
  | .escape text => "bad escape " ++ text
  | .incompleteEscape text => "incomplete escape " ++ text
  | .octalEscape text => "octal escape value " ++ text ++ " outside of range 0-0o377"
  | .missingBrace => "missing \x7b"
  | .missingName what => "missing " ++ what
  | .unfinishedName closing => "missing " ++ closing ++ ", unterminated name"
  | .characterName name => "undefined character name " ++ Text.quoted name
  | .openGroup => "cannot refer to an open group"
  | .groupInSameLookBehind => "cannot refer to group defined in the same lookbehind subpattern"
  | .groupNumber n => "invalid group reference " ++ toString n
  | .redefined name n earlier =>
    "redefinition of group name " ++ Text.quoted name ++ " as group " ++ toString n ++
      "; was group " ++ toString earlier
  | .groupName name => "unknown group name " ++ Text.quoted name
  | .groupNameCharacter name => "bad character in group name " ++ Text.quoted name
  | .groupZero => "bad group number"
  | .branches => "conditional backref with more than two branches"
  | .unterminatedSet => "unterminated character set"
  | .range first last => "bad character range " ++ first ++ "-" ++ last
  | .repeatBounds => "min repeat greater than max repeat"
  | .nothingToRepeat => "nothing to repeat"
  | .multipleRepeat => "multiple repeat"
  | .endOfPattern => "unexpected end of pattern"
  | .extension text => "unknown extension ?" ++ text
  | .unterminatedComment => "missing ), unterminated comment"
  | .unterminatedGroup => "missing ), unterminated subpattern"
  | .lateFlags => "global flags not at the start of the expression"
  | .unbalanced => "unbalanced parenthesis"
  | .flagForBytes => "bad inline flags: cannot use 'L' flag with a str pattern"
  | .flagConflict => "bad inline flags: flags 'a', 'u' and 'L' are incompatible"
  | .flagOff => "bad inline flags: cannot turn off flags 'a', 'u' and 'L'"
  | .flagOnAndOff => "bad inline flags: flag turned on and off"
  | .flagEnd => "missing -, : or )"
  | .unknownFlag => "unknown flag"
  | .missingFlag => "missing flag"
  | .missingColon => "missing :"
  | .behindTooFar => "looks too much behind"
  | .behindWidth => "look-behind requires fixed-width pattern"

inductive Fault where
  | bad (reason : Reason) (position : Option Nat)
  | tooManyRepetitions
  | overlong (digits : String)
  | scriptConflict
  deriving DecidableEq, Repr

def placeText (pattern : List Char) (position : Nat) : String :=
  let before := pattern.take position
  let line := before.count '\n' + 1
  let column := (before.reverse.takeWhile (· ≠ '\n')).length + 1
  " at position " ++ toString position ++
    if pattern.contains '\n' then
      " (line " ++ toString line ++ ", column " ++ toString column ++ ")"
    else ""

def Fault.message (pattern : String) : Fault → String
  | .bad reason (some position) => reason.message ++ placeText pattern.toList position
  | .bad reason none => reason.message
  | .tooManyRepetitions => "the repetition number is too large"
  | .overlong digits => Numeral.refusal digits
  | .scriptConflict => "ASCII and UNICODE flags are incompatible"

end LedgerReport.Pattern
