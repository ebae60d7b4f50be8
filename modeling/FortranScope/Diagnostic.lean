import FortranScope.Source
import FortranScope.Text.Quoted

/-!
# Diagnostics

A `Cause` says what is wrong with the source, a `Diagnostic` adds where and how severely,
and a `Log` is the list of the diagnostics of an analysis in the order they were
reported.  The wording of every message, of the constraint behind it and of the advice
that goes with it is fixed here.
-/

namespace FortranScope

/-- What a diagnostic reports.  A text carried by a cause is the spelling at fault. -/
inductive Cause where
  | unrecognisedToken (text : String)
  | unexpectedToken (text : String)
  | numberParseError (text : String)
  | symbolAlreadyDeclared (name : String)
  | importNoneNotSole
  | importAllNotSole
  | importOnlyMismatch
  | undeclaredName (name : String)
  | unsupportedExpression (what : String)
  | invalidKindParameter (kind : String)
  | divisionByZero
  | integerOverflow
deriving DecidableEq, Repr

namespace Cause

/-- The word that names the sort of fault. -/
def name : Cause → String
  | unrecognisedToken _ => "UnrecognisedToken"
  | unexpectedToken _ => "UnexpectedToken"
  | numberParseError _ => "NumberParseError"
  | symbolAlreadyDeclared _ => "SymbolAlreadyDeclared"
  | importNoneNotSole => "ImportNoneNotSole"
  | importAllNotSole => "ImportAllNotSole"
  | importOnlyMismatch => "ImportOnlyMismatch"
  | undeclaredName _ => "UndeclaredName"
  | unsupportedExpression _ => "UnsupportedExpression"
  | invalidKindParameter _ => "InvalidKindParameter"
  | divisionByZero => "DivisionByZero"
  | integerOverflow => "IntegerOverflow"

/-- The message without its severity. -/
def message : Cause → String
  | unrecognisedToken text => "unrecognised token: " ++ Text.quoted text
  | unexpectedToken text => "unexpected token: " ++ Text.quoted text
  | numberParseError text => "error parsing number: " ++ Text.quoted text
  | symbolAlreadyDeclared name => Text.quoted name ++ " is already declared in this scope"
  | importNoneNotSole => "IMPORT,NONE must be the only IMPORT statement in a scope"
  | importAllNotSole => "IMPORT,ALL must be the only IMPORT statement in a scope"
  | importOnlyMismatch => "Every IMPORT must have ONLY specifier if one of them does"
  | undeclaredName name => "no explicit type declared for " ++ Text.quoted name
  | unsupportedExpression what => what ++ " is not supported in this context"
  | invalidKindParameter kind => "invalid kind parameter " ++ Text.quoted kind
  | divisionByZero => "division by zero"
  | integerOverflow => "integer overflow"

/-- The number of the constraint of the language standard that is violated, if the cause
is such a violation. -/
def rule : Cause → Option String
  | importNoneNotSole => some "C898"
  | importAllNotSole => some "C898"
  | importOnlyMismatch => some "C8100"
  | _ => none

/-- What to do about the fault, where there is advice to give. -/
def tip : Cause → Option String
  | unexpectedToken text => some ("Unexpected token: `" ++ text ++ "`")
  | numberParseError text =>
    some ("Invalid number: `" ++ text ++ "`, is it above the integer limit?")
  | symbolAlreadyDeclared name => some ("`" ++ name ++ "` is already declared in this scope")
  | importNoneNotSole => some "Remove the other IMPORT statements from this scope"
  | importAllNotSole => some "Remove the other IMPORT statements from this scope"
  | importOnlyMismatch =>
    some "Add the ONLY specifier to every IMPORT statement in this scope"
  | undeclaredName name => some ("`" ++ name ++ "` is not visible in this scope")
  | invalidKindParameter kind =>
    some ("Kind parameter `" ++ kind ++ "` must be a positive integer constant")
  | _ => none

end Cause

/-- Whether a diagnostic makes the source unusable. -/
inductive Severity where
  | error
  | warning
deriving DecidableEq, Repr

/-- The word a severity is shown by. -/
def Severity.text : Severity → String
  | error => "error"
  | warning => "warning"

/-- A fault of the source at a place. -/
structure Diagnostic where
  cause : Cause
  position : Position
  severity : Severity
deriving DecidableEq, Repr

namespace Diagnostic

/-- `cause` as an error at `position`. -/
def error (cause : Cause) (position : Position) : Diagnostic :=
  ⟨cause, position, .error⟩

/-- `cause` as a warning at `position`. -/
def warning (cause : Cause) (position : Position) : Diagnostic :=
  ⟨cause, position, .warning⟩

/-- The severity and the message of `d`. -/
def text (d : Diagnostic) : String := d.severity.text ++ ": " ++ d.cause.message

end Diagnostic

/-- The diagnostics of an analysis, oldest first. -/
abbrev Log : Type := List Diagnostic

/-- Whether some diagnostic of `log` is an error. -/
def Log.hasErrors (log : Log) : Bool := log.any fun d => d.severity = .error

end FortranScope
