import HostScript.Numeral.Integer
import HostScript.Source.Position
import HostScript.Text.Quoted
import HostScript.Value.Basic

/-!
# Failures

Why an evaluation fails, where, and through which calls. A position and a backtrace are attached
once: what is attached first stays.
-/

namespace HostScript

open Numeral Text

inductive Jump where
  | brk | cont
  deriving DecidableEq, Repr

def Jump.keyword : Jump → String
  | .brk => "break"
  | .cont => "continue"

inductive Cause where
  /-- A value, shown as text, has no counterpart of a kind. -/
  | conversion (value : String) (target : Kind)
  | unsupportedConversion (source target : String)
  | undefinedOperation (op : String)
  | unsupportedOperation (description : String)
  | emptyStack
  | divisionByZero
  | moduloByZero
  | undefinedVariable (name : String)
  | undefinedFunction (name : String)
  | noField (typeName name : String)
  | cannotSet (target : String)
  | cannotIndex (typeName : String)
  | cannotRange (typeName : String)
  | indexOutOfBounds (index : Int64)
  | parameterMismatch (expected got : Nat)
  /-- An argument, shown as text, cannot be what the function declares. -/
  | cast (index : Nat) (value : String) (target : Kind)
  /-- What had to be a value was none. -/
  | noResult (what : String)
  | stackOverflow (limit : Nat)
  | hostPanic (message : String)
  | duplicateFunction (isPrivate : Bool) (name : String) (previous : Position)
  | invalidControl (jump : Jump)
  /-- All that a host reports in its own words. -/
  | custom (message : String)
  deriving DecidableEq, Repr

namespace Cause

def negativeShift (amount : Int64) : Cause :=
  .custom ("negative shift amount " ++ intText amount.toInt)

def mainNotDefined : Cause :=
  .custom "main() function not defined"

def spreadWithoutArguments : Cause :=
  .custom "'...' with no arguments"

def unsupportedUnary (op operand : String) : Cause :=
  .unsupportedOperation (op ++ " " ++ operand)

def unsupportedBinary (left op right : String) : Cause :=
  .unsupportedOperation (left ++ " " ++ op ++ " " ++ right)

def message : Cause → String
  | .conversion value target => "cannot convert " ++ quote value ++ " to " ++ target.name
  | .unsupportedConversion source target => "unable to convert " ++ source ++ " to " ++ target
  | .undefinedOperation op => "undefined operation " ++ quote op
  | .unsupportedOperation description => "operation \"" ++ description ++ "\" unsupported"
  | .emptyStack => "stack is empty"
  | .divisionByZero => "division by zero"
  | .moduloByZero => "modulo by zero"
  | .undefinedVariable name => "undefined variable: " ++ name
  | .undefinedFunction name => "undefined function: " ++ name
  | .noField typeName name => typeName ++ " has no field " ++ quote name
  | .cannotSet target => "cannot set " ++ target
  | .cannotIndex typeName => "cannot index " ++ typeName
  | .cannotRange typeName => "cannot range over " ++ typeName
  | .indexOutOfBounds index => "index " ++ intText index.toInt ++ " out of bounds"
  | .parameterMismatch expected got =>
    "parameter mismatch, expected " ++ natText expected ++ " got " ++ natText got
  | .cast index value target =>
    "argument " ++ natText index ++ ": cannot cast " ++ value ++ " to " ++ target.name
  | .noResult what => "no result from " ++ what
  | .stackOverflow limit => "maximum call depth exceeded (limit: " ++ natText limit ++ ")"
  | .hostPanic message => "panic: " ++ message
  | .duplicateFunction isPrivate name previous =>
    (if isPrivate then "private" else "public") ++ " function " ++ quote name
      ++ " already defined at " ++ previous.text
  | .invalidControl jump => jump.keyword ++ " not allowed here"
  | .custom message => message

end Cause

/-- A call of a script function: its name and where the call stands; the host's own
calls stand nowhere. -/
structure Frame where
  name : String
  site : Option Position
  deriving DecidableEq, Repr

/-- Calls, the most recent first. -/
abbrev Backtrace := List Frame

def Backtrace.text (frames : Backtrace) : String :=
  let line (index : Nat) (frame : Frame) : String :=
    "  " ++ natText index ++ ": " ++ frame.name
      ++ (match frame.site with
          | some p => " at " ++ p.text
          | none => "")
      ++ "\n"
  if frames.isEmpty then ""
  else "stack backtrace:\n" ++ String.join (frames.mapIdx line)

structure Failure where
  cause : Cause
  position : Option Position
  backtrace : Option Backtrace
  deriving DecidableEq, Repr

namespace Failure

def of (cause : Cause) : Failure := ⟨cause, none, none⟩

def locate (e : Failure) (p : Position) : Failure :=
  { e with position := e.position.or (some p) }

def through (e : Failure) (frames : Backtrace) : Failure :=
  { e with backtrace := e.backtrace.or (some frames) }

def message (e : Failure) : String :=
  e.cause.message

def text (e : Failure) : String :=
  match e.position with
  | some p => p.text ++ ": " ++ e.message
  | none => e.message

end Failure

end HostScript
