import BlockSteps.Event
import BlockSteps.Text.Blank

/-!
# How reports are shown

The words by which the settings choose the least level of the reports that are shown and the form
in which they are shown.  The case of letters does not count.
-/

namespace BlockSteps

/-- The forms in which reports are shown. -/
inductive LogFormat where
  /-- For people, on several lines. -/
  | pretty
  /-- For people, on one line. -/
  | compact
  /-- For programs. -/
  | json
  deriving Repr, DecidableEq

/-- The word for a level. -/
def Level.word : Level → String
  | .trace => "trace"
  | .debug => "debug"
  | .info => "info"
  | .warn => "warn"
  | .error => "error"

/-- All levels, the most detailed first. -/
def Level.all : List Level := [.trace, .debug, .info, .warn, .error]

/-- The level that a text names. -/
def Level.ofText? (text : String) : Option Level :=
  Level.all.find? fun l => l.word == Text.lowered text

/-- The word for a form. -/
def LogFormat.word : LogFormat → String
  | .pretty => "pretty"
  | .compact => "compact"
  | .json => "json"

/-- All forms. -/
def LogFormat.all : List LogFormat := [.pretty, .compact, .json]

/-- The form that a text names. -/
def LogFormat.ofText? (text : String) : Option LogFormat :=
  LogFormat.all.find? fun f => f.word == Text.lowered text

/-- Why a choice of reports is refused. -/
inductive LoggingError where
  /-- A text names no level. -/
  | noLevel (text : String)
  /-- A text names no form. -/
  | noFormat (text : String)
  deriving Repr, DecidableEq

/-- The reason in words. -/
def LoggingError.message : LoggingError → String
  | .noLevel text =>
    "Invalid log level '" ++ text ++ "'. Must be one of: " ++
      ", ".intercalate (Level.all.map Level.word)
  | .noFormat text =>
    "Invalid log format '" ++ text ++ "'. Must be one of: " ++
      ", ".intercalate (LogFormat.all.map LogFormat.word)

/-- The level that a text names, or why there is none. -/
def Level.ofText (text : String) : Except LoggingError Level :=
  match Level.ofText? text with
  | some l => .ok l
  | none => .error (.noLevel text)

/-- The form that a text names, or why there is none. -/
def LogFormat.ofText (text : String) : Except LoggingError LogFormat :=
  match LogFormat.ofText? text with
  | some f => .ok f
  | none => .error (.noFormat text)

/-- Which reports are shown, and how. -/
structure Logging where
  /-- The least level that is shown. -/
  level : Level
  /-- The form. -/
  format : LogFormat
  deriving Repr, DecidableEq

end BlockSteps
