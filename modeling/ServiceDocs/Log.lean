/-!
# Log Records

What the library does is reported in records, each with a level. Operations that report
something return their records in order, beside their result.

## Main definitions

* `LogLevel`, `LogRecord`: the records.
* `LogRecord.text`: a record on one line.
-/

namespace ServiceDocs

/-- How much a record matters. -/
inductive LogLevel where
  /-- Something was left out that the user may have wanted. -/
  | warn
  /-- A result. -/
  | info
  /-- A step on the way. -/
  | debug
  deriving DecidableEq, Repr

/-- The name of a level. -/
def LogLevel.name : LogLevel → String
  | .warn => "WARN"
  | .info => "INFO"
  | .debug => "DEBUG"

/-- A record. -/
structure LogRecord where
  /-- How much it matters. -/
  level : LogLevel
  /-- What it says. -/
  message : String
  deriving DecidableEq, Repr

/-- A record on one line. -/
def LogRecord.text (r : LogRecord) : String := r.level.name ++ " " ++ r.message

end ServiceDocs
