import ApiLint.Console
import ApiLint.Log.Format

/-!
# Where log records are written

The records of this package's loggers go to the handlers of the package. Setting up gives it two:
one for the standard output, which takes what is below a border, and one for the standard error
stream, which takes the rest. So every record that the package's level lets through is written to
one of the two streams.
-/

namespace ApiLint

/-- A handler: the stream that it writes to, the least level of the records that it takes, the level
from which on it takes none, and the format of its lines. Setting up replaces the handlers that an
earlier setup installed and no others. -/
structure LogHandler where
  stream : ConsoleStream
  least : Int := LogLevel.unset
  below : Option Int := none
  format : LogFormat := .standard
  installed : Bool := false
  deriving DecidableEq, Repr

namespace LogHandler

/-- Whether a handler takes records of a level. -/
def takes (h : LogHandler) (level : Int) : Bool := h.least ≤ level && h.below.all (level < ·)

/-- What a handler writes for a record. -/
def write (h : LogHandler) (r : LogRecord) : Console :=
  if h.takes r.level then (h.format.line? r).toList.flatMap (Console.line h.stream) else []

/-- The handler of records that have no other: it writes the messages that matter. -/
def fallback : LogHandler := { stream := .err, least := LogLevel.warning, format := .plain }

end LogHandler

/-- The level and the handlers of the package's logger. -/
structure Logging where
  level : Int := LogLevel.unset
  handlers : List LogHandler := []
  deriving DecidableEq, Repr

namespace Logging

/-- The name of the package's logger. -/
def packageLogger : String := "schema_lint"

/-- Whether a logger belongs to the package: its name is that of the package's logger, or goes on
behind it with a dot. -/
def isInPackage (logger : String) : Bool :=
  logger == packageLogger || (packageLogger ++ ".").toList.isPrefixOf logger.toList

/-- Sets up the two streams. The border between them is never below the level of debugging. -/
def configure (g : Logging) (level : Int := LogLevel.info) (border : Int := LogLevel.warning)
    (format : LogFormat := .standard) : Logging :=
  let border := max border debugLevel
  let low : LogHandler := { stream := .out, below := some border, format, installed := true }
  let high : LogHandler := { stream := .err, least := border, format, installed := true }
  { level, handlers := g.handlers.filter (!·.installed) ++ [low, high] }

/-- The level from which on the package's records are let through. -/
def threshold (g : Logging) : Int := if g.level = LogLevel.unset then LogLevel.warning else g.level

/-- Whether records of a level are let through, for which the level has to be above zero. -/
def isEnabled (g : Logging) (level : Int) : Bool := 0 < level && g.threshold ≤ level

/-- What is written for a record. -/
def write (g : Logging) (r : LogRecord) : Console :=
  let g := if isInPackage r.logger then g else {}
  if !g.isEnabled r.level then []
  else if g.handlers.isEmpty then LogHandler.fallback.write r
  else g.handlers.flatMap fun h => h.write r

/-- What is written for records. -/
def writeAll (g : Logging) (rs : List LogRecord) : Console := rs.flatMap g.write

end Logging

end ApiLint
