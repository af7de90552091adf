import ApiLint.Log.Record
import ApiLint.Number.Written
import ApiLint.Text.Case

/-!
# Levels of log records

A level is a number, and the higher it is the more a record matters. Some levels have names, and two
of them have two.
-/

namespace ApiLint.LogLevel

def info : Int := 20

def warning : Int := 30

def error : Int := 40

/-- The level of loggers that leave theirs to the loggers above them. -/
def unset : Int := 0

/-- The names of levels; the first name of a level is the one that it is written with. -/
def named : List (String × Int) :=
  [("CRITICAL", 50), ("ERROR", error), ("WARNING", warning), ("INFO", info), ("DEBUG", debugLevel),
    ("NOTSET", unset), ("FATAL", 50), ("WARN", warning)]

/-- The level as it is written in a line. -/
def label (level : Int) : String :=
  match named.find? (·.2 == level) with
  | some (name, _) => name
  | none => "Level " ++ writtenInt level

/-- The level of a name in any case, and a default for no name and for an unknown one. -/
def ofName (name : Option String) (default : Int) : Int :=
  (name.bind fun n => named.lookup (Text.asciiUpper n)).getD default

example : ofName (some "warn") info = 30 ∧ ofName (some "") error = 40 ∧ label 25 = "Level 25" := by
  decide +kernel

end ApiLint.LogLevel
