/-!
# Log records

What a part of the library has to say about its own work. Records are data: they are gathered in the
order in which they arise, and only the outer layer decides where they are written.
-/

namespace ApiLint

/-- A message of a logger at a level. -/
structure LogRecord where
  logger : String
  level : Int
  message : String
  deriving DecidableEq, Repr, Inhabited

/-- The level of messages that describe the work step by step. -/
def debugLevel : Int := 10

/-- A message that describes a step of the work. -/
def LogRecord.debug (logger message : String) : LogRecord := ⟨logger, debugLevel, message⟩

end ApiLint
