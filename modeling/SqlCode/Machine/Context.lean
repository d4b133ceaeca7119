import SqlCode.TimeUnit

/-!
# Evaluation context

Who asks, and one reading of the clock that all clock functions of an evaluation share.
-/

namespace SqlCode

/-- The context that system functions read. Times are in milliseconds. -/
structure Context where
  timestamp : Int := 0
  offset : Int := 0
  user : String := "sa"
  systemUser : String := "system"
  locale : String := "en"
deriving DecidableEq, Repr

namespace Context

def localTimestamp (c : Context) : Int := c.timestamp + c.offset

def currentDate (c : Context) : Int := c.timestamp / millisPerDay

def currentTime (c : Context) : Int := c.timestamp % millisPerDay

def localTime (c : Context) : Int := c.localTimestamp % millisPerDay

end Context

end SqlCode
