/-!
# Points in time

A `DateTime` is a number of ticks and a kind, which no arithmetic changes; only a conversion to a
`DateTimeOffset` looks at it.  Instants of real time are numbers of ticks as well.
-/

namespace Hypepool

inductive DateTimeKind
  | unspecified
  | utc
  | localTime
  deriving DecidableEq

structure DateTime where
  ticks : Int
  kind : DateTimeKind
  deriving DecidableEq

/-- `TimeSpan.FromSeconds`. -/
def timeSpanOfSeconds (seconds : Int) : Int := seconds * 10000000

namespace DateTime

/-- `DateTime.UtcNow`, at an instant. -/
def utcNow (instant : Int) : DateTime := ⟨instant, .utc⟩

/-- The sum with a `TimeSpan`. -/
def add (value : DateTime) (span : Int) : DateTime := { value with ticks := value.ticks + span }

def addSeconds (value : DateTime) (seconds : Int) : DateTime :=
  value.add (timeSpanOfSeconds seconds)

end DateTime

/-- A clock time with its offset from UTC. -/
structure DateTimeOffset where
  ticks : Int
  offset : Int
  deriving DecidableEq

/-- The conversion of a `DateTime`: the offset of one that is not UTC is that of
`TimeZoneInfo.Local`. -/
def DateTimeOffset.ofDateTime (getUtcOffset : DateTime → Int) (value : DateTime) :
    DateTimeOffset :=
  match value.kind with
  | .utc => ⟨value.ticks, 0⟩
  | .unspecified | .localTime => ⟨value.ticks, getUtcOffset value⟩

/-- `UtcTicks`: the instant. -/
def DateTimeOffset.utcTicks (value : DateTimeOffset) : Int := value.ticks - value.offset

/-- `MasterClock`, with the offset it captured. -/
structure MasterClock where
  localUtcOffset : Int

/-- `MasterClock.Now`, at an instant. -/
def MasterClock.now (clock : MasterClock) (instant : Int) : DateTime :=
  (DateTime.utcNow instant).add clock.localUtcOffset

end Hypepool
