import WordTiles.Error

/-! Spans of time, which clocks add up. -/

namespace WordTiles

/-- The number of nanoseconds in a second. -/
def nanosecondsPerSecond : Nat := 1000000000

/-- A span of time in nanoseconds; its whole seconds fit in 64 bits. -/
structure Duration where
  nanoseconds : Nat
  inRange : nanoseconds < UInt64.size * nanosecondsPerSecond
  deriving DecidableEq

namespace Duration

/-- No time at all. -/
def zero : Duration := ⟨0, by decide⟩

/-- The span of a number of nanoseconds, if it is in range. -/
def ofNanoseconds? (nanoseconds : Nat) : Option Duration :=
  -- A span is in range if its whole seconds fit.
  if inRange : nanoseconds < UInt64.size * nanosecondsPerSecond then some ⟨nanoseconds, inRange⟩
  else none

/-- The span of whole seconds and further nanoseconds, a full second of which is carried over. -/
def ofParts? (seconds nanoseconds : Nat) : Option Duration :=
  -- Both parts are counted in nanoseconds, and the carry comes of itself.
  ofNanoseconds? (seconds * nanosecondsPerSecond + nanoseconds)

/-- The whole seconds of a span. -/
def seconds (duration : Duration) : Nat := duration.nanoseconds / nanosecondsPerSecond

/-- The nanoseconds beyond the whole seconds. -/
def subsecond (duration : Duration) : Nat := duration.nanoseconds % nanosecondsPerSecond

/-- The sum of two spans. -/
def add (a b : Duration) : Except Error Duration :=
  -- The sum is exact or it is a fault; clocks never wrap.
  match ofNanoseconds? (a.nanoseconds + b.nanoseconds) with
  | some sum => .ok sum
  | none => .error .clockOverflow

end Duration

end WordTiles
