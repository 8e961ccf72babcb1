import Throughput.Word

/-!
# The bounds of clocks and lists

A clock counts seconds in a word and cannot tell every moment, and a list has room for so many bytes
only. A program that goes beyond is stopped. Memory is taken to be enough for what is put into a list: it
is only the room asked for beforehand, for elements that may never come, that can be refused.
-/

namespace Throughput

/-- The last moment that a clock can tell. It counts seconds in a signed word. -/
def Instant.latest : Instant := seconds (UInt64.size / 2) - 1

/-- The longest length of time. Its seconds are an unsigned word. -/
def Duration.longest : Duration := seconds UInt64.size - 1

/-- How many elements of a size in bytes a list can be asked to have room for. -/
def roomFor (size : Nat) : Nat := (UInt64.size / 2 - 1) / size

/-- What has gone beyond its bounds. -/
inductive Overflow where
  | instant
  | duration
  | capacity
deriving DecidableEq, Repr

/-- The wording of an overflow. -/
def Overflow.message : Overflow → String
  | .instant => "overflow when adding duration to instant"
  | .duration => "overflow when adding durations"
  | .capacity => "capacity overflow"

end Throughput
