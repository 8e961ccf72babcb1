import Throughput.Word

/-!
# Ticks of a clock

A ticker is due at regular intervals. A tick that is taken a little late leaves the schedule as it
is; one that is taken much too late moves it.
-/

namespace Throughput

/-- How far behind its schedule a tick may be taken without moving the schedule. -/
def tickTolerance : Duration := milliseconds 5

/-- The tick after one that was due at `tick` and is taken now. -/
def nextTick (interval : Duration) (tick now : Instant) : Instant :=
  if tick + tickTolerance < now then now + interval else tick + interval

end Throughput
