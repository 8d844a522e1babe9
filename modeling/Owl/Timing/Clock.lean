/-
A clock that is read step by step.

The clock counts units of `1 / 1024` second.  It starts at zero and moves on after
every reading, by steps that recur in a fixed order; a step may also go back.
-/
import Owl.Number.Binary64

namespace Owl

/-- A clock. -/
structure Clock where
  /-- How far the clock moves on after each reading, over and over. -/
  steps : List Int
  /-- How often the clock has been read. -/
  readings : Nat := 0
  /-- The time, in units of `1 / 1024` second. -/
  now : Int := 0
deriving DecidableEq, Repr

namespace Clock

/-- The step after reading number `k`. -/
def step (c : Clock) (k : Nat) : Int := c.steps.getD (k % c.steps.length) 0

def advance (c : Clock) : Clock :=
  { c with readings := c.readings + 1, now := c.now + c.step c.readings }

def seconds (c : Clock) : Binary64 := .ofQuotient (c.now < 0) c.now.natAbs 1024

end Clock

abbrev Timed (ε : Type) := ExceptT ε (StateM Clock)

namespace Timed

variable {ε α : Type}

def read : Timed ε Binary64 := modifyGet fun c => (c.seconds, c.advance)

/-- Does one thing between two readings: what it gives, and the time between them.  If it fails,
there is no second reading. -/
def measure (work : Except ε α) : Timed ε (α × Binary64) := do
  let start ← read
  let result ← work
  let stop ← read
  return (result, stop.sub start)

end Timed

end Owl
