import ShaderFlow.Number.Arithmetic

set_option autoImplicit false

namespace ShaderFlow.Pacing

def zero : Binary64 := .zero false

/-- The time between frames; zero when the rate is unlimited. -/
def interval (fps : Number) : Except Error Binary64 :=
  if fps.isPositive then return (← fps.toFloat).reciprocal else .ok zero

/-- Whether a frame is due, and the time left over. A large backlog is dropped. -/
def due (fps : Number) (lag interval : Binary64) : Bool × Binary64 :=
  if fps.le (.int 0) then (true, lag)
  else if lag.lt interval then (false, lag)
  else
    let rest := lag.sub interval
    let backlog := interval.mul (.tenths 50)
    (true, if backlog.lt rest then zero else rest)

end ShaderFlow.Pacing
