import RemoteInput.Wire.Config

/-!
# Adaptive deadlines of `timing.py`
-/

namespace RemoteInput

/-- `NetworkTiming`: smoothed round trip and its variation. -/
structure NetworkTiming where
  rtt : Option Time := none
  variation : Time := 0
  deriving DecidableEq

namespace NetworkTiming

/-- `observe(seconds)`: the new estimate and whether the sample was used. Exact numbers are always finite. -/
def observe (n : NetworkTiming) (seconds : Time) : NetworkTiming × Bool :=
  if ¬ (0 ≤ seconds ∧ seconds < networkTimeoutMax) then (n, false)
  else match n.rtt with
    | none => ({ rtt := some seconds, variation := seconds / 2 }, true)
    | some rtt =>
        ({ rtt := some (7 / 8 * rtt + 1 / 8 * seconds),
           variation := 3 / 4 * n.variation + 1 / 4 * |rtt - seconds| }, true)

/-- `observe` of any float; `none` is one that `math.isfinite` refuses. -/
def observeFloat (n : NetworkTiming) (sample : Option Time) : NetworkTiming × Bool :=
  sample.elim (n, false) n.observe

/-- One measurement after another, with the samples that were used. -/
def run (n : NetworkTiming) : List (Option Time) → NetworkTiming × List Time
  | [] => (n, [])
  | sample :: samples =>
      let (n, used) := n.observeFloat sample
      let (n, accepted) := run n samples
      (n, if used then sample.toList ++ accepted else accepted)

/-- `timeout`: the deadline for heartbeats. -/
def timeout (n : NetworkTiming) : Time :=
  match n.rtt with
  | none => networkTimeoutMin
  | some rtt => min networkTimeoutMax (max networkTimeoutMin (rtt + 4 * n.variation + challengeInterval))

/-- `input_timeout`: the deadline for the token of any other frame. -/
def inputTimeout (n : NetworkTiming) : Time := n.timeout + challengeInterval + maxQueueAge

theorem timeout_le (n : NetworkTiming) : n.timeout ≤ networkTimeoutMax := by
  unfold timeout
  split
  · norm_num [networkTimeoutMin, networkTimeoutMax]
  · exact min_le_left _ _

theorem inputTimeout_le (n : NetworkTiming) :
    n.inputTimeout ≤ networkTimeoutMax + challengeInterval + maxQueueAge := by
  unfold inputTimeout
  have := n.timeout_le
  linarith

end NetworkTiming

end RemoteInput
