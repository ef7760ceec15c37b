import Mathlib

/-!
# Constants of `config.py`

Times are in seconds and exact.
-/

namespace RemoteInput

/-- A reading of a clock, or a span of time, in seconds. -/
abbrev Time := ℚ

def queueLimit : Nat := 256
def maxQueueAge : Time := 1 / 10
def challengeInterval : Time := 1 / 5
def networkTimeoutMin : Time := 2
def networkTimeoutMax : Time := 3
def maxFrame : Nat := 2048

end RemoteInput
