import RemoteInput.Engine.Theorems.Deadline
import RemoteInput.Engine.Theorems.Holds
import RemoteInput.Engine.Theorems.Replay
import RemoteInput.Relay.Semantics
import RemoteInput.Relay.Lemmas.Log
import RemoteInput.Relay.Lemmas.Steps
import RemoteInput.Relay.Lemmas.Sessions
import RemoteInput.Relay.Lemmas.Generations
import RemoteInput.Relay.Lemmas.Queues
import RemoteInput.Relay.Theorems.Sessions
import RemoteInput.Relay.Theorems.Authentic
import RemoteInput.Relay.Lemmas.Names
import RemoteInput.Relay.Theorems.Identity
import RemoteInput.Controller.Semantics
import RemoteInput.Engine.Lemmas.Threads
import RemoteInput.Controller.Lemmas.Acts
import RemoteInput.Pair.Semantics
import RemoteInput.Pair.Theorems.Activation
import RemoteInput.Controller.Lemmas.Log
import RemoteInput.Pair.Theorems.Cancellation
import RemoteInput.System.Semantics
import RemoteInput.Capture.Policy
import RemoteInput.Capture.Lemmas.Policy
import RemoteInput.Capture.Theorems.Ignored
import RemoteInput.Capture.Windows
import RemoteInput.Capture.Lemmas.Windows
import RemoteInput.Capture.Theorems.Latest
import RemoteInput.Capture.Theorems.Local
import RemoteInput.Controller.Threads
import RemoteInput.Controller.Theorems.Stop
import RemoteInput.Engine.Theorems.Boundary
import RemoteInput.Engine.Lemmas.Blocked
import RemoteInput.Engine.Theorems.Blocked
import RemoteInput.Lib.BigEndian
import RemoteInput.Wire.Frame
import RemoteInput.Capture.Hooks
import RemoteInput.Capture.Lemmas.Emitted
import RemoteInput.Station.Semantics
import RemoteInput.Controller.Lemmas.Framed
import RemoteInput.Station.Theorems.Frames
import RemoteInput.Station.Theorems.Silence
import RemoteInput.Lib.Windows
import RemoteInput.Relay.Lemmas.RateLimit
import RemoteInput.Relay.Theorems.Logins
import RemoteInput.Relay.Callers
import RemoteInput.Relay.Lemmas.Keys
import RemoteInput.Relay.Theorems.Callers
import RemoteInput.Relay.Lemmas.Outstanding
import RemoteInput.Target.Lemmas.Rotation
import RemoteInput.Relay.Lemmas.Addressed
import RemoteInput.System.Lemmas.Steps
import RemoteInput.System.Lemmas.Sound
import RemoteInput.System.Theorems.Messages
import RemoteInput.Lib.Journal
import RemoteInput.Relay.Lemmas.Requests
import RemoteInput.System.Lemmas.Secret
import RemoteInput.System.Lemmas.Rotation
import RemoteInput.Relay.Lemmas.Owners
import RemoteInput.System.Theorems.Rotation
import RemoteInput.Lib.Strokes
import RemoteInput.Capture.Theorems.Stream
import RemoteInput.Capture.Lemmas.Chord
import RemoteInput.Capture.Theorems.Chord
import RemoteInput.Capture.Theorems.Reentry
import RemoteInput.Engine.Theorems.Paused
import RemoteInput.Lib.Segments
import RemoteInput.Wire.Runs
import RemoteInput.Wire.Theorems.Queue
import RemoteInput.Wire.Theorems.Frame
import RemoteInput.Relay.Theorems.Admissions
import RemoteInput.Controller.Bridge
import RemoteInput.Wire.Bridge
import RemoteInput.Controller.Theorems.Bridges
import RemoteInput.Engine.Lemmas.Blind
import RemoteInput.Engine.Plain
import RemoteInput.Engine.Lemmas.Moves
import RemoteInput.Engine.Lemmas.Twins
import RemoteInput.Engine.Theorems.Coalescing
import RemoteInput.Controller.Lemmas.Inputs
import RemoteInput.Controller.Lemmas.Course
import RemoteInput.Relay.Theorems.Refusals
import RemoteInput.Lib.Smoothing
import RemoteInput.Wire.Theorems.Timing
import RemoteInput.Lib.Clamp
import RemoteInput.Platforms.Macos
import RemoteInput.Platforms.Theorems.Clamp
import RemoteInput.Controller.Lemmas.Steps
import RemoteInput.Engine.Lemmas.Effective
import RemoteInput.Target.Lemmas.Share
import RemoteInput.Relay.Lemmas.Forward
import RemoteInput.System.Lemmas.Flow
import RemoteInput.Controller.Lemmas.Wire
import RemoteInput.System.Lemmas.Answers
import RemoteInput.System.Lemmas.Links
import RemoteInput.System.Lemmas.Uplink
import RemoteInput.System.Lemmas.Epochs
import RemoteInput.System.Theorems.Order
import RemoteInput.Lib.Json
import RemoteInput.Lib.JsonText
import RemoteInput.Wire.Control
import RemoteInput.Wire.Lemmas.Control
import RemoteInput.Wire.Theorems.Control
import RemoteInput.System.Theorems.Password
import RemoteInput.Vault.Theorems.Identity
import RemoteInput.Controller.Theorems.Requests
import RemoteInput.Platforms.Injector
import RemoteInput.Platforms.Theorems.Injector
import RemoteInput.Lib.Leads
import RemoteInput.Relay.Server
import RemoteInput.Relay.Lemmas.Server
import RemoteInput.Relay.Theorems.Progress
