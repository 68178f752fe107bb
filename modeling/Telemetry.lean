import Telemetry.Bench.Stretch
import Telemetry.Json.Value
import Telemetry.Stored.Records
import Telemetry.Proofs.Visits
import Telemetry.Proofs.Turns
import Telemetry.Proofs.Sends
import Telemetry.Proofs.Asides
import Telemetry.Proofs.Runs
import Telemetry.Proofs.Steps
import Telemetry.Proofs.Slots
import Telemetry.Proofs.Stays
import Telemetry.Proofs.Counters
import Telemetry.Proofs.Adrift
import Telemetry.Proofs.Gathering
import Telemetry.Proofs.Cycles
import Telemetry.Proofs.Openings
import Telemetry.Proofs.Worlds
import Telemetry.Proofs.TickEnds
import Telemetry.Proofs.Loops
import Telemetry.Proofs.Walks
import Telemetry.Proofs.Resuming
import Telemetry.Proofs.Stranded
import Telemetry.Proofs.Reliable
import Telemetry.Proofs.Phases
import Telemetry.Proofs.Deadlines
import Telemetry.Proofs.Naps
import Telemetry.Proofs.WholeFrames
import Telemetry.Proofs.Rhythm
import Telemetry.Proofs.Owing
import Telemetry.Proofs.Told
import Telemetry.Proofs.Inactive
import Telemetry.Proofs.Switches
import Telemetry.Proofs.Pulses
import Telemetry.Proofs.Revisions
import Telemetry.Proofs.Numerals
import Telemetry.Proofs.Quoting
import Telemetry.Proofs.Drafts
import Telemetry.Proofs.Readable
import Telemetry.Proofs.Decoding
import Telemetry.Proofs.Powered
import Telemetry.Proofs.Hasty
import Telemetry.Proofs.Rollback
import Telemetry.Proofs.Restoring
import Telemetry.Proofs.Budgets
import Telemetry.Proofs.Requests
import Telemetry.Proofs.Guarded
import Telemetry.Proofs.Means
import Telemetry.Proofs.Reloading
import Telemetry.Proofs.Census
import Telemetry.Proofs.Careful
import Telemetry.Proofs.Bounded
import Telemetry.Proofs.Apart
import Telemetry.Proofs.Alone
