import Entmoot.Lib.Run
import Entmoot.Registry
import Entmoot.Replica
import Entmoot.MatchCache
import Entmoot.Reconnect
import Entmoot.StartOrder
import Entmoot.Kick
import Entmoot.FileCodec
import Entmoot.InStep
import Entmoot.Synced
import Entmoot.Restart
import Entmoot.Discard
import Entmoot.Confine
import Entmoot.Lib.History
import Entmoot.Races
import Entmoot.KeyExpr
import Entmoot.Grants
import Entmoot.Lib.Ledger
import Entmoot.OneSession
import Entmoot.Conservation
import Entmoot.Calls
import Entmoot.Durable
import Entmoot.Expiry
import Entmoot.Lib.Traced
import Entmoot.Serve
import Entmoot.Cleanup
import Entmoot.Lib.Custody
import Entmoot.Resubscribe
import Entmoot.CrashPoints
import Entmoot.Sections
import Entmoot.RaceSteps
import Entmoot.Relate
import Entmoot.Effects
import Entmoot.Linear
import Entmoot.Lib.Entries
import Entmoot.Reading
import Entmoot.Travel
import Entmoot.Names
import Entmoot.Covers
import Entmoot.Will
import Entmoot.Mirror
import Entmoot.Snapshots
import Entmoot.ClientEvents
import Entmoot.Relay
import Entmoot.Replies
import Entmoot.Lib.Bucket
import Entmoot.RateLimiter
import Entmoot.Lib.Wrap
import Entmoot.PacketIds
import Entmoot.FileNames
import Entmoot.MetaKeys
import Entmoot.Patterns
import Entmoot.Lib.Tally
import Entmoot.Dropped
import Entmoot.Authenticator
import Entmoot.Access
import Entmoot.Staleness
import Entmoot.Lib.PubSub
import Entmoot.Mesh
import Entmoot.MeshOrder
import Entmoot.Holdings
import Entmoot.Convergence
import Entmoot.EndToEnd
import Entmoot.Lib.Atomic
import Entmoot.Crash
import Entmoot.Reconcile
import Entmoot.Gauges
import Entmoot.Lib.Turnstile
import Entmoot.Connections
import Entmoot.Lib.Framing
import Entmoot.Packets
import Entmoot.Lib.Roster
import Entmoot.Forwarders
import Entmoot.Retention
