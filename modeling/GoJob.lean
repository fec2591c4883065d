import GoJob.Table
import GoJob.Tx
import GoJob.Runs
import GoJob.FencedLock
import GoJob.Job
import GoJob.Schema
import GoJob.Database
import GoJob.Store
import GoJob.Complete
import GoJob.Claim
import GoJob.Lease
import GoJob.Recovery
import GoJob.Materialize
import GoJob.Statements
import GoJob.Admin
import GoJob.Retention
import GoJob.System
import GoJob.Moves
import GoJob.CommitAttempt
import GoJob.CommitJob
import GoJob.Rows
import GoJob.Holder
import GoJob.Fence
import GoJob.Clock
import GoJob.Poll
import GoJob.Budget
import GoJob.Redispatch
import GoJob.Report
import GoJob.Cap
import GoJob.Retirement
import GoJob.Fires
import GoJob.OnTime
import GoJob.Refusal
import GoJob.Attempts
import GoJob.Calls
import GoJob.Server
import GoJob.InFlight
import GoJob.Result
import GoJob.TokenLife
import GoJob.Handover
import GoJob.Redelivery
import GoJob.Leases
import GoJob.Recovered
import GoJob.Control
import GoJob.Registry
import GoJob.Lookup
import GoJob.Engines
import GoJob.Scans
import GoJob.Sighted
import GoJob.Expiry
import GoJob.Passes
import GoJob.Snapshots
import GoJob.Failures
import GoJob.Contention
import GoJob.Requests
import GoJob.Dialog
import GoJob.Dispatch
import GoJob.Sends
import GoJob.Routing
import GoJob.Staleness
import GoJob.Directory
import GoJob.Silence
import GoJob.Supervision
import GoJob.Tenure
import GoJob.Gate
import GoJob.Calendar
import GoJob.Zone
import GoJob.Bisect
import GoJob.Cron.Parse
import GoJob.Cron.Fields
import GoJob.Cron.Meaning
import GoJob.Cron.Names
import GoJob.Cron.Civil
import GoJob.Cron.Next
import GoJob.Cron.Fire
import GoJob.Cron.Walk
import GoJob.Cron.Window
import GoJob.Body
import GoJob.Utf8
import GoJob.Keys
import GoJob.Misfire
import GoJob.Catalogue
import GoJob.Descriptions
import GoJob.WallClock
import GoJob.Collation
import GoJob.Endings
import GoJob.Drain
import GoJob.Swept
import GoJob.Stranded
import GoJob.Revival
import GoJob.Skips
import GoJob.Turns
import GoJob.Sealed
import GoJob.Identities
import GoJob.Dsn
import GoJob.Migration
import GoJob.Reference
import GoJob.Binary64
import GoJob.Json
import GoJob.Params
import GoJob.Epochs
import GoJob.WorkQueue
import GoJob.Ledger
import GoJob.Quiescence
import GoJob.Trail
import GoJob.Edits
import GoJob.Reaping
import GoJob.Generations
import GoJob.Sessions
import GoJob.Cutover
import GoJob.Progress
import GoJob.Provisioning
import GoJob.Orphans
import GoJob.Cancels
