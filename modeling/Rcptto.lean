import Rcptto.ForStd.Run
import Rcptto.ForStd.OrderedMap
import Rcptto.ForStd.PartialMap
import Rcptto.ForStd.FirstBest
import Rcptto.ForStd.Grid
import Rcptto.ForStd.Binary64
import Rcptto.ForStd.TokenBucket
import Rcptto.ForStd.Multiset
import Rcptto.ForStd.Ascii
import Rcptto.ForStd.List
import Rcptto.ForStd.Lines
import Rcptto.ForStd.Csv
import Rcptto.ForStd.PrefixCode
import Rcptto.ForStd.Table
import Rcptto.ForStd.Base64
import Rcptto.ForStd.UrlPath
import Rcptto.ForStd.Routing
import Rcptto.ForStd.CsvWriter
import Rcptto.Native.Strconv
import Rcptto.Native.Basic
import Rcptto.Native.Health
import Rcptto.Native.Manager
import Rcptto.Native.System
import Rcptto.Native.Audit
import Rcptto.Native.Startup
import Rcptto.Native.Verdict
import Rcptto.Native.Classify
import Rcptto.Native.Engine
import Rcptto.Native.Loop
import Rcptto.Native.Persist
import Rcptto.Native.Limiter
import Rcptto.Native.Jobs
import Rcptto.Native.Pipeline
import Rcptto.Native.Verifier
import Rcptto.Native.Agents
import Rcptto.Native.Settings
import Rcptto.Native.ResultCache
import Rcptto.Native.Lookups
import Rcptto.Native.Shutdown
import Rcptto.Native.Wire
import Rcptto.Native.JobStore
import Rcptto.Native.Buckets
import Rcptto.Native.Uploads
import Rcptto.Native.Ingest
import Rcptto.Native.Migrate
import Rcptto.Native.Auth
import Rcptto.Native.Routes
import Rcptto.Native.Export
import Rcptto.Native.AgentList
import Rcptto.Native.Dnsbl
import Rcptto.Spec.Reconcile
import Rcptto.Spec.Selection
import Rcptto.Spec.Step
import Rcptto.Spec.Reachable
import Rcptto.Spec.Breaker
import Rcptto.Spec.DailyCap
import Rcptto.Spec.Quarantine
import Rcptto.Spec.Withdrawal
import Rcptto.Spec.WarmUp
import Rcptto.Spec.Calendar
import Rcptto.Spec.Disable
import Rcptto.Spec.Restart
import Rcptto.Spec.RoundTrip
import Rcptto.Spec.Engine
import Rcptto.Spec.ReputationLoop
import Rcptto.Spec.Persist
import Rcptto.Spec.Limiter
import Rcptto.Spec.Isolation
import Rcptto.Spec.Pacing
import Rcptto.Spec.Jobs
import Rcptto.Spec.Dedup
import Rcptto.Spec.Cancel
import Rcptto.Spec.Honest
import Rcptto.Spec.Dialogue
import Rcptto.Spec.Failover
import Rcptto.Spec.Blocks
import Rcptto.Spec.Replies
import Rcptto.Spec.Address
import Rcptto.Spec.Grammar
import Rcptto.Spec.Funnel
import Rcptto.Spec.Injection
import Rcptto.Spec.Keys
import Rcptto.Spec.Answers
import Rcptto.Spec.MailExchangers
import Rcptto.Spec.Validity
import Rcptto.Spec.Attribution
import Rcptto.Spec.Settings
import Rcptto.Spec.Apply
import Rcptto.Spec.DelayRange
import Rcptto.Spec.Forgetting
import Rcptto.Spec.RateChanges
import Rcptto.Spec.Eviction
import Rcptto.Spec.Provenance
import Rcptto.Spec.Shutdown
import Rcptto.Spec.FleetView
import Rcptto.Spec.Remote
import Rcptto.Spec.JobStore
import Rcptto.Spec.Paging
import Rcptto.Spec.Probed
import Rcptto.Spec.Buckets
import Rcptto.Spec.Probing
import Rcptto.Spec.Boundaries
import Rcptto.Spec.FailedDials
import Rcptto.Spec.Uploads
import Rcptto.Spec.Columns
import Rcptto.Spec.RowCap
import Rcptto.Spec.Formats
import Rcptto.Spec.Tabs
import Rcptto.Spec.Migrations
import Rcptto.Spec.Sessions
import Rcptto.Spec.Mediation
import Rcptto.Spec.Exports
import Rcptto.Spec.Scores
import Rcptto.Spec.Balance
import Rcptto.Spec.FirstContact
import Rcptto.Spec.AgentList
import Rcptto.Spec.Blocklist
