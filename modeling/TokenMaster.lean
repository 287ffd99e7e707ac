import TokenMaster.Accounting.Hash
import TokenMaster.Accounting.Replay
import TokenMaster.Benefits.Collapse
import TokenMaster.Benefits.EventLog
import TokenMaster.Benefits.Reapply
import TokenMaster.Benefits.Revisions
import TokenMaster.Benefits.Status
import TokenMaster.Benefits.Storable
import TokenMaster.Codex.Cumulative
import TokenMaster.Git.LogExact
import TokenMaster.Git.ScanDays
import TokenMaster.Pricing.Rates
import TokenMaster.Pricing.SelectionExact
import TokenMaster.Pricing.Snapshot
import TokenMaster.Product.Reducer
import TokenMaster.Query.Calendar
import TokenMaster.Quota.EpochSamples
import TokenMaster.Quota.MaintenanceRun
import TokenMaster.Runtime.ApplyPass
import TokenMaster.State.Package.Integrity
import TokenMaster.State.RecordCrash
import TokenMaster.State.RecordFormat
import TokenMaster.State.Resolution
import TokenMaster.Store.Lifetime
