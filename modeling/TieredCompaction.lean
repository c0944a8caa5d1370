import TieredCompaction.Fleet
import TieredCompaction.Main
import TieredCompaction.Proofs.Binary64.Comparison
import TieredCompaction.Proofs.Bucket.Ascending
import TieredCompaction.Proofs.Bucket.FirstMatch
import TieredCompaction.Proofs.Bucket.OneSize
import TieredCompaction.Proofs.Bucket.Runs
import TieredCompaction.Proofs.Bucket.Small
import TieredCompaction.Proofs.Calendar
import TieredCompaction.Proofs.Event
import TieredCompaction.Proofs.Fleet.Drawing
import TieredCompaction.Proofs.Fleet.Errands
import TieredCompaction.Proofs.Fleet.Neighbours
import TieredCompaction.Proofs.Fleet.Tally
import TieredCompaction.Proofs.Folder
import TieredCompaction.Proofs.Hotness.Optimal
import TieredCompaction.Proofs.Journal
import TieredCompaction.Proofs.Meter.Bounds
import TieredCompaction.Proofs.Meter.Restoring
import TieredCompaction.Proofs.Meter.Stepwise
import TieredCompaction.Proofs.Plan
import TieredCompaction.Proofs.Raising
import TieredCompaction.Proofs.Rebuilding
import TieredCompaction.Proofs.Selection
import TieredCompaction.Proofs.Settings
import TieredCompaction.Proofs.Site.Accounted
import TieredCompaction.Proofs.Site.Answers
import TieredCompaction.Proofs.Site.Arrivals
import TieredCompaction.Proofs.Site.Completion
import TieredCompaction.Proofs.Site.Conservation
import TieredCompaction.Proofs.Site.Countdown
import TieredCompaction.Proofs.Site.Draining
import TieredCompaction.Proofs.Site.GivingBack
import TieredCompaction.Proofs.Site.History
import TieredCompaction.Proofs.Site.Order
import TieredCompaction.Proofs.Site.Pending
import TieredCompaction.Proofs.Site.Readings
import TieredCompaction.Proofs.Site.Replay
import TieredCompaction.Proofs.Site.Reports
import TieredCompaction.Proofs.Site.Retirement
import TieredCompaction.Proofs.Site.Settling
import TieredCompaction.Proofs.Site.Stream
import TieredCompaction.Proofs.Site.Tally
import TieredCompaction.Proofs.TableList.Tables
import TieredCompaction.Proofs.TableSet
import TieredCompaction.Proofs.Workers
import TieredCompaction.Workers
