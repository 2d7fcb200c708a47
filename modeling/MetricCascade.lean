import MetricCascade.Cluster.Directory
import MetricCascade.Dict
import MetricCascade.Json.Printer
import MetricCascade.Json.Reader
import MetricCascade.Table.Store
import MetricCascade.Registry.Timer
import MetricCascade.Settings
import MetricCascade.Span.Intake
import MetricCascade.Span.Reader
import MetricCascade.Window.Session
import MetricCascade.Proofs.Metric.Bins
import MetricCascade.Proofs.Metric.Raw
import MetricCascade.Proofs.Metric.Gather
import MetricCascade.Proofs.Table.Codec
import MetricCascade.Proofs.Table.KeyText
import MetricCascade.Proofs.Stage.Frame
import MetricCascade.Proofs.Stage.Refused
import MetricCascade.Proofs.Stage.Balance
import MetricCascade.Proofs.Window.Merge
import MetricCascade.Proofs.Stage.Flush
import MetricCascade.Proofs.Stage.Keeping
import MetricCascade.Proofs.Stage.Sane
import MetricCascade.Proofs.Stage.Lone
import MetricCascade.Proofs.Registry.Lines
import MetricCascade.Proofs.Span.Dispatch
import MetricCascade.Proofs.Stage.Chain
import MetricCascade.Proofs.Table.Rewrites
import MetricCascade.Proofs.Stage.Cascade
import MetricCascade.Proofs.Window.Gathered
import MetricCascade.Proofs.Window.Traffic
import MetricCascade.Proofs.Window.Swaps
import MetricCascade.Proofs.Window.Turns
import MetricCascade.Proofs.Stage.Ready
import MetricCascade.Proofs.Stage.Visits
import MetricCascade.Proofs.Stage.Misfit
import MetricCascade.Proofs.Span.Entity
import MetricCascade.Proofs.Cluster.Agreement
import MetricCascade.Proofs.Registry.Tables
import MetricCascade.Proofs.Table.Batches
import MetricCascade.Proofs.Stage.Runs
import MetricCascade.Proofs.Stage.Formed
import MetricCascade.Proofs.Registry.Passes
import MetricCascade.Proofs.Stage.Counters
import MetricCascade.Proofs.Stage.Alike
import MetricCascade.Proofs.Registry.Independence
import MetricCascade.Proofs.Metric.Grouping
import MetricCascade.Proofs.Metric.Pooling
import MetricCascade.Proofs.Span.Taker
import MetricCascade.Proofs.Stage.Isolation
import MetricCascade.Proofs.Metric.NearestRank
import MetricCascade.Proofs.Table.RoundTrip
import MetricCascade.Proofs.Time.Calendar
import MetricCascade.Proofs.Time.Partition
import MetricCascade.Proofs.Metric.Stepwise
import MetricCascade.Proofs.Window.Folds
import MetricCascade.Proofs.Table.Install
import MetricCascade.Proofs.Text.Numeral
import MetricCascade.Proofs.Settings
import MetricCascade.Proofs.Stage.Lasting
import MetricCascade.Proofs.Stage.Refreshed
import MetricCascade.Proofs.Metric.Bounds
import MetricCascade.Proofs.Stage.Bounded
