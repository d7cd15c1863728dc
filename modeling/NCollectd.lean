import NCollectd.Cache.Failure
import NCollectd.Cache.HistoryBuffer
import NCollectd.Cache.Rates
import NCollectd.Cache.LockDiscipline
import NCollectd.Plugin.ReadRuns
import NCollectd.Plugin.Subscriptions
import NCollectd.Filter.Termination
import NCollectd.Filter.Dispatch
import NCollectd.Network.Secured
import NCollectd.WritePrometheus.LastWritten
import NCollectd.Cmds.PutvalOwnership
import NCollectd.Client.Transmission
import NCollectd.Threshold.Hits
import NCollectd.Threshold.Hysteresis
import NCollectd.Notification.RoundTrip
import NCollectd.Metric.Family
import NCollectd.Processes.Runs
import NCollectd.Distribution.Percentile
import NCollectd.Filter.ChainNodes
import NCollectd.Plugin.BackOff
import NCollectd.Plugin.Overload
import NCollectd.Utils.AvlIterator
import NCollectd.Utils.MessagePartition
import NCollectd.Utils.Tail
import NCollectd.Columns.Table
import NCollectd.Columns.TailCsv
import NCollectd.Utils.RateConversion
import NCollectd.Utils.Lookup
import NCollectd.Utils.Match
import NCollectd.Utils.FormatJson
import NCollectd.Utils.FormatGraphite
import NCollectd.Utils.FormatOpenmetrics
import NCollectd.Plugin.TypesList
import NCollectd.Utils.CompleteValues
import NCollectd.Utils.BufferStrings
import NCollectd.Utils.LegacyName
import NCollectd.Utils.Latency
import NCollectd.Utils.ProcPids
import NCollectd.Cmds.Handlers
