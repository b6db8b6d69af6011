import Appmetrics.Machine
import Appmetrics.Forest
import Appmetrics.Timer
import Appmetrics.Request
import Appmetrics.LinkedList
import Appmetrics.MessageDelivery
import Appmetrics.MetricsIndependence
import Appmetrics.OperationEnds
import Appmetrics.MonitoringApi
import Appmetrics.Payload
import Appmetrics.ProfileJson
import Appmetrics.Profiler
import Appmetrics.Probe
import Appmetrics.RequestIsolation
import Appmetrics.RequestSchedules
import Appmetrics.Switches
import Appmetrics.Exclusions
import Appmetrics.AttachRuns
import Appmetrics.Transparency
import Appmetrics.Utf16
import Appmetrics.V8Strings
import Appmetrics.GcBatches
import Appmetrics.HeadlessAsync
import Appmetrics.AspectStacks
import Appmetrics.Watchdog
import Appmetrics.HeadlessZip
import Appmetrics.ObjectGraph
import Appmetrics.Serializer
import Appmetrics.SerializerGraphs
import Appmetrics.SerializerDocuments
import Appmetrics.SerializerLosses
import Appmetrics.TraceAttach
import Appmetrics.TraceTransparency
import Appmetrics.LoopStatistics
import Appmetrics.Latency
import Appmetrics.ProfilerMessages
import Appmetrics.PortDirname
import Appmetrics.ProbeConfig
import Appmetrics.HeapLimits
import Appmetrics.HeapHistogram
import Appmetrics.MongoCompletion
import Appmetrics.ListenerOverlap
import Appmetrics.OutboundUrls
import Appmetrics.UrlFiltering
import Appmetrics.SizeRounding
import Appmetrics.Escaping
import Appmetrics.RequestIntervals
import Appmetrics.Heapdump
import Appmetrics.SnapshotFile
import Appmetrics.LatencySwitch
import Appmetrics.MessageOrder
import Appmetrics.MemoryMessages
import Appmetrics.AgentProperties
import Appmetrics.JsonWriting
import Appmetrics.PublishedEvents
import Appmetrics.ArchiveNames
import Appmetrics.ProfilerLifecycle
import Appmetrics.EnvironmentDelivery
import Appmetrics.ProfileModes
import Appmetrics.LoopRestarts
import Appmetrics.ModuleLoading
import Appmetrics.GcDelivery
