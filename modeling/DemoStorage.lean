import DemoStorage.HeaderTimeouts
import DemoStorage.UploadRoundTrip
import DemoStorage.BinlogRestart
import DemoStorage.BinlogDecoding
import DemoStorage.BinlogReplay
import DemoStorage.PathConfinement
import DemoStorage.ConnectionAccounting
import DemoStorage.BinlogExclusion
import DemoStorage.ReporterAccounting
import DemoStorage.SyncNegotiation
import DemoStorage.SyncStateFile
import DemoStorage.ReplyAgreement
import DemoStorage.SyncRedelivery
import DemoStorage.ConcurrentUploads
import DemoStorage.HeartBeats
import DemoStorage.CounterLifetimes
import DemoStorage.WireContents
import DemoStorage.RefusedRequests
import DemoStorage.PackageBounds
import DemoStorage.LengthFields
import DemoStorage.StoredMetadata
import DemoStorage.PathArrays
import DemoStorage.DeleteOutcomes
import DemoStorage.IniLines
import DemoStorage.StatisticsFiles
import DemoStorage.NameUniqueness
import DemoStorage.DataDirectories
import DemoStorage.BinlogStarts
import DemoStorage.RequestDecoding
import DemoStorage.TrackerServers
import DemoStorage.ColumnSplits
import DemoStorage.SocketLoops
import DemoStorage.TrackerResponses
import DemoStorage.LocalHostTable
import DemoStorage.LoadedSettings
import DemoStorage.ReporterSessions
import DemoStorage.SessionFraming
import DemoStorage.StoreLifetimes
import DemoStorage.SessionFootprints
import DemoStorage.ConcurrentSessions
import DemoStorage.ConnectionDescriptors
