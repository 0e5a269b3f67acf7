import SeekServe.Lib.Runs
import SeekServe.Lib.CxxString
import SeekServe.Lib.AssocMap
import SeekServe.Types
import SeekServe.PieceAvailability
import SeekServe.FileStorage
import SeekServe.ByteSource
import SeekServe.RangeParser
import SeekServe.Http
import SeekServe.HttpRangeServer
import SeekServe.HttpConnection
import SeekServe.SliceDelivery
import SeekServe.MetadataCatalog
import SeekServe.SessionManager
import SeekServe.OfflineCache
import SeekServe.ControlApi
import SeekServe.Engine
import SeekServe.EngineRuns
import SeekServe.Serving
import SeekServe.ServingRuns
import SeekServe.SelectionWindow
import SeekServe.Records
import SeekServe.RangeNotification
import SeekServe.Streaming
import SeekServe.Removal
import SeekServe.Persistence
import SeekServe.ConnectionLimit
import SeekServe.StreamUrl
import SeekServe.Unauthorized
import SeekServe.Scheduler
import SeekServe.DeadlineRuns
import SeekServe.ReadPosition
import SeekServe.CacheRows
import SeekServe.Quota
import SeekServe.OfflineReady
import SeekServe.RemovalRace
import SeekServe.StateLifetime
import SeekServe.WaitWakeup
import SeekServe.FailedRemoval
import SeekServe.FailedStart
import SeekServe.HeadRequests
import SeekServe.Lib.Numerals
import SeekServe.RangeSyntax
import SeekServe.SavePaths
import SeekServe.TorrentIdentity
import SeekServe.ControlThread
import SeekServe.Events
import SeekServe.DeadlineWindow
import SeekServe.DeadlineCount
import SeekServe.TickTimer
import SeekServe.ContiguousBuffer
import SeekServe.StreamModes
import SeekServe.Eviction
import SeekServe.EngineConfig
import SeekServe.QueryToken
import SeekServe.PieceSpans
import SeekServe.FilePieces
import SeekServe.ContiguousBytes
import SeekServe.AvailabilityMarks
import SeekServe.AlertDispatcher
import SeekServe.ClientIds
import SeekServe.FileTree
import SeekServe.Lib.JsonText
import SeekServe.NativeJson
import SeekServe.ClientLists
import SeekServe.SavedTorrents
import SeekServe.ClientConfig
import SeekServe.Lib.Locks
import SeekServe.LockOrder
import SeekServe.EventCallback
import SeekServe.CatalogRuns
import SeekServe.ClientStatus
import SeekServe.Lib.OrderedMap
import SeekServe.TorrentManager
import SeekServe.ManagerRuns
import SeekServe.PromptReads
import SeekServe.ResumedPlayback
import SeekServe.StreamedContents
