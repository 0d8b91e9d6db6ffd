import GuardSarm.Lib.Steps
import GuardSarm.Lib.Table
import GuardSarm.Lib.Interval
import GuardSarm.Lib.Outcome
import GuardSarm.Lib.PrefixRange
import GuardSarm.Lib.Marked
import GuardSarm.Queue.Storage
import GuardSarm.Queue.Convergence
import GuardSarm.Queue.Elision
import GuardSarm.Indexer.Response
import GuardSarm.Indexer.Connector
import GuardSarm.Indexer.Delivery
import GuardSarm.Indexer.Acknowledgement
import GuardSarm.Indexer.Callbacks
import GuardSarm.Indexer.Splitting
import GuardSarm.Indexer.BulkBuffer
import GuardSarm.Inventory.Message
import GuardSarm.Inventory.DataStore
import GuardSarm.Inventory.GapSet
import GuardSarm.Inventory.GapRuns
import GuardSarm.Inventory.ChecksumPages
import GuardSarm.Inventory.AgentSession
import GuardSarm.Inventory.Completion
import GuardSarm.Inventory.Indexing
import GuardSarm.Inventory.Facade
import GuardSarm.Inventory.Transition
import GuardSarm.Inventory.SessionMap
import GuardSarm.Inventory.Schedule
import GuardSarm.Inventory.Admission
import GuardSarm.Inventory.Answers
import GuardSarm.Inventory.SessionData
import GuardSarm.Inventory.Isolation
import GuardSarm.Inventory.LockStep
import GuardSarm.Inventory.AgentLock
import GuardSarm.Lib.ByteMask
import GuardSarm.Lib.Text
import GuardSarm.Lib.Framing
import GuardSarm.Remote.AddressSpec
import GuardSarm.Remote.AddressMeaning
import GuardSarm.Remote.SecureMessage
import GuardSarm.Remote.KeyStore
import GuardSarm.Remote.KeyIndex
import GuardSarm.Remote.Replay
import GuardSarm.Remote.Channel
import GuardSarm.Remote.NetBuffer
import GuardSarm.Engine.LegacyEvent
import GuardSarm.Engine.Dsv
import GuardSarm.Engine.CsvRoundTrip
import GuardSarm.Lib.Search
import GuardSarm.Scanner.VersionMatcher
import GuardSarm.Scanner.Conversion
import GuardSarm.Scanner.SemVer
import GuardSarm.Scanner.Pep440
import GuardSarm.Scanner.CalVer
import GuardSarm.Scanner.Dpkg
import GuardSarm.Scanner.DebianOrder
import GuardSarm.Scanner.Rpm
import GuardSarm.Scanner.RpmOrder
import GuardSarm.Scanner.VersionTypes
import GuardSarm.Scanner.SemVerOrder
import GuardSarm.Scanner.Pep440Order
import GuardSarm.Scanner.PackageScanner
import GuardSarm.Scanner.Coverage
import GuardSarm.Lib.Infix
import GuardSarm.Engine.LogicExpr
import GuardSarm.Engine.LogicExprParse
import GuardSarm.Engine.LogicExprMeaning
import GuardSarm.Lib.Pattern
import GuardSarm.Regex.Compile
import GuardSarm.Regex.Execute
import GuardSarm.Regex.Language
import GuardSarm.Regex.Match
import GuardSarm.Regex.Sound
import GuardSarm.Lib.Multicast
import GuardSarm.Lib.RowSync
import GuardSarm.Lib.Segments
import GuardSarm.Lib.Keyset
import GuardSarm.Lib.PaddedCompare
import GuardSarm.Lib.Decimal
import GuardSarm.Lib.Reversal
import GuardSarm.Lib.Backtrack
import GuardSarm.Engine.ExprBuilder
import GuardSarm.Engine.ExprMeaning
import GuardSarm.Engine.PolicyGraph
import GuardSarm.Engine.GraphSearch
import GuardSarm.Engine.CycleDetection
import GuardSarm.Engine.DecoderTree
import GuardSarm.Engine.PolicyPipeline
import GuardSarm.Engine.StreamChannel
import GuardSarm.Engine.TermTracer
import GuardSarm.Sca.EventHandler
import GuardSarm.Sca.Departure
import GuardSarm.Sca.StoredLists
import GuardSarm.Sca.PolicyParser
import GuardSarm.Sca.PolicyScan
import GuardSarm.Lib.Parsec
import GuardSarm.Lib.Requirements
import GuardSarm.Engine.Logpar
import GuardSarm.Engine.LogparRoundTrip
import GuardSarm.Engine.LogparBuild
import GuardSarm.Engine.LogparLookAhead
import GuardSarm.Engine.Quoted
import GuardSarm.Engine.DsvRoundTrip
import GuardSarm.Engine.KeyValue
import GuardSarm.Engine.KeyValuePasses
import GuardSarm.Engine.ReplaceAll
import GuardSarm.Engine.DotPath
import GuardSarm.Engine.JsonPointer
import GuardSarm.Shared.Utf8
import GuardSarm.Shared.Strtok
import GuardSarm.Shared.StringEscape
import GuardSarm.Shared.IndexedQueue
import GuardSarm.Lib.Linked
import GuardSarm.Lib.Probing
import GuardSarm.Shared.BatchRing
import GuardSarm.Shared.BatchQueue
import GuardSarm.Shared.BatchQueueInvariant
import GuardSarm.Shared.BatchQueueRuns
import GuardSarm.Shared.Hashmap
import GuardSarm.Shared.HashmapRefines
import GuardSarm.Lib.Block
import GuardSarm.Shared.Bqueue
import GuardSarm.Shared.BqueueRefines
import GuardSarm.Remote.SendQueue
import GuardSarm.Remote.Transport
import GuardSarm.Framework.ProductVersion
import GuardSarm.Framework.SortArray
