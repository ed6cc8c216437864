import LoreDB.Util.VarintSums
import LoreDB.Query.CommittedReads
import LoreDB.Query.Cypher.UndirectedPatterns
import LoreDB.Query.Cypher.ParsedHops
import LoreDB.Query.Cypher.ParsedOrders
import LoreDB.Query.Cypher.EdgeQueries
import LoreDB.Query.Cypher.OrderedIntegers
import LoreDB.Query.Cypher.InlineConstraints
import LoreDB.Query.ShortestPath
import LoreDB.Query.BoundedPaths
import LoreDB.Storage.NodeCount
import LoreDB.Library.History
import LoreDB.Library.Peg
import LoreDB.Transaction.ReachableReads
import LoreDB.Transaction.SerialHistory
import LoreDB.Storage.WalRoundTrip
import LoreDB.Transaction.AbortedWrites
import LoreDB.Transaction.LostUpdate
import LoreDB.Transaction.OwnWrites
import LoreDB.Transaction.SnapshotReads
import LoreDB.Storage.SharedKeys
import LoreDB.Storage.Topology
import LoreDB.Storage.TornTail
import LoreDB.Storage.LsnHistory
import LoreDB.Storage.LsnOrder
import LoreDB.Storage.MixedLog
import LoreDB.Storage.WriteAhead
import LoreDB.Storage.PageReopen
import LoreDB.Storage.GraphRefinement
import LoreDB.Storage.Adjacency
import LoreDB.Storage.ConcurrentEdges
import LoreDB.Storage.ConcurrentAdjacency
import LoreDB.Library.Cycles
import LoreDB.Transaction.DeadlockSearch
import LoreDB.Storage.PageMap
import LoreDB.Transaction.LockClients
import LoreDB.Transaction.Deadlocks
import LoreDB.Storage.ConcurrentReads
import LoreDB.Storage.InvisibleWrites
import LoreDB.Query.Cypher.ParsedReturns
import LoreDB.Query.Cypher.SimplePaths
import LoreDB.Query.Cypher.CompleteScans
import LoreDB.Query.Cypher.QueryEnds
import LoreDB.Query.Cypher.GraphViews
import LoreDB.Query.Cypher.Sessions
import LoreDB.Query.Cypher.FailedQueries
import LoreDB.Storage.LoggedSerializer
import LoreDB.Storage.FaultyPages
import LoreDB.Storage.CopiedRecords
import LoreDB.Query.Cypher.UpdatedEdges
import LoreDB.Query.MirroredAdjacency
import LoreDB.Query.LimitedListings
import LoreDB.Query.Cypher.ShadowedNames
import LoreDB.Storage.RecoveredCalls
import LoreDB.Storage.PageChecksums
import LoreDB.Transaction.CallerLocks
import LoreDB.Transaction.Lifecycle
import LoreDB.Util.VarintBuffers
import LoreDB.Query.ClearedIndexes
import LoreDB.Storage.ReadableEnds
import LoreDB.Cli.IndexedTexts
import LoreDB.Query.Cypher.PlainSessions
import LoreDB.Query.Cypher.VersionedQueries
import LoreDB.Query.Cypher.VersionedSessions
import LoreDB.Transaction.Wakeups
import LoreDB.Transaction.ConcurrentWrites
import LoreDB.Query.ExecutorResults
import LoreDB.Cli.ShellRefinement
import LoreDB.Query.Cypher.ReadingQueries
import LoreDB.Storage.HandedOver
import LoreDB.Storage.StoreLog
import LoreDB.Cli.PrintedRecords
import LoreDB.Library.Numbering
import LoreDB.Query.Cypher.LastingPages
import LoreDB.Query.Planner
import LoreDB.Storage.BulkLoads
import LoreDB.Storage.ConcurrentCreations
import LoreDB.Storage.SerialCreations
import LoreDB.Transaction.TimestampReads
