import ItchExchange.Core.Types
import ItchExchange.Core.Hash
import ItchExchange.Library.ByteString
import ItchExchange.Library.StreamDecoding
import ItchExchange.Library.Probing
import ItchExchange.Library.LinkedQueue
import ItchExchange.Library.AvlTree
import ItchExchange.Library.BitWords
import ItchExchange.Library.Simulation
import ItchExchange.Library.Pump
import ItchExchange.Library.Tally
import ItchExchange.Library.RecordLayout
import ItchExchange.Library.Grouping
import ItchExchange.Book.BookTypes
import ItchExchange.Book.ArrivalBook
import ItchExchange.Book.Refinement
import ItchExchange.Book.PriceTimeQueue
import ItchExchange.Book.MapBook
import ItchExchange.Book.MapBookRefinement
import ItchExchange.Book.MapBookArrivals
import ItchExchange.Book.MapBookValidate
import ItchExchange.Book.BookDigest
import ItchExchange.Book.Handle
import ItchExchange.Book.Pool
import ItchExchange.Book.OrderIndex
import ItchExchange.Book.OrderIndexRuns
import ItchExchange.Book.LevelMap
import ItchExchange.Book.LevelMapRuns
import ItchExchange.Book.AvlLevelMap
import ItchExchange.Book.AvlLevelMapTree
import ItchExchange.Book.AvlLevelMapErase
import ItchExchange.Book.AvlLevelMapQueries
import ItchExchange.Book.AvlLevelMapRuns
import ItchExchange.Book.AvlLevelMapHeight
import ItchExchange.Book.PriceLadder
import ItchExchange.Book.PriceLadderPlacement
import ItchExchange.Book.PriceLadderQueries
import ItchExchange.Book.PriceLadderRebase
import ItchExchange.Book.PriceLadderRuns
import ItchExchange.Book.FlatBook
import ItchExchange.Book.PoolRuns
import ItchExchange.Book.FlatBookHeap
import ItchExchange.Book.FlatBookSteps
import ItchExchange.Book.FlatBookInvariant
import ItchExchange.Book.FlatBookRefinement
import ItchExchange.Book.FlatBookValidate
import ItchExchange.Book.AvlBook
import ItchExchange.Book.FlatBookQueues
import ItchExchange.Book.LadderBook
import ItchExchange.Book.CentralPrices
import ItchExchange.Book.NaiveBook
import ItchExchange.Book.Differential
import ItchExchange.Book.RandomCalls
import ItchExchange.Book.IndexSizing
import ItchExchange.Engine.MatchingEngine
import ItchExchange.Engine.Walk
import ItchExchange.Engine.PriceTimeWalk
import ItchExchange.Engine.Submit
import ItchExchange.Engine.Recorder
import ItchExchange.Engine.AlwaysEnds
import ItchExchange.Engine.Calls
import ItchExchange.Engine.NeverCrossed
import ItchExchange.Engine.Conservation
import ItchExchange.Engine.StandIn
import ItchExchange.Engine.PooledEngine
import ItchExchange.Engine.OrderLedger
import ItchExchange.Wire.Endian
import ItchExchange.Wire.Messages
import ItchExchange.Wire.Framing
import ItchExchange.Wire.FrameGrammar
import ItchExchange.Wire.CutShort
import ItchExchange.Wire.Source
import ItchExchange.Wire.GzipSource
import ItchExchange.Wire.Inflate
import ItchExchange.Wire.ReaderRefinement
import ItchExchange.Wire.GzipChunks
import ItchExchange.Wire.GzipDelivery
import ItchExchange.Wire.FrameStream
import ItchExchange.Wire.GzipFrames
import ItchExchange.Wire.Views
import ItchExchange.Wire.Layouts
import ItchExchange.Wire.WireBuilder
import ItchExchange.Replay.BookBuilder
import ItchExchange.Replay.Encoding
import ItchExchange.Replay.WireToBook
import ItchExchange.Replay.Tracking
import ItchExchange.Replay.TrackedArrivals
import ItchExchange.Replay.ReplayObserver
import ItchExchange.Replay.ForeignTraffic
import ItchExchange.Replay.QuantityConservation
import ItchExchange.Replay.SameJournal
import ItchExchange.Replay.FeedStatistics
import ItchExchange.Replay.PooledJournal
import ItchExchange.Replay.FieldReads
import ItchExchange.Apps.ItchReplay
import ItchExchange.Apps.ItchStats
import ItchExchange.Apps.ItchHistogram
import ItchExchange.Apps.ItchStatsReport
import ItchExchange.Replay.ReplayLog
