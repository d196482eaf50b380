import KvIndex.FullRebase
import KvIndex.CompactionRun
import KvIndex.UpdateReplay
import KvIndex.CoordinatorRun
import KvIndex.UpdateCoordinator
import KvIndex.SectionOrder
import KvIndex.ArtifactAccess
import KvIndex.RowArenaAccess
import KvIndex.RoutedRows
import KvIndex.ConcurrentLoads
import KvIndex.AtomicMap
import KvIndex.AtomicMapRun
import KvIndex.CatchUpRunner
import KvIndex.CatchUpReplay
import KvIndex.CatchUpLoad
import KvIndex.FrozenMap
import KvIndex.FrozenAccess
import KvIndex.ArtifactCorruption
import KvIndex.RowLayout
import KvIndex.TypedSchema
import KvIndex.PayloadWire
import KvIndex.PayloadAccess
import KvIndex.RowReaders
import KvIndex.RowWindows
import KvIndex.RowFrame
import KvIndex.RowWrites
import KvIndex.ListWriters
import KvIndex.FieldWrites
import KvIndex.PayloadRow
import KvIndex.LayoutHistory
import KvIndex.RowRoundTrip
import KvIndex.CoordinatorStep
import KvIndex.StableHash
import KvIndex.ProbeCoverage
import KvIndex.SlotRouting
import KvIndex.MultiGet
import KvIndex.RealtimeHistory
import KvIndex.RowAccess
import KvIndex.SchemaText
import KvIndex.SnapshotBuild
import KvIndex.SchemaTextRoundTrip
import KvIndex.EncoderAgreement
import KvIndex.Prewarm
import KvIndex.AppliedRows
import KvIndex.LayoutFingerprint
import KvIndex.BuiltIndex
import KvIndex.IndexShutdown
import KvIndex.TypedReads
import KvIndex.StreamedTables
import KvIndex.ServedStream
import KvIndex.BuildContents
import KvIndex.CommandLine
