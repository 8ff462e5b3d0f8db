import Deltacat.Catalog.Delegate
import Deltacat.Catalog.TriggerCompaction
import Deltacat.Compute.Compactor.DeltaAnnotated
import Deltacat.Compute.Compactor.Repartition
import Deltacat.Compute.CompactorV2.BucketReplay
import Deltacat.Compute.CompactorV2.CompactionSession
import Deltacat.Compute.CompactorV2.CopyByReference
import Deltacat.Compute.CompactorV2.EqualityDeletes
import Deltacat.Compute.CompactorV2.ExactDeletes
import Deltacat.Compute.CompactorV2.HashBucket
import Deltacat.Compute.CompactorV2.HashBucketGrouping
import Deltacat.Compute.CompactorV2.IncrementalCompaction
import Deltacat.Compute.CompactorV2.KeyStrings
import Deltacat.Compute.CompactorV2.Merge
import Deltacat.Compute.CompactorV2.MergeOrder
import Deltacat.Compute.CompactorV2.MergeReplay
import Deltacat.Compute.CompactorV2.MergeResults
import Deltacat.Compute.CompactorV2.MergeTask
import Deltacat.Compute.CompactorV2.PartialUpsert
import Deltacat.Compute.CompactorV2.PrepareDeletes
import Deltacat.Compute.CompactorV2.UniformDeltas
import Deltacat.Compute.Converter.Convert
import Deltacat.Compute.Converter.ConvertSpec
import Deltacat.Compute.Converter.Dedupe
import Deltacat.Compute.Converter.SubBuckets
import Deltacat.Compute.Converter.UpdateSnapshotOverrides
import Deltacat.Compute.Janitor
import Deltacat.Compute.JanitorSafety
import Deltacat.Exceptions
import Deltacat.Experimental.BackfillTransactionPartitions
import Deltacat.Experimental.Iceberg.ExpressionVisitor
import Deltacat.Experimental.Iceberg.PartitionSpecs
import Deltacat.Experimental.Rivulet.BlockGroups
import Deltacat.Experimental.Rivulet.BlockIntervalTree
import Deltacat.Experimental.Rivulet.DatasetMetastore
import Deltacat.Experimental.Rivulet.DatasetSchemas
import Deltacat.Experimental.Rivulet.MemtableDatasetWriter
import Deltacat.Experimental.Rivulet.QueryExpression
import Deltacat.Experimental.Rivulet.RangeShard
import Deltacat.Experimental.Rivulet.ZipperScan
import Deltacat.Library.Decimal
import Deltacat.Library.Delimiter
import Deltacat.Library.GreedyGroups
import Deltacat.Library.Grouping
import Deltacat.Library.HalfOpenRanges
import Deltacat.Library.JsonText
import Deltacat.Library.KeyedItems
import Deltacat.Library.LastGreatest
import Deltacat.Library.ObjectStore
import Deltacat.Library.OrderedReplay
import Deltacat.Library.PosixPath
import Deltacat.Library.Procedure
import Deltacat.Library.Replay
import Deltacat.Library.Rounding
import Deltacat.Library.Run
import Deltacat.Library.Sorting
import Deltacat.Library.StableSorting
import Deltacat.Library.Stepwise
import Deltacat.Library.UrlSyntax
import Deltacat.Storage.AllOrNothing
import Deltacat.Storage.Atomicity
import Deltacat.Storage.CatalogState
import Deltacat.Storage.CheckedCalls
import Deltacat.Storage.Concurrency
import Deltacat.Storage.ConflictDetection
import Deltacat.Storage.CumulativeUpdates
import Deltacat.Storage.Delta
import Deltacat.Storage.DeltaChain
import Deltacat.Storage.DeltaMerge
import Deltacat.Storage.DeltaStaging
import Deltacat.Storage.FieldIds
import Deltacat.Storage.LatestVersions
import Deltacat.Storage.Manifest
import Deltacat.Storage.Metafile
import Deltacat.Storage.NameResolution
import Deltacat.Storage.Partition
import Deltacat.Storage.PartitionCommit
import Deltacat.Storage.PartitionLookup
import Deltacat.Storage.PauseResume
import Deltacat.Storage.ProcedureSpec
import Deltacat.Storage.Revision
import Deltacat.Storage.RevisionListing
import Deltacat.Storage.RevisionScan
import Deltacat.Storage.Schema
import Deltacat.Storage.SchemaFields
import Deltacat.Storage.SchemaHistory
import Deltacat.Storage.SchemeEquivalence
import Deltacat.Storage.Schemes
import Deltacat.Storage.SettledCatalog
import Deltacat.Storage.Snapshot
import Deltacat.Storage.Stream
import Deltacat.Storage.TableCoercion
import Deltacat.Storage.TableVersion
import Deltacat.Storage.TableVersionSpec
import Deltacat.Storage.TimeProvider
import Deltacat.Storage.Transaction
import Deltacat.Storage.TransactionLog
import Deltacat.Storage.TypeCompatibility
import Deltacat.Types.Tables
import Deltacat.Utils.ExponentialPartitions
import Deltacat.Utils.Filesystem
import Deltacat.Utils.MixedListing
import Deltacat.Utils.ObjectUrls
import Deltacat.Utils.PartitionedListing
import Deltacat.Utils.PartitionedPaths
import Deltacat.Utils.Pyarrow
import Deltacat.Utils.RecordBatchTables
import Deltacat.Utils.TableSlices
