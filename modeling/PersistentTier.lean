import PersistentTier.Main
import PersistentTier.Proofs.Scope.Rollback
import PersistentTier.Proofs.Chain.Integrity
import PersistentTier.Proofs.Scope.Transaction
import PersistentTier.Proofs.Object.Stored
import PersistentTier.Proofs.AppendFile.Frames
import PersistentTier.Proofs.Pool.Durable
import PersistentTier.Proofs.Tier.Recovery
import PersistentTier.Proofs.Tier.Commands
import PersistentTier.Proofs.Tier.Restart
import PersistentTier.Proofs.AppendFile.Torn
import PersistentTier.Proofs.Tier.Chronology
import PersistentTier.Proofs.Tier.Forecast
import PersistentTier.Proofs.Tier.Outstanding
import PersistentTier.Proofs.Tier.Compaction
import PersistentTier.Proofs.Startup.Reconstruction
import PersistentTier.Proofs.Startup.Reclaiming
import PersistentTier.Proofs.Tier.Reopening
import PersistentTier.Proofs.Pool.Mirrored
import PersistentTier.Proofs.Tier.Snapshot
import PersistentTier.Proofs.Tier.Effects
import PersistentTier.Proofs.Tier.Cache
import PersistentTier.Proofs.Tier.Calls
import PersistentTier.Proofs.Tier.Recency
import PersistentTier.Proofs.Tier.Flusher
import PersistentTier.Proofs.Tier.Atomicity
import PersistentTier.Proofs.AppendFile.History
import PersistentTier.Proofs.Pool.Allocator
import PersistentTier.Proofs.Startup.Miscounted
import PersistentTier.Proofs.Scope.Composed
import PersistentTier.Proofs.Startup.Trustworthy
import PersistentTier.Proofs.Tier.Replacement
import PersistentTier.Proofs.Chain.Strict
import PersistentTier.Proofs.Chain.Lazy
import PersistentTier.Proofs.Chain.Suffix
import PersistentTier.Proofs.Tier.Flushing
import PersistentTier.Proofs.Tier.Limits
import PersistentTier.Proofs.Chain.Batches
import PersistentTier.Proofs.Log.Clearing
import PersistentTier.Proofs.Chain.ListEdits
import PersistentTier.Proofs.Tier.Selection
