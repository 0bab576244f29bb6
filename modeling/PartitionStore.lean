import PartitionStore.EngineSettings.Data
import PartitionStore.Main
import PartitionStore.Proofs.Engine.FormatGuard
import PartitionStore.Proofs.Engine.Restart
import PartitionStore.Proofs.Table.Damage
import PartitionStore.Proofs.Table.Reader
import PartitionStore.Proofs.Table.Truncation
import PartitionStore.Proofs.Engine.Answers
import PartitionStore.Proofs.Engine.Reopening
import PartitionStore.Proofs.Engine.DurableClose
import PartitionStore.Proofs.Engine.Finding
import PartitionStore.Proofs.Engine.Metadata
import PartitionStore.Proofs.Engine.SpentHandles
import PartitionStore.Proofs.Engine.Sparing
import PartitionStore.Proofs.Engine.FreshStart
import PartitionStore.Proofs.Engine.Lifecycle
import PartitionStore.Proofs.Engine.Removal
import PartitionStore.Proofs.Engine.Again
import PartitionStore.Proofs.Engine.FirstWriter
import PartitionStore.Proofs.Engine.Syncing
import PartitionStore.Proofs.Engine.Gauges
import PartitionStore.Proofs.Engine.ManyWorkers
import PartitionStore.Proofs.EngineRecord.RoundTrip
import PartitionStore.Proofs.StoreFolder.TornRecord
import PartitionStore.Proofs.Engine.OpeningFaults
import PartitionStore.Proofs.Inspector.Agreement
import PartitionStore.Proofs.Sizes
