import SafeBump.Library.Lines
import SafeBump.Library.PartitionPoint
import SafeBump.Library.Epochs
import SafeBump.Library.Unwind
import SafeBump.Library.Confined
import SafeBump.Library.Safe
import SafeBump.Library.Cursor
import SafeBump.Runtime
import SafeBump.Stamp
import SafeBump.StampThreads
import SafeBump.Handles
import SafeBump.Context
import SafeBump.Identity
import SafeBump.SharedIdentity
import SafeBump.SegmentTable
import SafeBump.ArchiveTable
import SafeBump.Request
import SafeBump.Store
import SafeBump.Lifetime
import SafeBump.Arena
import SafeBump.ArenaModel
import SafeBump.ChunkedStorage
import SafeBump.StorageMap
import SafeBump.SharedArena
import SafeBump.SharedRuns
import SafeBump.Simulation
import SafeBump.Calls
import SafeBump.Assignment
import SafeBump.Publication
import SafeBump.Progress
import SafeBump.Served
import SafeBump.Process
import SafeBump.Capabilities
import SafeBump.World
import SafeBump.Deliveries
import SafeBump.Placement
import SafeBump.Supply
import SafeBump.Provenance
import SafeBump.Intact
import SafeBump.Shown
import SafeBump.SharedShown
import SafeBump.WorldShown
import SafeBump.WorldStores
import SafeBump.Checkpoints
import SafeBump.Custody
import SafeBump.Conservation
import SafeBump.Issuance
import SafeBump.Interruption
import SafeBump.Validation
import SafeBump.Allotment
import SafeBump.Exhaustion
import SafeBump.Enumeration
import SafeBump.BlockIndices
import SafeBump.SlotArithmetic
import SafeBump.Batches
import SafeBump.Race
import SafeBump.Failures
import SafeBump.Reservations
import SafeBump.Turns
import SafeBump.Linearization
import SafeBump.Reentrancy
import SafeBump.Survival
import SafeBump.Snapshots
