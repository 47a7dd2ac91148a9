import RootedHeap.Demo.CommandLine
import RootedHeap.Derive.Draft
import RootedHeap.Derive.Output
import RootedHeap.Descriptor
import RootedHeap.Main
import RootedHeap.Script.Report
import RootedHeap.Proofs.Cells
import RootedHeap.Proofs.Collection
import RootedHeap.Proofs.Concurrency
import RootedHeap.Proofs.Confluence
import RootedHeap.Proofs.Failures
import RootedHeap.Proofs.RootRelease
import RootedHeap.Proofs.Strength
import RootedHeap.Proofs.Bookkeeping
import RootedHeap.Proofs.Ventures
import RootedHeap.Proofs.Refusals
import RootedHeap.Proofs.Counters
import RootedHeap.Proofs.Borders
import RootedHeap.Proofs.Confines
import RootedHeap.Proofs.Separation
import RootedHeap.Proofs.Chronicle
import RootedHeap.Proofs.Acyclic
import RootedHeap.Proofs.Orphans
import RootedHeap.Proofs.Meters
import RootedHeap.Proofs.WeakCounts
import RootedHeap.Proofs.Allocations
import RootedHeap.Proofs.Upgrades
import RootedHeap.Proofs.Expansions
import RootedHeap.Proofs.Disconnection
import RootedHeap.Proofs.Garbage
import RootedHeap.Proofs.Footprint
import RootedHeap.Proofs.Connection
import RootedHeap.Proofs.Taking
import RootedHeap.Proofs.Assignment
import RootedHeap.Proofs.Draining
import RootedHeap.Proofs.Termination
import RootedHeap.Proofs.Halves
import RootedHeap.Proofs.Cascades
import RootedHeap.Proofs.Lending
import RootedHeap.Proofs.Readings
import RootedHeap.Proofs.Sole
import RootedHeap.Proofs.Ring
import RootedHeap.Proofs.Schedules
import RootedHeap.Proofs.CrossThread
