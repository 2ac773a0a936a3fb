import SoftPaging.Bench.Step
import SoftPaging.Proofs.Kernel.Meets
import SoftPaging.Proofs.Pool.Block
import SoftPaging.Proofs.Pool.Run
import SoftPaging.Proofs.Pool.Search
import SoftPaging.Proofs.Pool.Address
import SoftPaging.Proofs.Pool.Count
import SoftPaging.Proofs.Pool.Lending
import SoftPaging.Proofs.Pool.Boot
import SoftPaging.Proofs.Pool.Ledger
import SoftPaging.Proofs.Pool.Holding
import SoftPaging.Proofs.Paging.Mapping
import SoftPaging.Proofs.Paging.Shape
import SoftPaging.Proofs.Paging.Shows
import SoftPaging.Proofs.Paging.Held
import SoftPaging.Proofs.Paging.Operations
import SoftPaging.Proofs.Paging.Release
import SoftPaging.Proofs.Paging.Copying
import SoftPaging.Proofs.Paging.Becomes
import SoftPaging.Proofs.Space.Demand
import SoftPaging.Proofs.Space.Regions
import SoftPaging.Proofs.Space.Servicing
import SoftPaging.Proofs.Space.Operations
import SoftPaging.Proofs.Cell.Operations
import SoftPaging.Proofs.Session.Basic
import SoftPaging.Proofs.Pool.Serving
import SoftPaging.Proofs.Session.Scene
import SoftPaging.Proofs.Session.Sound
import SoftPaging.Proofs.Session.Acting
import SoftPaging.Proofs.Session.Frames
import SoftPaging.Proofs.Session.Cells
import SoftPaging.Proofs.Session.Tables
import SoftPaging.Proofs.Session.Step
import SoftPaging.Proofs.Session.Ownership
import SoftPaging.Proofs.Session.Privacy
import SoftPaging.Proofs.Session.Rejection
import SoftPaging.Proofs.Session.Duplication
import SoftPaging.Proofs.Session.Locality
import SoftPaging.Proofs.Space.Loading
import SoftPaging.Proofs.Session.Spaces
import SoftPaging.Proofs.Tlb.Buffer
import SoftPaging.Proofs.Session.Coherence
import SoftPaging.Proofs.Session.Permissions
import SoftPaging.Proofs.Session.Granting
import SoftPaging.Proofs.Session.Safety
import SoftPaging.Proofs.Paging.PageMap
import SoftPaging.Proofs.Paging.Refinement
import SoftPaging.Proofs.Session.Maps
import SoftPaging.Proofs.Ram.Writes
import SoftPaging.Proofs.Kernel.Tracks
import SoftPaging.Proofs.Pool.Alike
import SoftPaging.Proofs.Cell.Alike
import SoftPaging.Proofs.Paging.Alike
import SoftPaging.Proofs.Space.Alike
import SoftPaging.Proofs.Session.Alike
import SoftPaging.Proofs.Session.Twins
import SoftPaging.Proofs.Session.Secrecy
import SoftPaging.Proofs.Pool.FirstFit
import SoftPaging.Proofs.Pool.Exhaustion
import SoftPaging.Proofs.Space.Residency
import SoftPaging.Proofs.Session.Residency
import SoftPaging.Proofs.Session.Footprint
import SoftPaging.Proofs.Space.Deciding
import SoftPaging.Proofs.Session.Deciding
import SoftPaging.Proofs.Session.Others
import SoftPaging.Proofs.Session.Serviced
import SoftPaging.Proofs.Space.Sealing
import SoftPaging.Proofs.Session.Sealing
import SoftPaging.Proofs.Paging.Merging
import SoftPaging.Proofs.Session.Merging
import SoftPaging.Proofs.Pool.Reserve
import SoftPaging.Proofs.Space.Defining
import SoftPaging.Proofs.Kernel.Answers
import SoftPaging.Proofs.Space.Answering
import SoftPaging.Proofs.Session.Fitness
import SoftPaging.Proofs.Session.Defining
import SoftPaging.Proofs.Session.Distinct
import SoftPaging.Proofs.Space.Bringing
import SoftPaging.Proofs.Session.Reordering
import SoftPaging.Proofs.Tlb.Replacement
import SoftPaging.Proofs.Session.Refilling
import SoftPaging.Proofs.Tlb.Interrupts
import SoftPaging.Proofs.Tlb.Falls
import SoftPaging.Proofs.Pool.KernelPages
import SoftPaging.Proofs.Tlb.Lookup
import SoftPaging.Proofs.Paging.Splitting
import SoftPaging.Proofs.Space.Membership
import SoftPaging.Proofs.Pool.Audit
import SoftPaging.Proofs.Paging.Audit
import SoftPaging.Proofs.Space.Audit
import SoftPaging.Proofs.Session.Audit
import SoftPaging.Proofs.Address.Alignment
import SoftPaging.Proofs.Session.Sufficing
