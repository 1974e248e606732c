import AstraKernel.Proofs.Calls
import AstraKernel.Proofs.HandleStale
import AstraKernel.Proofs.HandleRights
import AstraKernel.Proofs.RingRuns
import AstraKernel.Proofs.Trace
import AstraKernel.Proofs.Alloc
import AstraKernel.Proofs.Irq
import AstraKernel.Proofs.VfsDeadlock
import AstraKernel.Proofs.VfsRetained
import AstraKernel.Proofs.AssignRuns
import AstraKernel.Proofs.Readdir
import AstraKernel.Proofs.DynamicClosure
import AstraKernel.Proofs.LogRuns
import AstraKernel.Proofs.TerminalSession
import AstraKernel.Proofs.ConfigRuns
import AstraKernel.Proofs.PortClient
import AstraKernel.Proofs.ProcessRuns
import AstraKernel.Proofs.HostWaitRuns
import AstraKernel.Proofs.StreamSession
import AstraKernel.Proofs.InputSession
import AstraKernel.Proofs.OwnerTable
import AstraKernel.Proofs.SyncTimerRuns
import AstraKernel.Proofs.PortSends
import AstraKernel.Proofs.DmaZone
import AstraKernel.Proofs.EventsAccount
import AstraKernel.Proofs.PathStack
import AstraKernel.Proofs.TlsBlocks
import AstraKernel.Proofs.ElfBlocksOnce
import AstraKernel.Package.Ledger
import AstraKernel.Proofs.PackageLinks
import AstraKernel.Proofs.RamFile
import AstraKernel.Runtime.Sort
import AstraKernel.Network.Address

