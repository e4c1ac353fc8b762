import Os161.Proofs.ExecArguments
import Os161.Proofs.SemaphoreSafety
import Os161.Proofs.CvBroadcast
import Os161.Proofs.PidRace
import Os161.Proofs.ExitDelivery
import Os161.Proofs.TrueParent
import Os161.Proofs.SlotConservation
import Os161.Proofs.UserConfinement
import Os161.Proofs.TlbCoherence
import Os161.Proofs.FaultHandling
import Os161.Proofs.ThreadSpace
import Os161.Proofs.KheapSafety
import Os161.Proofs.EmufsAccounting
import Os161.Proofs.DeviceNames
import Os161.Proofs.SfsEndOfFile
import Os161.Proofs.BowlSharing
import Os161.Proofs.DiskPairing
import Os161.Proofs.StoplightSafety
import Os161.Proofs.SfsSyncComplete
import Os161.Proofs.LifeCycleBlocks
import Os161.Proofs.ConsoleCounts
import Os161.Proofs.SyscallReturns
import Os161.Proofs.SfsLeaks
import Os161.Proofs.UserCopies
import Os161.Proofs.MallocSizes
import Os161.Proofs.LamebusDuds
import Os161.Proofs.KgetsLine
import Os161.Proofs.MemmoveCopies
