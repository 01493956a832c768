import StartKernel.Proofs.Sem
import StartKernel.Proofs.Mutex
import StartKernel.Proofs.Sleep
import StartKernel.Proofs.FrameOwnership
import StartKernel.Proofs.Sbrk
import StartKernel.Proofs.TaskInit
import StartKernel.Proofs.Lists
import StartKernel.Proofs.CreateMap
import StartKernel.Proofs.MemorySize
import StartKernel.Proofs.Destroy
import StartKernel.Proofs.CopyFailure
import StartKernel.Proofs.Fairness
import StartKernel.Proofs.TaskState
import StartKernel.Proofs.KernelTable
import StartKernel.Proofs.BitmapAlloc
import StartKernel.Proofs.BitmapArray
import StartKernel.Proofs.AddrFree
import StartKernel.Proofs.SleepPass
import StartKernel.Proofs.SbrkAdditive
import StartKernel.Proofs.CopyUvmData
import StartKernel.Proofs.FreePage
import StartKernel.Proofs.GdtSelectors
import StartKernel.Proofs.TssAtomic
import StartKernel.Proofs.StringCopy
import StartKernel.Proofs.StringCompare
import StartKernel.Proofs.FileName
import StartKernel.Proofs.Sprintf
import StartKernel.Proofs.DetectMemory
import StartKernel.Proofs.ElfLoader
import StartKernel.Proofs.PrivateMemory
import StartKernel.Proofs.AllocLocked
import StartKernel.Proofs.LogLocked
import StartKernel.Proofs.Masked
import StartKernel.Proofs.SwitchStart
import StartKernel.Proofs.TaskSwitch
import StartKernel.Proofs.Messages
import StartKernel.Proofs.LoadKernel
import StartKernel.Proofs.IrqMasks
