import LinuxAbi.IoUring.Cancel
import LinuxAbi.IoUring.Setup
import LinuxAbi.Fd.EpollWakeup
import LinuxAbi.Fd.EpollLinear
import LinuxAbi.Fd.Topology
import LinuxAbi.Signal.Masks
import LinuxAbi.Signal.Order
import LinuxAbi.Signal.Fallback
import LinuxAbi.Proc.Parents
import LinuxAbi.Proc.Assertions
import LinuxAbi.Mm.PinPublication
import LinuxAbi.Mm.UffdExact
import LinuxAbi.Seccomp.Confinement
import LinuxAbi.Seccomp.Budget
import LinuxAbi.Cred.Privilege
import LinuxAbi.Cred.NsCapable
import LinuxAbi.Packet.Socket
import LinuxAbi.Rseq.Restart
import LinuxAbi.Seccomp.Load
import LinuxAbi.Mm.Remap
import LinuxAbi.Vfs.Setattr
