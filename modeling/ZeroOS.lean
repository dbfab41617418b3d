import ZeroOS.Kernel.Exec
import ZeroOS.Ipc.Wakeup
import ZeroOS.Security.Sessions
import ZeroOS.Kernel.Status
import ZeroOS.Kernel.Succession
import ZeroOS.Memory.Books
import ZeroOS.Kernel.Futex
import ZeroOS.Fs.Accounts
import ZeroOS.Fs.Namespace
import ZeroOS.Security.UserCrash
import ZeroOS.Kernel.Sleepers
import ZeroOS.Pkg.Signature
import ZeroOS.Pkg.Install
import ZeroOS.Memory.PhysScan
import ZeroOS.Memory.BootMap
import ZeroOS.Heap.Twice
import ZeroOS.Ipc.Order
import ZeroOS.Ipc.Receive
import ZeroOS.Process.Libraries
import ZeroOS.Window.Repaint
import ZeroOS.Fs.Fallback
import ZeroOS.Security.Passwords
import ZeroOS.Fs.Reinstall
import ZeroOS.Net.Checksum
import ZeroOS.Debug.Pstore
import ZeroOS.Drivers.Nvme
import ZeroOS.Net.Order
import ZeroOS.Process.WaitResult
import ZeroOS.Security.Fields
import ZeroOS.Fs.Codec
import ZeroOS.Drivers.Iort
import ZeroOS.Fs.Contents
