import SubOS.Compress.Rle
import SubOS.Drivers.Fbcon
import SubOS.Drivers.Ramdisk
import SubOS.Fs.Fat32Runs
import SubOS.Fs.Names
import SubOS.Fs.Resolve
import SubOS.Gui.WebLines
import SubOS.Image.Huffman
import SubOS.Image.Png
import SubOS.IoUring.Positional
import SubOS.Ipc.Sem
import SubOS.Kernel.Bpf
import SubOS.Kernel.Break
import SubOS.Kernel.Fmutex
import SubOS.Kernel.FutexRace
import SubOS.Kernel.Overwrite
import SubOS.Kernel.Rcu
import SubOS.Kernel.UserAccess
import SubOS.Mm.HeapWide
import SubOS.Mm.PageDirty
import SubOS.Mm.PageOrigin
import SubOS.Mm.PageRefine
import SubOS.Mm.PmmRuns
import SubOS.Mm.VmOwned
import SubOS.Mm.Vma
import SubOS.Net.Dns
import SubOS.Net.Http.HandoffRun
import SubOS.Net.Http.Response
import SubOS.Net.Tcp.Acked
import SubOS.Net.Tcp.Delivery
import SubOS.Net.Tcp.SendStream
import SubOS.Net.Tcp.Service
import SubOS.Net.Tcp.TableStep
import SubOS.Net.Tls.AppData
import SubOS.Net.Tls.Nonce
import SubOS.Net.Tls.RecordWrites
import SubOS.Net.Tls.ServerFinished
import SubOS.Net.Tls.ServerHello
import SubOS.Nt.ObLeaks
import SubOS.Userland.Nano
import SubOS.Crypto.RustPoly1305
