import VijosOS.Arch.Sv39
import VijosOS.Arch.SwitchTo
import VijosOS.Arch.Transparency
import VijosOS.Arch.Trap
import VijosOS.Arch.TrapHandler
import VijosOS.Console.Calls
import VijosOS.Console.Conversion
import VijosOS.Console.Directive
import VijosOS.Console.Emission
import VijosOS.Console.Meaning
import VijosOS.Console.Printf
import VijosOS.Dhcp.Client
import VijosOS.Dhcp.Exchange
import VijosOS.Dhcp.Server
import VijosOS.Driver.AxiEthernet
import VijosOS.Driver.Serial
import VijosOS.Host.Addressing
import VijosOS.Host.Host
import VijosOS.Host.Lease
import VijosOS.Host.Provenance
import VijosOS.Host.Reception
import VijosOS.Host.Senders
import VijosOS.Host.Transmission
import VijosOS.Judge.AddressSpace
import VijosOS.Judge.Attempt
import VijosOS.Judge.Client
import VijosOS.Judge.Confinement
import VijosOS.Judge.Daemon
import VijosOS.Judge.DoJudge
import VijosOS.Judge.Elf
import VijosOS.Judge.ElfLoading
import VijosOS.Judge.FaultProgress
import VijosOS.Judge.HeaderTable
import VijosOS.Judge.History
import VijosOS.Judge.LoaderSafety
import VijosOS.Judge.Noninterference
import VijosOS.Judge.Permissions
import VijosOS.Judge.Request
import VijosOS.Judge.Sessions
import VijosOS.Judge.System
import VijosOS.Judge.Upload
import VijosOS.Judge.UserMap
import VijosOS.Judge.Verdict
import VijosOS.Library.ByteMemory
import VijosOS.Library.Coroutine
import VijosOS.Library.Layout
import VijosOS.Library.Leads
import VijosOS.Library.Numeral
import VijosOS.Library.OnesComplement
import VijosOS.Library.PathTree
import VijosOS.Library.Rfc1071
import VijosOS.Library.Riscv
import VijosOS.Library.RunLength
import VijosOS.Library.Transition
import VijosOS.Library.Words
import VijosOS.Memory.Accounting
import VijosOS.Memory.Agreement
import VijosOS.Memory.Allocator
import VijosOS.Memory.AllocatorRuns
import VijosOS.Memory.FreePages
import VijosOS.Memory.Isolation
import VijosOS.Memory.Listing
import VijosOS.Memory.Mmu
import VijosOS.Memory.PageMap
import VijosOS.Memory.Regions
import VijosOS.Memory.TableFormat
import VijosOS.Memory.Vm
import VijosOS.Memory.VmCopy
import VijosOS.Memory.VmInvariant
import VijosOS.Memory.VmOps
import VijosOS.Memory.VmView
import VijosOS.Net.Addr
import VijosOS.Net.Answers
import VijosOS.Net.Asks
import VijosOS.Net.Checksum
import VijosOS.Net.Frame
import VijosOS.Net.Icmpv4Echo
import VijosOS.Net.Icmpv6Frames
import VijosOS.Net.InternetChecksum
import VijosOS.Net.Outcome
import VijosOS.Net.ReceivedLength
import VijosOS.Net.Resolution
import VijosOS.Net.RoundTrip
import VijosOS.Net.SendUdp
import VijosOS.Net.UdpAcceptance
import VijosOS.Net.UdpChecksum
import VijosOS.Task.HandOff
import VijosOS.Task.Idle
import VijosOS.Task.Log
import VijosOS.Task.Resumption
import VijosOS.Task.RoundRobin
import VijosOS.Task.Suspension
import VijosOS.Task.Task
import VijosOS.Task.Timeout
import VijosOS.Tftp.Client
import VijosOS.Tftp.Get
import VijosOS.Tftp.GetBounds
import VijosOS.Tftp.GetProgress
import VijosOS.Tftp.GetSafety
import VijosOS.Tftp.Packet
import VijosOS.Tftp.Put
import VijosOS.Tftp.PutProgress
import VijosOS.Tftp.PutSafety
import VijosOS.Tftp.Transfer
import VijosOS.Utils
