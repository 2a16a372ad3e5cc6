import MiyakoLink.Lib.Guarded
import MiyakoLink.Lib.NorCell
import MiyakoLink.Lib.Patch
import MiyakoLink.Lib.Image
import MiyakoLink.HexUtils
import MiyakoLink.Lib.CString
import MiyakoLink.Lib.Scanf
import MiyakoLink.Lib.Effect
import MiyakoLink.Lib.Deque
import MiyakoLink.Lib.Memory
import MiyakoLink.Lib.Slots
import MiyakoLink.Flash.Region
import MiyakoLink.Flash.Buffered
import MiyakoLink.Flash.Calls
import MiyakoLink.Flash.Cache
import MiyakoLink.Flash.Session
import MiyakoLink.Flash.VFlash
import MiyakoLink.Flash.Packets
import MiyakoLink.Flash.Apart
import MiyakoLink.Flash.Erase
import MiyakoLink.Packet.Receive
import MiyakoLink.Packet.Capture
import MiyakoLink.Packet.Send
import MiyakoLink.Packet.RoundTrip
import MiyakoLink.Packet.Accept
import MiyakoLink.Remote.Apart
import MiyakoLink.Remote.Firmware
import MiyakoLink.Remote.Safety
import MiyakoLink.Remote.Served
import MiyakoLink.Mem.Runs
import MiyakoLink.Config.Restart
import MiyakoLink.CortexM.Runs
import MiyakoLink.CortexM.Encoding
import MiyakoLink.CortexM.Registers
import MiyakoLink.CortexM.Unwind
import MiyakoLink.CortexM.Resume
import MiyakoLink.CortexA.Registers
import MiyakoLink.Lib.Lanes
import MiyakoLink.Adiv5.MemAp
import MiyakoLink.Adiv5.Mem
import MiyakoLink.Adiv5.RoundTrip
import MiyakoLink.Adiv5.BusReads
import MiyakoLink.Adiv5.SizedWrites
import MiyakoLink.Adiv5.LowAccess
import MiyakoLink.Adiv5.Sticky
import MiyakoLink.Adiv5.Retry
import MiyakoLink.Adiv5.RomTable
import MiyakoLink.Lib.TapChain
import MiyakoLink.Lib.Walk
import MiyakoLink.Jtag.Scan
import MiyakoLink.Jtag.Sequences
import MiyakoLink.Jtag.Table
import MiyakoLink.Jtag.Bounds
import MiyakoLink.Jtag.Runs
import MiyakoLink.Lib.Strtol
import MiyakoLink.Monitor.Command
import MiyakoLink.Monitor.Dispatch
import MiyakoLink.Monitor.Neutral
import MiyakoLink.Lib.Sscanf
import MiyakoLink.Gdb.Access
import MiyakoLink.Gdb.Grammar
import MiyakoLink.Gdb.Faithful
import MiyakoLink.Gdb.SingleRegister
import MiyakoLink.Gdb.RegisterFile
import MiyakoLink.Gdb.MemoryMap
import MiyakoLink.Lib.RefCount
import MiyakoLink.Scan.Objects
import MiyakoLink.Scan.Probe
import MiyakoLink.Scan.Ownership
import MiyakoLink.Scan.Leaks
import MiyakoLink.Exceptions.Chain
import MiyakoLink.Tasks.Registry
import MiyakoLink.Kinetis.Security
import MiyakoLink.NonIso.Direction
import MiyakoLink.Rp.Session
import MiyakoLink.Uart.Burst
import MiyakoLink.Session.Attach
import MiyakoLink.Session.Stepping
import MiyakoLink.Session.Missing
import MiyakoLink.Erase.Msp432
import MiyakoLink.Stm32.L4
import MiyakoLink.Stm32.G0
import MiyakoLink.Stm32.F1Write
import MiyakoLink.Lpc.Reserved
import MiyakoLink.CortexA.Restore
import MiyakoLink.Lib.Crc
import MiyakoLink.Crc.GenericCrc32
import MiyakoLink.Crc.Crc32
import MiyakoLink.Config.Checksum
import MiyakoLink.Config.Eeprom
import MiyakoLink.CortexM.CacheClean
import MiyakoLink.Semihosting.Cmdline
import MiyakoLink.Semihosting.Request
import MiyakoLink.Semihosting.VRun
import MiyakoLink.Stm32.SavedRegs
import MiyakoLink.Lib.Pio
import MiyakoLink.NonIso.TdiTdo
import MiyakoLink.NonIso.TdiTdoSeq
import MiyakoLink.NonIso.SeqIn
import MiyakoLink.NonIso.SeqInSession
import MiyakoLink.Flash.Blocks
import MiyakoLink.Pages.Session
import MiyakoLink.Platform.Timing
import MiyakoLink.Remote.HexCoding
import MiyakoLink.Rp.RomTable
import MiyakoLink.Semihosting.HostioReply
import MiyakoLink.Monitor.Frequency
import MiyakoLink.Lib.StreamBuffer
import MiyakoLink.Platform.GdbIf
import MiyakoLink.Lib.Flow
import MiyakoLink.Usb.Cdc
import MiyakoLink.Hosted.Session
import MiyakoLink.NonIso.JtagSession
import MiyakoLink.Lib.PioWide
import MiyakoLink.NonIso.SwdAccess
import MiyakoLink.NonIso.SwdAccessSession
import MiyakoLink.Lib.Bus
import MiyakoLink.Stm32.G0Options
import MiyakoLink.Lib.Manchester
import MiyakoLink.Platform.TraceSwo
import MiyakoLink.Lib.RingBuffer
import MiyakoLink.Platform.UsbUart
import MiyakoLink.Platform.Dfu
