import Rc700.Library.LineCache
import Rc700.Library.BlockMove
import Rc700.Library.Run
import Rc700.Disk.Contract
import Rc700.Disk.Deblocking
import Rc700.Disk.PreRead
import Rc700.Disk.Reporting
import Rc700.Disk.Image
import Rc700.Console.Terminal
import Rc700.Console.Video
import Rc700.Console.Driver
import Rc700.Console.Cells
import Rc700.Console.Refinement
import Rc700.Console.Cpnos
import Rc700.Console.CpnosAgreement
import Rc700.Console.Assembler
import Rc700.Console.AssemblerCells
import Rc700.Console.AssemblerTerminal
import Rc700.Console.AssemblerAgreement
import Rc700.Console.Keyboard
import Rc700.Library.Fifo
import Rc700.Library.PathText
import Rc700.Library.RecordFile
import Rc700.Serial.Channel
import Rc700.Serial.Registers
import Rc700.Serial.Transmitter
import Rc700.Serial.FlowControl
import Rc700.Serial.Ring
import Rc700.CpNet.Host
import Rc700.CpNet.Server
import Rc700.CpNet.Handlers
import Rc700.CpNet.Matching
import Rc700.CpNet.Paths
import Rc700.CpNet.Survival
import Rc700.CpNet.Records
import Rc700.CpNet.RoundTrip
import Rc700.Library.Dialogue
import Rc700.Library.Network
import Rc700.Library.LossyNet
import Rc700.Link.Frame
import Rc700.Link.Connection
import Rc700.Library.Buffer
import Rc700.Library.RingBuffer
import Rc700.Link.Snios
import Rc700.Link.Receiving
import Rc700.Link.Sending
import Rc700.Link.Discipline
import Rc700.Link.Parties
import Rc700.Link.Exchange
import Rc700.Interrupts.Rings
import Rc700.Library.Preemption
import Rc700.Console.Accesses
import Rc700.Interrupts.Display
import Rc700.Interrupts.Cursor
import Rc700.Interrupts.Clock
import Rc700.Interrupts.ExitTimer
import Rc700.Interrupts.Motor
import Rc700.Disk.SelectDisk
import Rc700.Library.Socket
import Rc700.Link.RawFrames
import Rc700.Netboot.Dispatch
import Rc700.Netboot.Coherence
import Rc700.Sdlc.Receiver
import Rc700.Sdlc.Encoder
import Rc700.Sdlc.BitRecovery
import Rc700.Sdlc.RoundTrip
import Rc700.Netboot.Loader
import Rc700.Link.Storing
import Rc700.Netboot.Names
import Rc700.Netboot.Search
import Rc700.Netboot.Removal
import Rc700.Link.Silence
import Rc700.CpNet.Positions
import Rc700.Library.BitPacking
import Rc700.Formats.Spr
import Rc700.Library.HexText
import Rc700.Library.TextLines
import Rc700.Formats.IntelHex
import Rc700.Formats.Imd
import Rc700.Library.Z80
import Rc700.Install.Validator
import Rc700.Install.Sysgen
import Rc700.CpNet.Directory
import Rc700.Netboot.Confinement
import Rc700.Netboot.Session
import Rc700.Netboot.Boot
import Rc700.Link.Serving
import Rc700.Link.Parts
import Rc700.Link.Delivery
import Rc700.CpNet.Delivery
import Rc700.Library.ShiftRegister
import Rc700.Sdlc.Crc
import Rc700.Sdlc.FrameSearch
import Rc700.Formats.Statements
import Rc700.Link.Trace
import Rc700.Formats.HexRecords
import Rc700.Console.Routing
import Rc700.Serial.LineSelect
import Rc700.Netboot.Verification
import Rc700.Install.Cpm56
import Rc700.Autoload.Geometry
import Rc700.Autoload.MultiTrack
import Rc700.Install.StampSerial
import Rc700.Library.Patterns
import Rc700.Library.DecimalText
import Rc700.Library.Calls
import Rc700.Link.Calls
import Rc700.CpNet.Session
import Rc700.CpNet.RemoteFile
import Rc700.Netboot.FileBoot
import Rc700.CpNet.PioServer
import Rc700.Formats.ImdImages
import Rc700.Formats.ImdPatch
import Rc700.Disk.WarmBoot
import Rc700.Disk.Volumes
import Rc700.Library.Routine
import Rc700.Autoload.Boot
import Rc700.Autoload.Loading
import Rc700.Autoload.PatchedDisk
import Rc700.Bdos.Allocation
import Rc700.Bdos.Directory
import Rc700.Bdos.Login
import Rc700.Bdos.Searching
import Rc700.Bdos.Deleting
import Rc700.Bdos.Making
import Rc700.Bdos.Renaming
import Rc700.Bdos.Opening
import Rc700.Bdos.FileCalls
import Rc700.Bdos.DiskDriver
