import Anaga.Transition
import Anaga.NamedTree
import Anaga.Bytes
import Anaga.CString
import Anaga.Inode
import Anaga.File
import Anaga.Kernel
import Anaga.Vfs
import Anaga.Persist
import Anaga.TableTree
import Anaga.Mkfs
import Anaga.VfsSpec
import Anaga.Reachable
import Anaga.TreeInvariant
import Anaga.Persistence
import Anaga.Growth
import Anaga.Writing
import Anaga.Naming
import Anaga.Command
import Anaga.Path
import Anaga.Robust
import Anaga.Display
import Anaga.Elf
import Anaga.Logged
import Anaga.Extraction
import Anaga.Acceptance
import Anaga.Formatting
import Anaga.Reading
import Anaga.FirstFit
import Anaga.Heap
import Anaga.HeapRuns
import Anaga.AddressSpace
import Anaga.Roll
import Anaga.Terminal
import Anaga.Echo
import Anaga.ElfImage
import Anaga.Shell
import Anaga.Descriptors
import Anaga.Requests
import Anaga.Constructors
import Anaga.Closing
import Anaga.Numerals
import Anaga.Printing
import Anaga.Formats
import Anaga.Shift
import Anaga.Syscall
import Anaga.Timer
import Anaga.Paging
import Anaga.Acpi
import Anaga.SleepType
import Anaga.Isr
import Anaga.E1000
import Anaga.Trace
import Anaga.Pci
import Anaga.Bars
import Anaga.Power
import Anaga.Ata
import Anaga.Sectors
import Anaga.PowerFailure
import Anaga.Interrupted
import Anaga.Builtins
import Anaga.Session
import Anaga.Hierarchy
import Anaga.Volume
import Anaga.Talk
import Anaga.Descriptor
import Anaga.Gates
import Anaga.Board
