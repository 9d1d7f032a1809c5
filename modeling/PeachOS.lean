import PeachOS.HeapExhaustion
import PeachOS.ProcessRuns
import PeachOS.BinarySpace
import PeachOS.ElfSegments
import PeachOS.MallocFailure
import PeachOS.PathText
import PeachOS.TaskList
import PeachOS.TaskReturn
import PeachOS.CurrentProcess
import PeachOS.Gdt
import PeachOS.Terminal
import PeachOS.Fat16Lookup
import PeachOS.Fat16Path
import PeachOS.Fat16Names
import PeachOS.Fat16Mount
import PeachOS.FileTable
import PeachOS.FullTable
import PeachOS.Fat16Division
import PeachOS.ElfHeaders
import PeachOS.ElfBss
import PeachOS.ElfConfinement
import PeachOS.ProcessBlocks
import PeachOS.ProcessCreation
import PeachOS.FileHeap
import PeachOS.StringCompare
import PeachOS.Itoa
import PeachOS.ElfBounds
import PeachOS.RoundRobin
import PeachOS.PathRelease
import PeachOS.Session
