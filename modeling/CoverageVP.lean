import CoverageVP.Clover.Exhaustive
import CoverageVP.Clover.Reproducible
import CoverageVP.Clover.TestCase
import CoverageVP.Gdb.Runlength
import CoverageVP.Gdb.ThreadInfo
import CoverageVP.Instr.RvcAgreement
import CoverageVP.Iss.Alignment
import CoverageVP.Iss.BusErrors
import CoverageVP.Iss.CounterShadows
import CoverageVP.Iss.CoverageLines
import CoverageVP.Iss.CoveragePartition
import CoverageVP.Iss.ElfImage
import CoverageVP.Iss.Interrupts
import CoverageVP.Iss.ModeInvariant
import CoverageVP.Iss.PathConstraints
import CoverageVP.Iss.Privilege
import CoverageVP.Iss.Refinement
import CoverageVP.Iss.Retirement
import CoverageVP.Iss.SyscallResults
import CoverageVP.Iss.TaintSoundness
import CoverageVP.Iss.Transactions
import CoverageVP.Iss.TrapReturn
import CoverageVP.Klee.Construct
import CoverageVP.Klee.Sessions
import CoverageVP.Platform.CanBounds
import CoverageVP.Platform.CanRegisters
import CoverageVP.Platform.ClintClock
import CoverageVP.Platform.ClintTimer
import CoverageVP.Platform.Fe310PerHart
import CoverageVP.Platform.Fe310Priorities
import CoverageVP.Platform.Fu540Delivery
import CoverageVP.Platform.Fu540Selection
import CoverageVP.Platform.Oled
import CoverageVP.Platform.RealClint
import CoverageVP.Platform.RegisterMapping
import CoverageVP.Platform.SlipBuffer
import CoverageVP.Platform.UartDelivery
import CoverageVP.Platform.UartInput
import CoverageVP.Platform.UartWatermark
