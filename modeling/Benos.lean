import Benos.Machine.Memset
import Benos.Mm.PageBounds
import Benos.Mm.Stage2Space
import Benos.Mm.DumpSizes
import Benos.Mm.SectionRuns
import Benos.Sched.PreemptCount
import Benos.Sched.SwitchCount
import Benos.Sched.Choice
import Benos.Sched.TimeSlices
import Benos.Sched.Threads
import Benos.Sched.Fairness
import Benos.Sched.StackWalk
import Benos.Trap.Privilege
import Benos.Trap.FailedClone
import Benos.Trap.Dispatch
import Benos.Trap.ScratchRuns
import Benos.Timer.VcpuTimer
import Benos.Timer.TickChain
import Benos.Timer.GuestTicks
import Benos.Irq.Plic
import Benos.Printk.Arguments
import Benos.Printk.Bounds
import Benos.Printk.Layout
import Benos.Printk.Grammar
import Benos.Kallsyms.Lookup
import Benos.Kallsyms.ReadSymbol
import Benos.Kallsyms.Passes
import Benos.Kallsyms.Greedy
import Benos.Virt.GuestTrap
import Benos.Virt.TwoStage
import Benos.Virt.GuestSpace
import Benos.Virt.VmEntry
import Benos.Sbi.RoundTrip
import Benos.Sbi.PmpProtects
import Benos.Sbi.PmpAccess
import Benos.Irq.ExternalIrq
