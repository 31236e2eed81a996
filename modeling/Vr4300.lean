import Vr4300.Access
import Vr4300.Address
import Vr4300.Configuration.Basic
import Vr4300.Configuration.Reader
import Vr4300.Cpu.Basic
import Vr4300.Cpu.Control
import Vr4300.Cpu.Effect
import Vr4300.Cpu.Exception
import Vr4300.Cpu.Memory
import Vr4300.Cpu.Semantics
import Vr4300.Cpu.Step
import Vr4300.FloatingPoint.Class
import Vr4300.FloatingPoint.Exception
import Vr4300.FloatingPoint.Format
import Vr4300.FloatingPoint.Nearest
import Vr4300.FloatingPoint.Operation
import Vr4300.FloatingPoint.Rounding
import Vr4300.Fragment.Basic
import Vr4300.Fragment.Cache
import Vr4300.Fragment.Index
import Vr4300.Fragment.Run
import Vr4300.Fragment.Store
import Vr4300.Instruction.Basic
import Vr4300.Instruction.Encoding
import Vr4300.Instruction.Kind
import Vr4300.Instruction.Table
import Vr4300.Integer.Arithmetic
import Vr4300.Integer.MultiplyDivide
import Vr4300.Json.Basic
import Vr4300.Json.Token
import Vr4300.Machine.Basic
import Vr4300.Machine.Run
import Vr4300.Memory.Bus
import Vr4300.Memory.Lane
import Vr4300.Memory.Ram
import Vr4300.Register.Control
import Vr4300.Register.File
import Vr4300.Register.FloatingPoint
import Vr4300.Register.General
import Vr4300.Schedule
import Vr4300.Statistics
import Vr4300.Tandem
import Vr4300.Text.CodePoints
import Vr4300.Text.Decimal
import Vr4300.Text.Hex
import Vr4300.Text.Quote
import Vr4300.Text.Unicode
import Vr4300.Tlb
import Vr4300.Trap
import Vr4300.Word
import Vr4300.Proofs.DueTimes
import Vr4300.Proofs.Interrupts
import Vr4300.Proofs.Passage
import Vr4300.Proofs.Frame
import Vr4300.Proofs.Deferral
import Vr4300.Proofs.Execution
import Vr4300.Proofs.History
import Vr4300.Proofs.Armed
import Vr4300.Proofs.Deadline
import Vr4300.Proofs.Host
import Vr4300.Proofs.TimerHistory
import Vr4300.Proofs.Budget
import Vr4300.Proofs.Handler
import Vr4300.Proofs.Precise
import Vr4300.Proofs.Equivalence
import Vr4300.Proofs.Timetable
import Vr4300.Proofs.CodeIndex
import Vr4300.Proofs.Consistency
import Vr4300.Proofs.Rooted
import Vr4300.Proofs.Progress
import Vr4300.Proofs.Overwriting
import Vr4300.Proofs.Recorded
import Vr4300.Proofs.Breakpoints
import Vr4300.Proofs.MappedCode
import Vr4300.Proofs.AddressSpace
import Vr4300.Proofs.Grid
import Vr4300.Proofs.TwoSum
import Vr4300.Proofs.Values
import Vr4300.Proofs.NearestRounding
import Vr4300.Proofs.Narrowing
import Vr4300.Proofs.SingleResult
import Vr4300.Proofs.Residuals
import Vr4300.Proofs.Remainders
import Vr4300.Proofs.SingleArithmetic
import Vr4300.Proofs.SingleOperations
import Vr4300.Proofs.Overrun
import Vr4300.Proofs.DoubleSums
import Vr4300.Proofs.DoubleProducts
import Vr4300.Proofs.DoubleOverflow
import Vr4300.Proofs.Accounting
import Vr4300.Proofs.DerivedState
import Vr4300.Proofs.Notes
import Vr4300.Proofs.CacheLine
import Vr4300.Proofs.Veil
import Vr4300.Proofs.Transfers
import Vr4300.Proofs.IdleLoop
import Vr4300.Proofs.Firings
import Vr4300.Proofs.SideBySide
import Vr4300.Proofs.FastForward
import Vr4300.Proofs.Lasting
import Vr4300.Proofs.ControlFlow
import Vr4300.Proofs.Resumption
import Vr4300.Proofs.TlbEntries
import Vr4300.Proofs.Refill
import Vr4300.Proofs.Translation
import Vr4300.Proofs.TlbRestore
import Vr4300.Proofs.MemoryBytes
import Vr4300.Proofs.Coherence
import Vr4300.Proofs.Dispatch
import Vr4300.Proofs.Recording
import Vr4300.Proofs.FloatDiscipline
import Vr4300.Proofs.Retracing
import Vr4300.Proofs.FastPath
import Vr4300.Proofs.Classification
import Vr4300.Proofs.Lanes
import Vr4300.Proofs.Unaligned
import Vr4300.Proofs.IntegralDoubles
import Vr4300.Proofs.IntegerConversions
import Vr4300.Proofs.Links
import Vr4300.Proofs.PairList
import Vr4300.Proofs.Undated
import Vr4300.Proofs.Splitting
import Vr4300.Proofs.Standstill
import Vr4300.Proofs.MultiplyDivide
import Vr4300.Proofs.BusRouting
import Vr4300.Proofs.OverflowTie
import Vr4300.Proofs.WiredEntries
