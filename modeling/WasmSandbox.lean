import WasmSandbox.Trap
import WasmSandbox.Iteration
import WasmSandbox.Patch
import WasmSandbox.Word.Basic
import WasmSandbox.Word.Division
import WasmSandbox.Word.Rotation
import WasmSandbox.Word.BitCount
import WasmSandbox.Ieee.Basic
import WasmSandbox.Ieee.Sign
import WasmSandbox.Ieee.Extremum
import WasmSandbox.Ieee.Rounding
import WasmSandbox.Ieee.Sqrt
import WasmSandbox.Ieee.Truncation
import WasmSandbox.Memory.Config
import WasmSandbox.Memory.Basic
import WasmSandbox.Memory.Access
import WasmSandbox.Memory.Bulk
import WasmSandbox.Memory.Linear
import WasmSandbox.Memory.Segment
import WasmSandbox.Memory.Runs
import WasmSandbox.Memory.Script
import WasmSandbox.Function.Value
import WasmSandbox.Function.FuncType
import WasmSandbox.Function.Signature
import WasmSandbox.Function.Basic
import WasmSandbox.SlotStack
import WasmSandbox.TailCall.Basic
import WasmSandbox.TailCall.Trampoline
import WasmSandbox.Table.Basic
import WasmSandbox.Table.Func
import WasmSandbox.Table.Extern
import WasmSandbox.Table.Script
import WasmSandbox.CallDepth.Basic
import WasmSandbox.CallDepth.Script
import WasmSandbox.CallDepth.Tree
import WasmSandbox.Guest.Loop
import WasmSandbox.Guest.Catalogue
import WasmSandbox.Guest.Fibonacci
import WasmSandbox.Guest.Countdown
import WasmSandbox.Guest.Calculator
import WasmSandbox.Guest.Counters
import WasmSandbox.Guest.Scratchpad
import WasmSandbox.Guest.ReversedPad
import WasmSandbox.Guest.Sorting
import WasmSandbox.Guest.Histogram
import WasmSandbox.Proofs.Word.Fields
import WasmSandbox.Proofs.Word.BitCount
import WasmSandbox.Proofs.Word.Division
import WasmSandbox.Proofs.Word.Rotation
import WasmSandbox.Proofs.Ieee.Value
import WasmSandbox.Proofs.Ieee.Truncation
import WasmSandbox.Proofs.Ieee.Saturation
import WasmSandbox.Proofs.Ieee.Order
import WasmSandbox.Proofs.Ieee.Extremum
import WasmSandbox.Proofs.Ieee.RoundsTo
import WasmSandbox.Proofs.Ieee.Integral
import WasmSandbox.Proofs.Ieee.Rounding
import WasmSandbox.Proofs.Memory.Locate
import WasmSandbox.Proofs.Memory.Writes
import WasmSandbox.Proofs.Memory.Contents
import WasmSandbox.Proofs.Memory.Reference
import WasmSandbox.Proofs.Memory.Soundness
import WasmSandbox.Proofs.Memory.Policies
import WasmSandbox.Proofs.Memory.Paths
import WasmSandbox.Proofs.Memory.Invariant
import WasmSandbox.Proofs.Memory.Words
import WasmSandbox.Proofs.Memory.Bytes
import WasmSandbox.Proofs.Memory.Growth
import WasmSandbox.Proofs.Memory.Transfer
import WasmSandbox.Proofs.Memory.Layouts
import WasmSandbox.Proofs.Memory.Tested
import WasmSandbox.Proofs.Function.Encoding
import WasmSandbox.Proofs.TailCall.Direct
import WasmSandbox.Proofs.TailCall.Chain
import WasmSandbox.Proofs.Table.Slots
import WasmSandbox.Proofs.Table.Reference
import WasmSandbox.Proofs.Table.Runs
import WasmSandbox.Proofs.Table.Indirect
import WasmSandbox.Proofs.CallDepth.Balance
import WasmSandbox.Proofs.Guest.Fibonacci
import WasmSandbox.Proofs.Guest.Countdown
import WasmSandbox.Proofs.Guest.Counters
import WasmSandbox.Proofs.Guest.Sorting
import WasmSandbox.Proofs.Guest.Histogram
