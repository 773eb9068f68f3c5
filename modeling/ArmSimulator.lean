import ArmSimulator.Base.Traced
import ArmSimulator.Base.Word
import ArmSimulator.Base.Bytes
import ArmSimulator.Base.Hex
import ArmSimulator.Base.Lexer
import ArmSimulator.Base.Halting
import ArmSimulator.Base.Mutex
import ArmSimulator.Base.Machine
import ArmSimulator.Base.SortedTable
import ArmSimulator.Proof.Modes
import ArmSimulator.Proof.Isolation
import ArmSimulator.Proof.Endianness
import ArmSimulator.Proof.Interrupts
import ArmSimulator.Proof.Comparison
import ArmSimulator.Proof.BlockTransfer
import ArmSimulator.Proof.Results
import ArmSimulator.Proof.Alignment
import ArmSimulator.Proof.Calls
import ArmSimulator.Proof.Bytes
import ArmSimulator.Proof.Bounds
import ArmSimulator.Proof.Scanner
import ArmSimulator.Proof.Framing
import ArmSimulator.Proof.Retransmission
import ArmSimulator.Proof.Restore
import ArmSimulator.Proof.Flags
import ArmSimulator.Proof.Arithmetic
import ArmSimulator.Proof.Shifter
import ArmSimulator.Proof.Conditions
import ArmSimulator.Proof.BlockAddressing
import ArmSimulator.Proof.SingleTransfers
import ArmSimulator.Proof.SubwordLoads
import ArmSimulator.Proof.RegisterFile
import ArmSimulator.Proof.WordText
import ArmSimulator.Proof.MemoryDump
import ArmSimulator.Proof.Download
import ArmSimulator.Proof.SingleRegister
import ArmSimulator.Proof.Commands
import ArmSimulator.Proof.Crashes
import ArmSimulator.Proof.Continue
import ArmSimulator.Proof.Debug
import ArmSimulator.Proof.Footprint
import ArmSimulator.Proof.Locals
import ArmSimulator.Proof.Breakpoints
import ArmSimulator.Proof.Threads
import ArmSimulator.Proof.Dialogue
import ArmSimulator.Proof.Delivery
import ArmSimulator.Proof.Target
import ArmSimulator.Proof.Assembly
import ArmSimulator.Proof.Simulation
import ArmSimulator.Proof.Programs
import ArmSimulator.Proof.Debugger
import ArmSimulator.Proof.Conversation
import ArmSimulator.Proof.DebuggedPrograms
