import MyDbg.Debugger.Signals
import MyDbg.Debugger.Int3
import MyDbg.Debugger.Transparency
import MyDbg.Debugger.Rewind
import MyDbg.Debugger.SyscallTable
import MyDbg.Debugger.Deletion
import MyDbg.Debugger.Parity
import MyDbg.Debugger.History
import MyDbg.Debugger.Hidden
import MyDbg.Debugger.AttachCommand
import MyDbg.Debugger.Patching
import MyDbg.Debugger.StepFailure
import MyDbg.Debugger.Termination
import MyDbg.Debugger.CallStepping
import MyDbg.Debugger.Finishing
import MyDbg.Debugger.Breaks
import MyDbg.Debugger.CommandTable
import MyDbg.Debugger.Disassembly
import MyDbg.Debugger.Examine
import MyDbg.Exceptions.Propagation
import MyDbg.Exceptions.Balance
import MyDbg.Infos.LineRows
import MyDbg.Infos.ReadLeb128
import MyDbg.Infos.LineAddress
import MyDbg.Infos.LineBounds
import MyDbg.Infos.AddressAdvance
import MyDbg.Infos.LinkMap
import MyDbg.Infos.LookupAgreement
import MyDbg.Infos.SymbolHash
import MyDbg.Infos.SectionSymbols
import MyDbg.Infos.OpenElf
import MyDbg.Infos.GrowingTables
import MyDbg.Infos.SourceLine
import MyDbg.Utils.MemString
import MyDbg.Debugger.Backtrace
import MyDbg.Debugger.Requests
import MyDbg.Debugger.BreakList
import MyDbg.Debugger.LaunchRuns
import MyDbg.Debugger.Progress
