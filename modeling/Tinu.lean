import Tinu.HookModel
import Tinu.Leakwatch
import Tinu.LeakModel
import Tinu.Registry
import Tinu.Runner
import Tinu.RunnerSpec
import Tinu.RunnerRuns
import Tinu.Verdicts
import Tinu.RunByName
import Tinu.Reregister
import Tinu.HookProtocol
import Tinu.StatTotals
import Tinu.EventStream
import Tinu.Transparency
import Tinu.Lib.Dict
import Tinu.Report
import Tinu.ReportRoundTrip
import Tinu.Backtraces
import Tinu.CxxLeakwatch
import Tinu.Diversion
import Tinu.MainRun
import Tinu.Metainfo
import Tinu.WatchCalls
import Tinu.Lib.Lines
import Tinu.ReportFraming
import Tinu.Backends
import Tinu.Lib.Transaction
import Tinu.Sqlite
import Tinu.SaveRuns
import Tinu.Registrations
import Tinu.CListRuns
import Tinu.Dispositions
import Tinu.CListLoops
import Tinu.CListFilter
import Tinu.Lib.Cells
import Tinu.MessageArray
import Tinu.Dwarf
import Tinu.DwarfLoad
import Tinu.CxxMessage
import Tinu.Lib.Blocks
import Tinu.MessageCapacity
import Tinu.MessageMemory
import Tinu.MessageCopy
import Tinu.Lib.Strtoul
import Tinu.Names
import Tinu.Options
import Tinu.Lib.Strstr
import Tinu.BacktraceFrames
import Tinu.CoreFiles
import Tinu.ReportTexts
import Tinu.StatMessages
import Tinu.LogMemory
import Tinu.ContextDestroy
import Tinu.Lib.Ansi
import Tinu.LogSinks
import Tinu.Lib.Printf
import Tinu.StatRecords
import Tinu.StandardReport
import Tinu.Lib.Ledger
import Tinu.DwarfResources
import Tinu.CxxTests
import Tinu.BacktraceDump
import Tinu.Lib.Joined
import Tinu.LeakwatchExit
import Tinu.Lib.CLexer
import Tinu.MetafileText
