import LomiriApi.Basic
import LomiriApi.Lib.Run
import LomiriApi.Lib.Simulation
import LomiriApi.Lib.Prog
import LomiriApi.Lib.Locks
import LomiriApi.Lib.Linearize
import LomiriApi.Lib.Sequential
import LomiriApi.Lib.Completion
import LomiriApi.Lib.Callbacks
import LomiriApi.Lib.Layers
import LomiriApi.Lib.Balance
import LomiriApi.Lib.Ledger
import LomiriApi.Lib.Lines
import LomiriApi.Lib.Outline
import LomiriApi.Lib.Acyclic
import LomiriApi.Lib.Slots
import LomiriApi.ResourcePtr.Conservation
import LomiriApi.ResourcePtr.Order
import LomiriApi.ResourcePtr.Transfer
import LomiriApi.ResourcePtr.Safety
import LomiriApi.ResourcePtr.Deleters
import LomiriApi.ResourcePtr.Custody
import LomiriApi.ResourcePtr.Threads
import LomiriApi.ResourcePtr.ThreadSafety
import LomiriApi.ResourcePtr.ThreadWorld
import LomiriApi.ResourcePtr.Nested
import LomiriApi.Exception.Escape
import LomiriApi.Exception.Indent
import LomiriApi.Exception.Colon
import LomiriApi.Exception.Loops
import LomiriApi.Exception.Report
import LomiriApi.Exception.Remember
import LomiriApi.IniParser.Sync
import LomiriApi.IniParser.Setters
import LomiriApi.IniParser.Store
import LomiriApi.IniParser.Locale
import LomiriApi.IniParser.Reads
import LomiriApi.IniParser.Threads
import LomiriApi.IniParser.ThreadSafety
import LomiriApi.GObject.Ownership
import LomiriApi.GObject.Signals
import LomiriApi.GObject.SignalCounts
import LomiriApi.GObject.CountingSignals
import LomiriApi.GObject.SignalSafety
import LomiriApi.Glib.Assigner
import LomiriApi.Glib.Sources
import LomiriApi.Daemon.Delivery
import LomiriApi.Daemon.Guarantee
import LomiriApi.Daemon.CloseFiles
import LomiriApi.Daemon.Program
import LomiriApi.Lib.PrefixCode
import LomiriApi.Dbus.Sanitize
import LomiriApi.Dbus.Path
import LomiriApi.Dbus.Tree
import LomiriApi.FileIO.WholeFile
