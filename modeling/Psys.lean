import Psys.Ancestry
import Psys.Answers
import Psys.Attributes
import Psys.Commands
import Psys.Components
import Psys.Converse
import Psys.Directives
import Psys.Echo
import Psys.Enumeration
import Psys.Exclusion
import Psys.FileCalls
import Psys.Formats
import Psys.Grants
import Psys.Identifiers
import Psys.InSyscall
import Psys.InputBuffer
import Psys.KernelStacks
import Psys.Leaks
import Psys.Lifecycle
import Psys.Lines
import Psys.Lists
import Psys.Numerals
import Psys.Opening
import Psys.Paging
import Psys.Printing
import Psys.Priorities
import Psys.Privileges
import Psys.Readback
import Psys.Readers
import Psys.Reports
import Psys.RoundRobin
import Psys.SignalFrames
import Psys.Signalling
import Psys.Signals
import Psys.Slots
import Psys.Starting
import Psys.Stdout
import Psys.TableAccess
import Psys.Timer
import Psys.Typing
import Psys.UserPointers
import Psys.WaitingLists
