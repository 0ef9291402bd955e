import Dpp.Lib.System
import Dpp.Lib.History
import Dpp.Lib.Fifo
import Dpp.Lib.Custody
import Dpp.Lib.Potential
import Dpp.Lib.Bytes
import Dpp.Lib.Lifo
import Dpp.Lib.Radix
import Dpp.Lib.Decimal
import Dpp.Lib.Split
import Dpp.Lib.Regex
import Dpp.Lib.Shell
import Dpp.Lib.Storage
import Dpp.Lib.Rows
import Dpp.Lib.Objects
import Dpp.Lib.Tally
import Dpp.Lib.Binary
import Dpp.Lib.Fraction
import Dpp.Lib.Unpacked
import Dpp.Deque.Iterator
import Dpp.Deque.Model
import Dpp.Deque.Layout
import Dpp.Deque.Grow
import Dpp.Deque.Ends
import Dpp.Deque.Insert
import Dpp.Deque.Life
import Dpp.Deque.Assign
import Dpp.Deque.Run
import Dpp.String.Model
import Dpp.String.Layout
import Dpp.String.Grow
import Dpp.String.Edit
import Dpp.String.Life
import Dpp.String.Insert
import Dpp.String.Replace
import Dpp.String.Run
import Dpp.SharedPtr.Model
import Dpp.SharedPtr.Safe
import Dpp.Lock.Guard
import Dpp.Lock.Shared
import Dpp.Lock.Spinlock
import Dpp.Scope.ScopeGuard
import Dpp.Timer.ExTimer
import Dpp.Timer.DpcTimer
import Dpp.Timer.Period
import Dpp.Timer.PerformanceCounter
import Dpp.Thread.Model
import Dpp.Thread.Start
import Dpp.Thread.Steps
import Dpp.Thread.Single
import Dpp.Thread.SelfWait
import Dpp.Thread.Join
import Dpp.Thread.References
import Dpp.WorkQueue.Queue
import Dpp.WorkQueue.Run
import Dpp.WorkQueue.Delivery
import Dpp.WorkQueue.WakeUp
import Dpp.WorkQueue.Drain
import Dpp.WorkQueue.Spin
import Dpp.WorkQueue.Life
import Dpp.WorkQueue.Stopped
import Dpp.WorkQueue.Restart
import Dpp.WorkQueue.FailedStart
import Dpp.WorkQueue.Once
import Dpp.WorkQueue.Deques
import Dpp.Malloc.Model
import Dpp.Malloc.Blocks
import Dpp.Malloc.Steps
import Dpp.Malloc.Sizes
import Dpp.Malloc.Realloc
import Dpp.Malloc.Aligned
import Dpp.Driver.Model
import Dpp.Driver.Wrappers
import Dpp.Driver.ExitList
import Dpp.Driver.ExitFunctions
import Dpp.Driver.Pairing
import Dpp.Driver.LiveNodes
import Dpp.Driver.Ctors
import Dpp.SkCrypter
import Dpp.Ceilf
import Dpp.CTypes
import Dpp.Text.Hex
import Dpp.Text.FormatSpec
import Dpp.Text.Digits
import Dpp.Text.Convert
import Dpp.Text.Decimals
import Dpp.Text.Buffer
import Dpp.Text.Width
import Dpp.Text.Printf
import Dpp.Text.ToString
import Dpp.Text.ToStringAny
import Dpp.Text.ToStringFloat
import Dpp.Text.Format
import Dpp.String.Texts
import Dpp.Wrapper.Line
import Dpp.Wrapper.File
import Dpp.Wrapper.Prototype
import Dpp.Wrapper.Name
import Dpp.Wrapper.Arguments
import Dpp.Wrapper.Clear
