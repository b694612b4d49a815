import WebUiBoot.Executor.Wakeups
import WebUiBoot.Executor.Delivery
import WebUiBoot.Executor.Fairness
import WebUiBoot.Futures.Timers
import WebUiBoot.Boot.Bootnext
import WebUiBoot.Boot.Pop
import WebUiBoot.Boot.AllOrNothing
import WebUiBoot.Boot.AtMostOnce
import WebUiBoot.Boot.Fifo
import WebUiBoot.Boot.Entry
import WebUiBoot.Boot.LinuxDirect
import WebUiBoot.Net.Loop
import WebUiBoot.Net.Pending
import WebUiBoot.Net.Wedge
import WebUiBoot.Net.Segmentation
import WebUiBoot.Lib.Slice
import WebUiBoot.Log.Logger
import WebUiBoot.Log.Boundary
import WebUiBoot.Log.Visible
import WebUiBoot.Log.Newest
import WebUiBoot.Executor.World
import WebUiBoot.Futures.Release
import WebUiBoot.Net.Transmit
import WebUiBoot.Ui.Keys
import WebUiBoot.Ui.Draw
import WebUiBoot.Boot.Os
import WebUiBoot.Boot.Images
import WebUiBoot.Lib.Words
import WebUiBoot.Boot.EntryLines
import WebUiBoot.Boot.EntryValues
import WebUiBoot.Boot.LoadOptions
import WebUiBoot.Boot.Attempts
import WebUiBoot.Net.Finished
import WebUiBoot.Net.Lease
import WebUiBoot.Ui.Modes
import WebUiBoot.Web.Request
import WebUiBoot.Lib.Framing
import WebUiBoot.Boot.Rewrite
import WebUiBoot.Lib.Overlay
import WebUiBoot.Web.Response
import WebUiBoot.Lib.Rounding
import WebUiBoot.Ui.Blend
import WebUiBoot.Ui.Cursor
import WebUiBoot.Executor.Representation
import WebUiBoot.Ui.Clock
import WebUiBoot.Executor.Scheduler
import WebUiBoot.Executor.Refinement
import WebUiBoot.Executor.Polls
import WebUiBoot.Program.Tasks
import WebUiBoot.Program.Running
import WebUiBoot.Program.Attempts
import WebUiBoot.Program.Images
import WebUiBoot.Program.Timers
import WebUiBoot.Lib.Significand
import WebUiBoot.Ui.Input
import WebUiBoot.Ui.Pointer
import WebUiBoot.Net.Connection
import WebUiBoot.Boot.Usage
import WebUiBoot.Boot.Disk
import WebUiBoot.Program.Disks
import WebUiBoot.Ui.Frames
import WebUiBoot.Program.Deadline
