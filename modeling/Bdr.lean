import Bdr.Support.Image
import Bdr.Support.Bytes
import Bdr.Support.Runs
import Bdr.Support.Pool
import Bdr.Support.Pipeline
import Bdr.Networking
import Bdr.Kern.RingBuffer
import Bdr.Kern.Slots
import Bdr.Kern.Overflow
import Bdr.Kern.Reservations
import Bdr.Kern.Target
import Bdr.Kern.Bio
import Bdr.Kern.Bitmap
import Bdr.Kern.Dropped
import Bdr.Kern.Construction
import Bdr.Kern.Chardev
import Bdr.Journal.Journal
import Bdr.Journal.Layout
import Bdr.Journal.Slots
import Bdr.Journal.Contents
import Bdr.Journal.Table
import Bdr.Server.Journal
import Bdr.Server.BoundedReset
import Bdr.Server.Reopen
import Bdr.Server.Replay
import Bdr.Server.Startup
import Bdr.Server.Redo
import Bdr.Server.HashDisk
import Bdr.Server.HashTiling
import Bdr.Server.Session
import Bdr.Server.Overflow
import Bdr.Server.Stability
import Bdr.Server.Writer
import Bdr.Server.Replicator
import Bdr.Server.Daemon
import Bdr.Server.Archive
import Bdr.Server.Retirement
import Bdr.Server.Exclusion
import Bdr.Client.Pause
import Bdr.Client.Waiter
import Bdr.Client.Window
import Bdr.Client.Packets
import Bdr.Client.Shared
import Bdr.Client.InitHashing
import Bdr.Client.InitReplication
import Bdr.Client.Client
import Bdr.Client.Ring
import Bdr.Client.Resync
import Bdr.Client.Commit
import Bdr.Client.Comparison
import Bdr.Client.Flow
import Bdr.Client.Replication
import Bdr.Client.Completion
import Bdr.System.Capacity
import Bdr.System.Formats
import Bdr.System.System
import Bdr.System.Recovery
import Bdr.System.CorrectBlocks
import Bdr.System.Consumers
import Bdr.System.Captured
import Bdr.System.Steady
import Bdr.System.Replication
import Bdr.Server.Collected
import Bdr.Client.Scan
import Bdr.Server.Owed
import Bdr.Server.Corrector
import Bdr.System.Exchange
import Bdr.System.Opening
import Bdr.System.FullScan
import Bdr.Client.Records
import Bdr.Server.Journaling
import Bdr.System.JournalScan
import Bdr.Server.HashReturns
import Bdr.Client.Returns
import Bdr.Server.PowerLoss
import Bdr.System.PowerLoss
import Bdr.Support.WaitQueue
import Bdr.Kern.Wakeup
import Bdr.System.Work
import Bdr.System.Responsive
import Bdr.System.HangUp
