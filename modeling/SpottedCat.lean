import SpottedCat.Lib.Run
import SpottedCat.Data.Task
import SpottedCat.Sched.Emit
import SpottedCat.Sched.TryStartNext
import SpottedCat.Sched.Handlers
import SpottedCat.Sched.Loop
import SpottedCat.Sched.Invariant
import SpottedCat.Sched.Lifecycle
import SpottedCat.Sched.Footprint
import SpottedCat.Worker.RunGroup
import SpottedCat.Joint.System
import SpottedCat.Joint.Slots
import SpottedCat.Joint.Ownership
import SpottedCat.Joint.Offsets
import SpottedCat.Joint.Rising
import SpottedCat.Joint.RangeProtocol
import SpottedCat.Joint.Limits
import SpottedCat.Joint.PauseStatus
import SpottedCat.Http.ContentRange
import SpottedCat.Lib.Triple
import SpottedCat.Http.Download
import SpottedCat.Http.DownloadSpec
import SpottedCat.Http.DownloadRun
import SpottedCat.Http.Upload
import SpottedCat.Http.UploadSpec
import SpottedCat.Http.UploadRun
import SpottedCat.Lib.Admission
import SpottedCat.Sched.Refill
import SpottedCat.Sched.Fairness
import SpottedCat.Sched.Commute
import SpottedCat.Sched.Board
import SpottedCat.Sched.Isolation
import SpottedCat.Joint.Stops
import SpottedCat.Sched.Notices
import SpottedCat.Sched.Records
import SpottedCat.Joint.Progress
import SpottedCat.Http.DownloadWindow
import SpottedCat.Http.DownloadTiles
import SpottedCat.Client.Scheduler
import SpottedCat.Client.EnqueueClose
import SpottedCat.Client.Handles
import SpottedCat.Worker.Retry
import SpottedCat.Http.RangeGrammar
import SpottedCat.Http.Client
import SpottedCat.Http.Wire
import SpottedCat.Http.Transient
import SpottedCat.Worker.Moves
import SpottedCat.Worker.Paced
import SpottedCat.Http.WorkerEnds
import SpottedCat.Http.UploadTiles
import SpottedCat.Http.Deferred
import SpottedCat.Sched.Completion
import SpottedCat.Joint.Fleet
import SpottedCat.Joint.Downloads
import SpottedCat.Http.Depot
import SpottedCat.Joint.Uploads
import SpottedCat.Joint.Drain
import SpottedCat.Lib.Service
import SpottedCat.Client.Control
import SpottedCat.Lib.Observers
import SpottedCat.Client.Listeners
import SpottedCat.Lib.Reading
import SpottedCat.Data.Pounce
import SpottedCat.Client.Sign
import SpottedCat.Client.Accounts
import SpottedCat.Client.Pouncing
import SpottedCat.Lib.Crew
import SpottedCat.Joint.Process
import SpottedCat.Joint.Shutdown
import SpottedCat.Worker.Backoff
