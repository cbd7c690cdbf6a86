import SpottedCat.Http.DownloadRun
import SpottedCat.Http.UploadRun

/-!
# `DefaultHttpClient` (`default_http_client.rs:700-744`)

The executor of `run_group`: each call goes to the upload or to the download functions, as the task's
direction says. The file calls `fs` and `up` work on one world `W`, which may change in any way between two
calls.
-/

namespace SpottedCat

/-- What happens in one `prepare`: a change of the world before it, and the answer to a HEAD request. -/
structure PrepareCall (W : Type) where
  before : W → W
  head : Except String HeadResponse

/-- What happens in one `transfer_chunk`: a change of the world before it, and the answers to a ranged
GET. -/
structure TransferCall (W : Type) where
  before : W → W
  server : String → Except String RangeResponse

section
variable {W H : Type}

/-- The world has changed. -/
def Local.after (l : Local W H) (change : W → W) : Local W H := { l with world := change l.world }

def defaultHttpClient (fs : FileOps W H) (up : UploadOps W H) (build : Build)
    (decode : String → Except String DefaultUploadResp) (category : String) :
    TransferTrait (Local W H) (PrepareCall W) (TransferCall W) where
  prepare task localOffset call := fun l =>
    match task.direction with
    | .upload => uploadPrepare up decode category task localOffset (l.after call.before)
    | .download => downloadPrepare fs task call.head (l.after call.before)
  transferChunk task offset chunkSize remoteTotalSize call := fun l =>
    match task.direction with
    | .upload => uploadOneChunk up build decode category task offset chunkSize (l.after call.before)
    | .download =>
      downloadOneChunk fs build task call.server offset chunkSize remoteTotalSize (l.after call.before)

variable {fs : FileOps W H} {up : UploadOps W H} {build : Build}
  {decode : String → Except String DefaultUploadResp} {category : String} {task : InnerTask}
  {offset chunkSize knownTotal : Nat} {l : Local W H}

theorem transferChunk_download (h : task.direction = .download) (call : TransferCall W) :
    (defaultHttpClient fs up build decode category).transferChunk task offset chunkSize knownTotal call l =
      downloadOneChunk fs build task call.server offset chunkSize knownTotal (l.after call.before) := by
  simp only [defaultHttpClient, h]

theorem transferChunk_upload (h : task.direction = .upload) (call : TransferCall W) :
    (defaultHttpClient fs up build decode category).transferChunk task offset chunkSize knownTotal call l =
      uploadOneChunk up build decode category task offset chunkSize (l.after call.before) := by
  simp only [defaultHttpClient, h]

theorem prepare_download (h : task.direction = .download) (call : PrepareCall W) :
    (defaultHttpClient fs up build decode category).prepare task offset call l =
      downloadPrepare fs task call.head (l.after call.before) := by
  simp only [defaultHttpClient, h]

theorem prepare_upload (h : task.direction = .upload) (call : PrepareCall W) :
    (defaultHttpClient fs up build decode category).prepare task offset call l =
      uploadPrepare up decode category task offset (l.after call.before) := by
  simp only [defaultHttpClient, h]

end

/-! ## The executors of one direction -/

/-- Nothing is uploaded from a disk. -/
def Disk.offline : UploadOps Disk Unit where
  openRead d := (none, d)
  seek _ _ d := (none, d)
  readExact _ _ d := (none, d)
  send _ d := (.error "not connected", d)

/-- What is planned for the file calls of a call is a change of the world before it. -/
def planned (faults : List (Option Fault)) (d : Disk) : Disk := { d with faults := faults }

/-- `downloads` is this client on the immediate file system, for tasks that download. -/
theorem downloads_client (up : UploadOps Disk Unit) (build : Build)
    (decode : String → Except String DefaultUploadResp) (category : String) {task : InnerTask}
    (h : task.direction = .download) (offset chunkSize knownTotal : Nat) (faults : List (Option Fault))
    (server : String → Except String RangeResponse) :
    (downloads build).transferChunk task offset chunkSize knownTotal (faults, server) =
      (defaultHttpClient Disk.ops up build decode category).transferChunk task offset chunkSize knownTotal
        ⟨planned faults, server⟩ := by
  funext l
  rw [transferChunk_download h]
  rfl

/-- `uploads` is this client on a file that is read and a server that answers, for tasks that upload. -/
theorem uploads_client (fs : FileOps Uplink Unit) (build : Build)
    (decode : String → Except String DefaultUploadResp) (category : String) {task : InnerTask}
    (h : task.direction = .upload) (offset chunkSize knownTotal : Nat) (faults : List Bool)
    (server : String → Except String RangeResponse) :
    (uploads build decode category).transferChunk task offset chunkSize knownTotal faults =
      (defaultHttpClient fs Uplink.ops build decode category).transferChunk task offset chunkSize knownTotal
        ⟨fun w => { w with faults := faults }, server⟩ := by
  funext l
  rw [transferChunk_upload h]
  rfl

end SpottedCat
