import SpottedCat.Data.Task
import SpottedCat.Http.ContentRange
import SpottedCat.Http.FileOps
import SpottedCat.Worker.RunGroup

/-!
# Downloads (`default_http_client.rs:204-286`, `:461-693`)

| here | there |
| --- | --- |
| `HttpStatus`, `HeadResponse`, `RangeResponse` | what is read off a `reqwest::Response`; the `Range` header is all that varies in a request |
| `totalSizeFromHead`  | `BreakpointDownload::total_size_from_head` (http_breakpoint.rs:189) |
| `downloadPrepare`    | `download_prepare` (:204) |
| `fetchChunk`         | `download_one_chunk` up to the body checks (:483-586) |
| `openSlot`, `storeChunk` | its file operations (:588-675) |
| `downloadOneChunk`   | `download_one_chunk` (:461) |

`TransferTask` is a copy of the fields of `InnerTask` (transfer_task.rs:61) beside the slots.
-/

namespace SpottedCat

structure HttpStatus where
  code : Nat
  /-- Its `Display`, such as `206 Partial Content`. -/
  text : String
deriving DecidableEq, Repr

def HttpStatus.isSuccess (status : HttpStatus) : Bool := 200 ≤ status.code && status.code < 300

structure HeadResponse where
  status : HttpStatus
  /-- `None` as well if the value is not visible ASCII. -/
  contentLength : Option String
deriving DecidableEq, Repr

structure RangeResponse where
  status : HttpStatus
  contentRange : Option String
  /-- `resp.text().await.unwrap_or_default()` -/
  text : String
  /-- `resp.bytes().await` -/
  body : Except String Bytes
deriving DecidableEq

/-- default_http_client.rs:695: a `reqwest::Error` with its text. -/
def mapReqwest {α : Type*} : Except String α → Ret α
  | .ok a => .ok a
  | .error e => failWith .httpError e

/-- http_breakpoint.rs:189 -/
def totalSizeFromHead (contentLength : Option String) : Ret Nat :=
  match contentLength.bind fun s => parseU64 s.toList with
  | some n =>
    if n > 0 then .ok n
    else failWith .missingOrInvalidContentLengthFromHead "missing or invalid content-length from HEAD"
  | none =>
    failWith .missingOrInvalidContentLengthFromHead "missing or invalid content-length from HEAD"

section
variable {W H : Type} (fs : FileOps W H) (build : Build) (task : InnerTask)

/-- default_http_client.rs:216-229 -/
def localLen : Comp (Local W H) Failure Nat := fun l =>
  match fs.metadata l.world with
  | (.len n, world) => (.ok n, { l with world := world })
  | (.notFound, world) => (.ok 0, { l with world := world })
  | (.failed, world) =>
    (failWith .ioError s!"download_prepare stat failed: {task.filePath.display}", { l with world := world })

/-- default_http_client.rs:232-285, after the local length is known. -/
def planResume (start : Nat) (head : Except String HeadResponse) : Ret PrepareOutcome := do
  let headResp ← mapReqwest head
  if ¬ headResp.status.isSuccess then
    failWith .responseStatusError s!"download_prepare HEAD failed: {headResp.status.text}"
  else
    let total ← totalSizeFromHead headResp.contentLength
    if start > total then failWith .invalidRange "local file larger than remote content-length"
    else if start ≥ total then return ⟨total, total⟩
    else return ⟨start, total⟩

/-- default_http_client.rs:204. The offset the scheduler remembers is not looked at. -/
def downloadPrepare (head : Except String HeadResponse) : Comp (Local W H) Failure PrepareOutcome := do
  let start ← localLen fs task
  Comp.lift (planResume start head)

/-- The body of a response that passes every check. -/
def acceptBody (offset total : Nat) (resp : RangeResponse) : Ret Bytes := do
  if resp.status.code ≠ 206 then
    invalidRange s!"download GET requires 206 Partial Content, got {resp.status.text}: {resp.text}"
  else
    let contentRange ← orElse resp.contentRange
      (invalidRange "download response missing content-range for ranged GET")
    let (rangeStart, rangeEnd, rangeTotal) ← parseContentRange contentRange
    if rangeStart ≠ offset then
      invalidRange s!"download content-range start mismatch: expected {offset}, got {rangeStart}"
    else if rangeTotal ≠ none ∧ rangeTotal ≠ some total then
      invalidRange
        s!"download total size changed: HEAD={total}, Content-Range={rangeTotal.getD 0}"
    else
      let data ← mapReqwest resp.body
      if data = [] then invalidRange "download chunk empty body"
      else
        let expectedLen ← u64Add build (rangeEnd - rangeStart) 1
        if data.length ≠ expectedLen then
          invalidRange s!"download body length mismatch: expected {expectedLen}, got {data.length}"
        else return data

/-- One ranged GET; `server` answers a `Range` header. -/
def fetchChunk (server : String → Except String RangeResponse) (offset chunkSize total : Nat) :
    Ret Bytes := do
  let spec ← rangeSpec build offset chunkSize total
  let resp ← mapReqwest (server spec)
  acceptBody build offset total resp

/-- default_http_client.rs:588-599 -/
def createParent (offset : Nat) : Comp (Local W H) Failure Unit :=
  match task.filePath.parent with
  | some parent =>
    if offset = 0 ∧ parent ≠ "" then
      fileCall (fs.createDirAll parent)
        (.fromCode .ioError s!"create download parent dir failed: {parent}")
    else pure ()
  | none => pure ()

/-- default_http_client.rs:601-653. The slot is full afterwards, so the error of :654 cannot occur. -/
def openSlot (offset : Nat) : Comp (Local W H) Failure H := do
  if offset = 0 then
    let created ← fileCall fs.createTruncate
      (.fromCode .ioError s!"create download file failed: {task.filePath.display}")
    Comp.modify fun l => { l with slot := some created }
    return created
  else
    let l ← Comp.get
    match l.slot with
    | some f => return f
    | none =>
      let opened ← fileCall fs.openWrite
        (.fromCode .ioError s!"open download file failed: {task.filePath.display}")
      let localLen ← fileCall (fs.fileLen opened)
        (.fromCode .ioError s!"read download metadata failed: {task.filePath.display}")
      if localLen ≠ offset then
        Comp.lift (invalidRange s!"local file size mismatch: expected {offset}, got {localLen}")
      else
        Comp.modify fun l => { l with slot := some opened }
        return opened

def storeChunk (offset : Nat) (data : Bytes) : Comp (Local W H) Failure Unit := do
  createParent fs task offset
  let f ← openSlot fs task offset
  fileCall (fs.seek f offset)
    (.fromCode .ioError s!"seek download file failed: offset={offset} path={task.filePath.display}")
  fileCall (fs.writeAll f data)
    (.fromCode .ioError s!"write download file failed: path={task.filePath.display}")

/-- default_http_client.rs:461 -/
def downloadOneChunk (server : String → Except String RangeResponse)
    (offset chunkSize remoteTotalSize : Nat) : Comp (Local W H) Failure ChunkOutcome := do
  let total := remoteTotalSize
  if offset ≥ total then return ⟨offset, total, true⟩
  else
    let data ← Comp.lift (fetchChunk build server offset chunkSize total)
    storeChunk fs task offset data
    let next ← Comp.lift (u64Add build offset data.length)
    return ⟨next, total, decide (next ≥ total)⟩

end

/-! ## The ways through one chunk -/

section
variable {W H : Type} {fs : FileOps W H} {build : Build} {task : InnerTask}
  {server : String → Except String RangeResponse} {offset chunkSize total : Nat} {l l' : Local W H}

theorem downloadOneChunk_end (hoffset : total ≤ offset) :
    downloadOneChunk fs build task server offset chunkSize total l = (.ok ⟨offset, total, true⟩, l) := by
  unfold downloadOneChunk
  simp only [if_pos hoffset]
  rfl

/-- An answer that is turned down leaves everything as it was. -/
theorem downloadOneChunk_refused {e : Failure} (hoffset : offset < total)
    (h : fetchChunk build server offset chunkSize total = .error e) :
    downloadOneChunk fs build task server offset chunkSize total l = (.error e, l) := by
  unfold downloadOneChunk
  simp only [if_neg (Nat.not_le.2 hoffset)]
  simp only [bind, Comp.bind, Comp.lift, h]

/-- A chunk that succeeds has stored what it fetched. -/
theorem downloadOneChunk_ok {outcome : ChunkOutcome} (hoffset : offset < total)
    (h : downloadOneChunk fs build task server offset chunkSize total l = (.ok outcome, l')) :
    ∃ data next, fetchChunk build server offset chunkSize total = .ok data ∧
      storeChunk fs task offset data l = (.ok (), l') ∧ u64Add build offset data.length = .ok next ∧
        outcome = ⟨next, total, decide (next ≥ total)⟩ := by
  unfold downloadOneChunk at h
  simp only [if_neg (Nat.not_le.2 hoffset)] at h
  obtain ⟨data, l1, hfetched, h⟩ := Comp.bind_eq_ok.1 h
  obtain ⟨hfetch, rfl⟩ := Comp.lift_eq_ok.1 hfetched
  obtain ⟨_, l2, hstore, h⟩ := Comp.bind_eq_ok.1 h
  obtain ⟨next, l3, hadded, h⟩ := Comp.bind_eq_ok.1 h
  obtain ⟨hnext, rfl⟩ := Comp.lift_eq_ok.1 hadded
  cases h
  exact ⟨data, next, hfetch, hstore, hnext, rfl⟩

end

end SpottedCat
