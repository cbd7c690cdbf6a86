import SpottedCat.Http.Download

/-!
# Uploads (`default_http_client.rs:140-202`, `:288-382`, `http_breakpoint.rs:36-124`)

| here | there |
| --- | --- |
| `UploadForm`                 | the multipart forms of `DefaultStyleUpload` (:66, :74); numbers are sent in decimal |
| `UploadResumeInfo`           | http_breakpoint.rs:10 |
| `DefaultUploadResp`, `decode`| :57 and its derived `serde_json` decoder, a parameter |
| `parseUploadResponse`        | `parse_upload_response` (:94) |
| `UploadOps`                  | the world of an upload: the file that is read, and the server that answers a form |
| `uploadPrepare`              | `upload_prepare` (default_http_client.rs:140) |
| `uploadOneChunk`             | `upload_one_chunk` (:288) |

The MIME type of a chunk is a constant that `mime_str` accepts, so building a form does not fail.
-/

namespace SpottedCat

inductive UploadForm where
  | prepare (fileMd5 fileName category : String) (totalSize : Nat)
  | chunk (file : Bytes) (fileMd5 fileName category : String) (offset partSize totalSize : Nat)
deriving DecidableEq, Repr

structure UploadResponse where
  status : HttpStatus
  /-- `resp.text().await` -/
  body : Except String String
deriving DecidableEq

/-- http_breakpoint.rs:10 -/
structure UploadResumeInfo where
  completedFileId : Option String
  nextByte : Option Nat
deriving DecidableEq, Repr

/-- http_breakpoint.rs:57; `nextByte` is an `i64`. -/
structure DefaultUploadResp where
  fileId : Option String
  nextByte : Option ℤ
deriving DecidableEq, Repr

structure UploadOps (W H : Type) where
  /-- `File::open(path)` -/
  openRead : W → Option H × W
  seek : H → Nat → W → Option Unit × W
  /-- `read_exact` into a buffer of that length; a file that ends before is an error. -/
  readExact : H → Nat → W → Option Bytes × W
  /-- `send().await` -/
  send : UploadForm → W → Except String UploadResponse × W

/-- One request and its response. -/
def request {W H : Type} (up : UploadOps W H) (form : UploadForm) :
    Comp (Local W H) Failure UploadResponse := fun l =>
  let (reply, world) := up.send form l.world
  (mapReqwest reply, { l with world := world })

section
variable {W H : Type} (up : UploadOps W H) (build : Build)
  (decode : String → Except String DefaultUploadResp) (category : String) (task : InnerTask)

/-- http_breakpoint.rs:94 -/
def parseUploadResponse (body : String) : Ret UploadResumeInfo :=
  if trim body.toList = [] then .ok ⟨none, none⟩
  else
    match decode body with
    | .error e => failWith .responseParseError s!"upload response json: {e}, body: {body}"
    | .ok v => .ok ⟨v.fileId, v.nextByte.map fun n => if n < 0 then 0 else n.toNat⟩

/-- default_http_client.rs:161-175, :360-369: the body of a response with a good status. -/
def uploadInfo (resp : UploadResponse) (failure : String → Ret UploadResumeInfo) : Ret UploadResumeInfo := do
  let body ← mapReqwest resp.body
  if ¬ resp.status.isSuccess then failure body
  else parseUploadResponse decode body

/-- default_http_client.rs:140. `localOffset` is what the scheduler remembers. -/
def uploadPrepare (localOffset : Nat) : Comp (Local W H) Failure PrepareOutcome := do
  let resp ← request up (.prepare task.fileSign task.fileName category task.totalSize)
  let info ← Comp.lift (uploadInfo decode resp fun body =>
    failWith .responseStatusError s!"upload prepare HTTP {resp.status.text}: {body}")
  if info.completedFileId.isSome then return ⟨task.totalSize, task.totalSize⟩
  else
    let serverOff := info.nextByte.getD 0
    return ⟨min (max localOffset serverOff) task.totalSize, task.totalSize⟩

/-- default_http_client.rs:312-329 -/
def openSource : Comp (Local W H) Failure H := do
  let l ← Comp.get
  match l.slot with
  | some f => return f
  | none =>
    let opened ← fileCall up.openRead
      (.fromCode .ioError s!"open upload source failed: {task.filePath.display}")
    Comp.modify fun l => { l with slot := some opened }
    return opened

/-- default_http_client.rs:311-349 -/
def readSource (offset readLen : Nat) : Comp (Local W H) Failure Bytes := do
  let file ← openSource up task
  fileCall (up.seek file offset)
    (.fromCode .ioError s!"seek upload source failed: offset={offset} path={task.filePath.display}")
  fileCall (up.readExact file readLen)
    (.fromCode .ioError s!"read upload source failed: path={task.filePath.display}")

/-- default_http_client.rs:288. The `nextByte` of the response is not looked at. -/
def uploadOneChunk (offset chunkSize : Nat) : Comp (Local W H) Failure ChunkOutcome := do
  let total := task.totalSize
  if offset ≥ total then return ⟨offset, total, true⟩
  else
    let readLen := min chunkSize (total - offset)
    if readLen = 0 then return ⟨offset, total, true⟩
    else
      let buf ← readSource up task offset readLen
      let resp ← request up
        (.chunk buf task.fileSign task.fileName category offset buf.length task.totalSize)
      let info ← Comp.lift (uploadInfo decode resp fun body =>
        failWith .httpError s!"upload chunk HTTP {resp.status.text}: {body}")
      if info.completedFileId.isSome then return ⟨total, total, true⟩
      else
        let next ← Comp.lift (u64Add build offset buf.length)
        return ⟨next, total, decide (next ≥ total)⟩

end

/-- `read_exact` fills the buffer or fails. -/
def UploadOps.Filling {W H : Type} (up : UploadOps W H) : Prop :=
  ∀ f len w buf w', up.readExact f len w = (some buf, w') → buf.length = len

/-! ## The ways through one chunk -/

section
variable {W H : Type} {up : UploadOps W H} {build : Build} {decode : String → Except String DefaultUploadResp}
  {category : String} {task : InnerTask} {offset chunkSize : Nat} {l l' : Local W H} {outcome : ChunkOutcome}

/-- At the end of the file nothing is sent. -/
theorem uploadOneChunk_end (h : task.totalSize ≤ offset ∨ chunkSize = 0) :
    uploadOneChunk up build decode category task offset chunkSize l =
      (.ok ⟨offset, task.totalSize, true⟩, l) := by
  unfold uploadOneChunk
  by_cases hoffset : task.totalSize ≤ offset
  · simp only [if_pos hoffset]
    rfl
  · have hzero : min chunkSize (task.totalSize - offset) = 0 := by omega
    simp only [if_neg hoffset, if_pos hzero]
    rfl

theorem readSource_filled {readLen : Nat} {buf : Bytes} (hfill : up.Filling)
    (h : readSource up task offset readLen l = (.ok buf, l')) : buf.length = readLen := by
  unfold readSource at h
  obtain ⟨file, l1, -, h⟩ := Comp.bind_eq_ok.1 h
  obtain ⟨_, l2, -, hread⟩ := Comp.bind_eq_ok.1 h
  exact hfill file readLen l2.world buf l'.world (fileCall_eq_ok.1 hread).1

/-- **A chunk of an upload** that succeeds with something left to send. -/
theorem uploadOneChunk_ok (hfill : up.Filling) (hoffset : offset < task.totalSize) (hchunk : 1 ≤ chunkSize)
    (h : uploadOneChunk up build decode category task offset chunkSize l = (.ok outcome, l')) :
    outcome = ⟨task.totalSize, task.totalSize, true⟩ ∨
      ∃ next, u64Add build offset (min chunkSize (task.totalSize - offset)) = .ok next ∧
        outcome = ⟨next, task.totalSize, decide (next ≥ task.totalSize)⟩ := by
  have hpos : ¬ min chunkSize (task.totalSize - offset) = 0 := by omega
  unfold uploadOneChunk at h
  simp only [if_neg (Nat.not_le.2 hoffset), if_neg hpos] at h
  obtain ⟨buf, l1, hread, h⟩ := Comp.bind_eq_ok.1 h
  obtain ⟨resp, l2, -, h⟩ := Comp.bind_eq_ok.1 h
  obtain ⟨info, l3, -, h⟩ := Comp.bind_eq_ok.1 h
  split at h
  · cases h
    exact .inl rfl
  · obtain ⟨next, l4, hadded, h⟩ := Comp.bind_eq_ok.1 h
    obtain ⟨hnext, rfl⟩ := Comp.lift_eq_ok.1 hadded
    rw [readSource_filled hfill hread] at hnext
    cases h
    exact .inr ⟨next, hnext, rfl⟩

/-- The offset of an upload lies within its file, and is not behind the one it was given if that one does. -/
theorem uploadPrepare_ok {localOffset : Nat} {plan : PrepareOutcome}
    (h : uploadPrepare up decode category task localOffset l = (.ok plan, l')) :
    plan.totalSize = task.totalSize ∧ plan.nextOffset ≤ task.totalSize ∧
      (localOffset ≤ task.totalSize → localOffset ≤ plan.nextOffset) := by
  unfold uploadPrepare at h
  obtain ⟨resp, l1, -, h⟩ := Comp.bind_eq_ok.1 h
  obtain ⟨info, l2, -, h⟩ := Comp.bind_eq_ok.1 h
  split at h
  · cases h
    exact ⟨rfl, le_rfl, fun hle => hle⟩
  · cases h
    exact ⟨rfl, Nat.min_le_right _ _, fun hle => le_min (le_max_left _ _) hle⟩

end

/-! ## Responses with a `nextByte` -/

/-- A good response whose JSON carries this `nextByte` and no `fileId`. -/
def Carries (decode : String → Except String DefaultUploadResp) (resp : UploadResponse) (n : Nat) : Prop :=
  resp.status.isSuccess ∧ ∃ body, resp.body = .ok body ∧ trim body.toList ≠ [] ∧
    decode body = .ok ⟨none, some (n : ℤ)⟩

theorem uploadInfo_carries {decode : String → Except String DefaultUploadResp} {resp : UploadResponse}
    {n : Nat} (h : Carries decode resp n) (failure : String → Ret UploadResumeInfo) :
    uploadInfo decode resp failure = .ok ⟨none, some n⟩ := by
  obtain ⟨hstatus, body, hbody, hblank, hdecode⟩ := h
  have hparse : parseUploadResponse decode body = .ok ⟨none, some n⟩ := by
    rw [parseUploadResponse, if_neg hblank, hdecode]
    simp
  unfold uploadInfo
  rw [hbody]
  exact (if_neg (not_not.2 hstatus)).trans hparse

end SpottedCat
