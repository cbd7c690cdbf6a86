import SpottedCat.Data.Task

/-!
# What a caller asks for (`pounce_task.rs`, `up_pounce_builder.rs`, `down_pounce_builder.rs`)

| here | there |
| --- | --- |
| `PounceTask`            | `PounceTask` (pounce_task.rs:12); method, headers and the three breakpoint fields are left out, as in `InnerTask` |
| `UploadPounceBuilder`   | `up_pounce_builder.rs:10` |
| `DownloadPounceBuilder` | `down_pounce_builder.rs:9` |
| `PounceTask.inner`      | what `InnerTask::from_pounce` hands on (inner_task.rs:128) |

The fields of the three are private to the crate, and nothing but the builders makes a `PounceTask`. So what every
built value has is a field here: a chunk size that is not 0 (`normalized_chunk_size`), and no total for a download.
-/

namespace SpottedCat

/-- An `io::Error`: whether its kind is `NotFound`, and its text. -/
structure IoError where
  notFound : Bool
  text : String
deriving DecidableEq, Repr

structure PounceTask where
  direction : Direction
  fileName : String
  filePath : PathBuf
  totalSize : Nat
  chunkSize : Nat
  url : String
  clientFileSign : Option String
  maxChunkRetries : Nat
  chunkSize_pos : 0 < chunkSize
  total_download : direction = .download → totalSize = 0
deriving DecidableEq

namespace PounceTask

/-- pounce_task.rs:65 -/
def defaultMaxChunkRetries : Nat := 3

/-- pounce_task.rs:67 -/
def normalizedChunkSize (chunkSize : Nat) : Nat := if chunkSize = 0 then 1024 * 1024 else chunkSize

/-- pounce_task.rs:78; 0 is one attempt. -/
def normalizedMaxChunkRetries (maxChunkRetries : Nat) : Nat := maxChunkRetries

theorem normalizedChunkSize_pos (chunkSize : Nat) : 0 < normalizedChunkSize chunkSize := by
  unfold normalizedChunkSize
  split <;> omega

/-- pounce_task.rs:82; a path is empty when its `display()` is. -/
def isEmpty (pounce : PounceTask) : Bool :=
  pounce.filePath.display == "" || pounce.fileName == "" || pounce.url == "" ||
    match pounce.direction with
    | .upload => pounce.totalSize == 0
    | .download => false

/-- inner_task.rs:128-144 -/
def inner (pounce : PounceTask) (taskId : TaskId) (fileSign : String) : InnerTask where
  taskId := taskId
  fileSign := fileSign
  fileName := pounce.fileName
  filePath := pounce.filePath
  direction := pounce.direction
  totalSize := pounce.totalSize
  chunkSize := pounce.chunkSize
  url := pounce.url
  maxChunkRetries := pounce.maxChunkRetries

end PounceTask

structure UploadPounceBuilder where
  fileName : String
  filePath : PathBuf
  chunkSize : Nat
  url : String
  maxChunkRetries : Nat
  chunkSize_pos : 0 < chunkSize
deriving DecidableEq

namespace UploadPounceBuilder

/-- up_pounce_builder.rs:24 -/
def new (fileName : String) (filePath : PathBuf) (chunkSize : Nat) : UploadPounceBuilder where
  fileName := fileName
  filePath := filePath
  chunkSize := PounceTask.normalizedChunkSize chunkSize
  url := ""
  maxChunkRetries := PounceTask.defaultMaxChunkRetries
  chunkSize_pos := PounceTask.normalizedChunkSize_pos chunkSize

/-- up_pounce_builder.rs:37 -/
def withUrl (builder : UploadPounceBuilder) (url : String) : UploadPounceBuilder :=
  { builder with url := url }

/-- up_pounce_builder.rs:42 -/
def withFilePath (builder : UploadPounceBuilder) (path : PathBuf) : UploadPounceBuilder :=
  { builder with filePath := path }

/-- up_pounce_builder.rs:66 -/
def withMaxChunkRetries (builder : UploadPounceBuilder) (retries : Nat) : UploadPounceBuilder :=
  { builder with maxChunkRetries := PounceTask.normalizedMaxChunkRetries retries }

/-- up_pounce_builder.rs:72; `metadata` is the length that `std::fs::metadata` finds. -/
def build (builder : UploadPounceBuilder) (metadata : PathBuf → Except IoError Nat) :
    Except IoError PounceTask := do
  let totalSize ← metadata builder.filePath
  return {
    direction := .upload
    fileName := builder.fileName
    filePath := builder.filePath
    totalSize := totalSize
    chunkSize := builder.chunkSize
    url := builder.url
    clientFileSign := none
    maxChunkRetries := builder.maxChunkRetries
    chunkSize_pos := builder.chunkSize_pos
    total_download := fun h => by cases h }

end UploadPounceBuilder

structure DownloadPounceBuilder where
  fileName : String
  filePath : PathBuf
  chunkSize : Nat
  url : String
  clientFileSign : Option String
  maxChunkRetries : Nat
  chunkSize_pos : 0 < chunkSize
deriving DecidableEq

namespace DownloadPounceBuilder

/-- down_pounce_builder.rs:25 -/
def new (fileName : String) (filePath : PathBuf) (chunkSize : Nat) (url : String) : DownloadPounceBuilder where
  fileName := fileName
  filePath := filePath
  chunkSize := PounceTask.normalizedChunkSize chunkSize
  url := url
  clientFileSign := none
  maxChunkRetries := PounceTask.defaultMaxChunkRetries
  chunkSize_pos := PounceTask.normalizedChunkSize_pos chunkSize

/-- down_pounce_builder.rs:46 -/
def withUrl (builder : DownloadPounceBuilder) (url : String) : DownloadPounceBuilder :=
  { builder with url := url }

/-- down_pounce_builder.rs:51 -/
def withFilePath (builder : DownloadPounceBuilder) (path : PathBuf) : DownloadPounceBuilder :=
  { builder with filePath := path }

/-- down_pounce_builder.rs:66 -/
def withClientFileSign (builder : DownloadPounceBuilder) (sign : String) : DownloadPounceBuilder :=
  { builder with clientFileSign := some sign }

/-- down_pounce_builder.rs:85 -/
def withMaxChunkRetries (builder : DownloadPounceBuilder) (retries : Nat) : DownloadPounceBuilder :=
  { builder with maxChunkRetries := PounceTask.normalizedMaxChunkRetries retries }

/-- down_pounce_builder.rs:90 -/
def build (builder : DownloadPounceBuilder) : PounceTask where
  direction := .download
  fileName := builder.fileName
  filePath := builder.filePath
  totalSize := 0
  chunkSize := builder.chunkSize
  url := builder.url
  clientFileSign := builder.clientFileSign
  maxChunkRetries := builder.maxChunkRetries
  chunkSize_pos := builder.chunkSize_pos
  total_download := fun _ => rfl

end DownloadPounceBuilder

/-- What `enqueue` lets through. -/
structure InnerTask.WellMade (inner : InnerTask) : Prop where
  path : inner.filePath.display ≠ ""
  name : inner.fileName ≠ ""
  url : inner.url ≠ ""
  chunk : 0 < inner.chunkSize
  total : 0 < inner.totalSize ↔ inner.direction = .upload

/-- **A task that is not empty** is well made, whatever its id and sign. -/
theorem PounceTask.inner_wellMade {pounce : PounceTask} (h : pounce.isEmpty = false) (taskId : TaskId)
    (fileSign : String) : (pounce.inner taskId fileSign).WellMade := by
  simp only [isEmpty, Bool.or_eq_false_iff, beq_eq_false_iff_ne] at h
  obtain ⟨⟨⟨hpath, hname⟩, hurl⟩, htotal⟩ := h
  refine ⟨hpath, hname, hurl, pounce.chunkSize_pos, ?_⟩
  simp only [inner]
  cases hd : pounce.direction with
  | upload =>
    rw [hd] at htotal
    simp only [beq_eq_false_iff_ne] at htotal
    exact ⟨fun _ => rfl, fun _ => Nat.pos_of_ne_zero htotal⟩
  | download =>
    constructor
    · intro hpos
      have hzero := pounce.total_download hd
      omega
    · intro h
      cases h

end SpottedCat
