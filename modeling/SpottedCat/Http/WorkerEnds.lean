import SpottedCat.Http.DownloadTiles
import SpottedCat.Http.Wire
import SpottedCat.Worker.Paced

/-!
# Runs over `DefaultHttpClient` (`exec.rs:93-264`, `default_http_client.rs:288-383`, `:461-693`)

Both directions get ahead: a download by a body that is not empty, an upload by a chunk that is not. Their next
offset is a sum in `u64`; what keeps it from wrapping around are limits outside the program: no buffer is longer
than `isize::MAX`, no file position lies beyond `i64::MAX`, and `read_exact` fills its buffer. Servers and file
calls may do whatever they like otherwise, and the world may change between two calls.
-/

namespace SpottedCat

/-- `i64::MAX`, and `isize::MAX`. -/
def i64Max : Nat := 2 ^ 63 - 1

/-- Positions are signed: a seek beyond `i64::MAX` fails. -/
def FileOps.Signed {W H : Type} (fs : FileOps W H) : Prop :=
  ∀ f pos w w', fs.seek f pos w = (some (), w') → pos ≤ i64Max

/-- A body that has been received is in memory. -/
def TransferCall.InMemory {W : Type} (call : TransferCall W) : Prop :=
  ∀ spec resp data, call.server spec = .ok resp → resp.body = .ok data → data.length ≤ i64Max

def InMemoryAct {A W : Type} : DriveAct A (TransferCall W) → Prop
  | .chunk call => call.InMemory
  | _ => True

section
variable {W H : Type} {fs : FileOps W H} {up : UploadOps W H} {build : Build}
  {decode : String → Except String DefaultUploadResp} {category : String} {task : InnerTask}
  {offset chunkSize total : Nat} {server : String → Except String RangeResponse} {l l' : Local W H}
  {outcome : ChunkOutcome}

/-! ## Downloads -/

theorem fetchChunk_received {data : Bytes} (h : fetchChunk build server offset chunkSize total = .ok data) :
    data ≠ [] ∧ ∃ spec resp, server spec = .ok resp ∧ resp.body = .ok data := by
  unfold fetchChunk at h
  obtain ⟨spec, -, h⟩ := Except.bind_eq_ok.1 h
  obtain ⟨resp, hresp, h⟩ := Except.bind_eq_ok.1 h
  obtain ⟨last, hoffered, -⟩ := acceptBody_ok h
  exact ⟨hoffered.nonempty, spec, resp, mapReqwest_ok hresp, hoffered.body⟩

/-- A chunk that is stored was written at its offset. -/
theorem storeChunk_seeks {data : Bytes} (h : storeChunk fs task offset data l = (.ok (), l')) :
    ∃ f w w', fs.seek f offset w = (some (), w') := by
  unfold storeChunk at h
  obtain ⟨_, l1, -, h⟩ := Comp.bind_eq_ok.1 h
  obtain ⟨f, l2, -, h⟩ := Comp.bind_eq_ok.1 h
  obtain ⟨_, l3, hseek, -⟩ := Comp.bind_eq_ok.1 h
  exact ⟨f, l2.world, l3.world, (fileCall_eq_ok.1 hseek).1⟩

theorem planResume_le {start : Nat} {head : Except String HeadResponse} {plan : PrepareOutcome}
    (h : planResume start head = .ok plan) :
    plan.nextOffset ≤ plan.totalSize ∧ 0 < plan.totalSize ∧ plan.totalSize < u64Max := by
  obtain ⟨resp, total, rfl, hstatus, htotal, rfl⟩ := planResume_ok h
  obtain ⟨hpos, hlt⟩ := totalSizeFromHead_ok htotal
  refine ⟨?_, hpos, hlt⟩
  by_contra hlarge
  simp only [planResume, mapReqwest, bind, Except.bind, htotal] at h
  rw [if_neg (not_not.2 hstatus), if_pos (by simpa using hlarge)] at h
  cases h

/-- **Downloads get ahead.** -/
theorem download_paces (hdown : task.direction = .download) (hsigned : fs.Signed) (startOffset : Nat) :
    Paces (defaultHttpClient fs up build decode category) InMemoryAct (fun T => T < u64Max) task startOffset where
  prepare call l plan l' h := by
    rw [prepare_download hdown] at h
    unfold downloadPrepare at h
    obtain ⟨start, l1, -, h⟩ := Comp.bind_eq_ok.1 h
    obtain ⟨hle, hpos, hlt⟩ := planResume_le (Comp.lift_eq_ok.1 h).1
    rw [runTotal, if_pos hpos]
    exact ⟨hlt, hle⟩
  chunk call l offset T outcome l' hcall hT hle h := by
    rw [transferChunk_download hdown] at h
    by_cases hoffset : offset < T
    · obtain ⟨data, next, hfetch, hstore, hnext, rfl⟩ := downloadOneChunk_ok hoffset h
      obtain ⟨hne, spec, resp, hresp, hbody⟩ := fetchChunk_received hfetch
      obtain ⟨f, w, w', hseek⟩ := storeChunk_seeks hstore
      have hlen := hcall spec resp data hresp hbody
      have hpos := hsigned f offset w w' hseek
      have hsum : offset + data.length < u64Max := by
        have hbound : i64Max + i64Max < u64Max := by decide
        omega
      rw [u64Add_of_lt hsum] at hnext
      cases hnext
      have hdata : 0 < data.length := List.length_pos_iff.2 hne
      refine ⟨rfl, rfl, fun _ => ?_, fun heq => absurd hoffset (by omega)⟩
      show offset < offset + data.length
      omega
    · obtain rfl : offset = T := Nat.le_antisymm hle (Nat.not_lt.1 hoffset)
      rw [downloadOneChunk_end le_rfl] at h
      cases h
      exact ⟨rfl, (decide_eq_true le_rfl).symm, fun hlt => absurd hlt hoffset, fun _ => rfl⟩

/-! ## Uploads -/

/-- **Uploads get ahead.** -/
theorem upload_paces (hup : task.direction = .upload) (hfill : up.Filling) (htotal : task.totalSize < u64Max)
    (hchunk : 1 ≤ task.chunkSize) (startOffset : Nat) :
    Paces (defaultHttpClient fs up build decode category) InMemoryAct (fun T => T = task.totalSize) task
      startOffset where
  prepare call l plan l' h := by
    rw [prepare_upload hup] at h
    obtain ⟨hsize, hle, -⟩ := uploadPrepare_ok h
    have hrun : runTotal task plan = task.totalSize := by
      rw [runTotal, hsize, ite_self]
    rw [hrun]
    exact ⟨rfl, hle⟩
  chunk call l offset T outcome l' hcall hT hle h := by
    subst hT
    rw [transferChunk_upload hup] at h
    by_cases hoffset : offset < task.totalSize
    · rcases uploadOneChunk_ok hfill hoffset hchunk h with rfl | ⟨next, hnext, rfl⟩
      · exact ⟨rfl, (decide_eq_true le_rfl).symm, fun _ => hoffset, fun _ => rfl⟩
      · rw [u64Add_of_lt (by omega)] at hnext
        cases hnext
        refine ⟨rfl, rfl, fun _ => ?_, fun heq => absurd hoffset (by omega)⟩
        show offset < offset + min task.chunkSize (task.totalSize - offset)
        omega
    · obtain rfl : offset = task.totalSize := Nat.le_antisymm hle (Nat.not_lt.1 hoffset)
      rw [uploadOneChunk_end (.inl le_rfl)] at h
      cases h
      exact ⟨rfl, (decide_eq_true le_rfl).symm, fun hlt => absurd hlt hoffset, fun _ => rfl⟩

/-! ## Every run -/

/-- **A worker run is well formed and ends**, in both directions, whatever the servers and the file calls
do. -/
theorem worker_run_ends {r : Drive (Local W H)} (hsigned : fs.Signed) (hfill : up.Filling)
    (htotal : r.inner.totalSize < u64Max) (hchunk : 1 ≤ r.inner.chunkSize) (hpc : r.pc = .preparing)
    (hsent : r.sent = []) :
    WellFormed (defaultHttpClient fs up build decode category) InMemoryAct r := by
  cases hdirection : r.inner.direction with
  | upload => exact (upload_paces hdirection hfill htotal hchunk r.startOffset).wellFormed hpc hsent
  | download => exact (download_paces hdirection hsigned r.startOffset).wellFormed hpc hsent

end

/-! ### A disk and a wire -/

/-- The immediate file system with signed positions. -/
def Disk.signedOps : FileOps Disk Unit where
  __ := Disk.ops
  seek f pos d := if pos ≤ i64Max then Disk.ops.seek f pos d else (none, d)

theorem Disk.signedOps_signed : Disk.signedOps.Signed := by
  intro f pos d d' h
  by_contra hlarge
  have hfails : Disk.signedOps.seek f pos d = (none, d) := if_neg hlarge
  rw [hfails] at h
  cases h

theorem Wire.ops_filling : Wire.ops.Filling := by
  intro f len w buf w' h
  unfold Wire.ops at h
  simp only at h
  split at h
  · cases h
    rw [List.length_take, List.length_drop]
    omega
  · cases h

/-- Eight bytes to upload. -/
def sampleSending : Drive (Local Wire Unit) where
  inner := sampleUpload
  startOffset := 0
  pc := .preparing
  loc := ⟨⟨[1, 2, 3, 4, 5, 6, 7, 8], 0, .ok sampleReply, []⟩, none⟩
  last := 0
  sent := []

theorem worker_run_ends_samples :
    WellFormed (defaultHttpClient Disk.signedOps Disk.offline .debug sampleDecode "") InMemoryAct
        (sampleFetch [1] 2) ∧
      WellFormed (defaultHttpClient Wire.readOnly Wire.ops .debug sampleDecode "") InMemoryAct sampleSending :=
  ⟨worker_run_ends Disk.signedOps_signed nofun (by decide) (by decide) rfl rfl,
    worker_run_ends nofun Wire.ops_filling (by decide) (by decide) rfl rfl⟩

end SpottedCat
