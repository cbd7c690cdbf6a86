import SpottedCat.Http.Client
import SpottedCat.Worker.Retry

/-!
# A chunk of an upload on the wire (`default_http_client.rs:288-382`)

`Wire` is the world of an upload whose source file does not change and whose file calls do not fail of
themselves; each request is answered as the world says, with a response or with a transport error, and is
logged with that answer.

* `uploadOneChunk_sends`: a chunk sends the bytes of its window, and its result depends on the answer alone;
* `uploadAnswer_retried`: the answers that are tried again.
-/

namespace SpottedCat

structure Wire where
  source : Bytes
  cursor : Nat
  /-- The answer to the next request. -/
  reply : Except String UploadResponse
  /-- Every request, with its answer. -/
  log : List (UploadForm × Except String UploadResponse)

namespace Wire

def ops : UploadOps Wire Unit where
  openRead w := (some (), { w with cursor := 0 })
  seek _ pos w := (some (), { w with cursor := pos })
  readExact _ len w :=
    if w.cursor + len ≤ w.source.length then
      (some ((w.source.drop w.cursor).take len), { w with cursor := w.cursor + len })
    else (none, w)
  send form w := (w.reply, { w with log := w.log ++ [(form, w.reply)] })

/-- Nothing is written to a file that is uploaded. -/
def readOnly : FileOps Wire Unit where
  metadata w := (.failed, w)
  createDirAll _ w := (none, w)
  createTruncate w := (none, w)
  openWrite w := (none, w)
  fileLen _ w := (none, w)
  seek _ _ w := (none, w)
  writeAll _ _ w := (none, w)

def answering (reply : Except String UploadResponse) (w : Wire) : Wire := { w with reply := reply }

end Wire

/-- The call whose request is answered so. -/
def TransferCall.answered (reply : Except String UploadResponse) : TransferCall Wire :=
  ⟨Wire.answering reply, fun _ => .error "no ranged GET"⟩

/-- The request of `prepare` is answered so. -/
def PrepareCall.answered (reply : Except String UploadResponse) : PrepareCall Wire :=
  ⟨Wire.answering reply, .error "no HEAD"⟩

/-- The request for the window of `len` bytes from `offset` (http_breakpoint.rs:74). -/
def chunkForm (task : InnerTask) (category : String) (source : Bytes) (offset len : Nat) : UploadForm :=
  .chunk ((source.drop offset).take len) task.fileSign task.fileName category offset len task.totalSize

/-- What a chunk makes of the answer (default_http_client.rs:359-382). -/
def uploadAnswer (build : Build) (decode : String → Except String DefaultUploadResp) (total offset len : Nat)
    (reply : Except String UploadResponse) : Ret ChunkOutcome := do
  let resp ← mapReqwest reply
  let info ← uploadInfo decode resp fun body =>
    failWith .httpError s!"upload chunk HTTP {resp.status.text}: {body}"
  if info.completedFileId.isSome then return ⟨total, total, true⟩
  else
    let next ← u64Add build offset len
    return ⟨next, total, decide (next ≥ total)⟩

section
variable (build : Build) (decode : String → Except String DefaultUploadResp) (category : String)
  (task : InnerTask) {offset chunkSize : Nat} {l : Local Wire Unit}

theorem readSource_wire {len : Nat} (hlen : offset + len ≤ l.world.source.length) :
    readSource Wire.ops task offset len l =
      (.ok ((l.world.source.drop offset).take len),
        { world := { l.world with cursor := offset + len }, slot := some () }) := by
  obtain ⟨world, slot⟩ := l
  cases slot with
  | none =>
    simp only [readSource, openSource, bind, Comp.bind, Comp.get, Comp.modify, fileCall, Wire.ops, pure, Comp.pure]
    rw [if_pos hlen]
  | some f =>
    simp only [readSource, openSource, bind, Comp.bind, Comp.get, fileCall, Wire.ops, pure, Comp.pure]
    rw [if_pos hlen]

/-- A file that ends before the window does. -/
theorem readSource_short {len : Nat} (hlen : l.world.source.length < offset + len) :
    ∃ e l', readSource Wire.ops task offset len l = (.error e, l') := by
  obtain ⟨world, slot⟩ := l
  refine ⟨.err (.fromCode .ioError s!"read upload source failed: path={task.filePath.display}"),
    ⟨{ world with cursor := offset }, some ()⟩, ?_⟩
  cases slot with
  | none =>
    simp only [readSource, openSource, bind, Comp.bind, Comp.get, Comp.modify, fileCall, Wire.ops, pure, Comp.pure]
    rw [if_neg (Nat.not_le.2 hlen)]
  | some f =>
    simp only [readSource, openSource, bind, Comp.bind, Comp.get, fileCall, Wire.ops, pure, Comp.pure]
    rw [if_neg (Nat.not_le.2 hlen)]

theorem request_wire (form : UploadForm) :
    request Wire.ops form l = (mapReqwest l.world.reply,
      { l with world := { l.world with log := l.world.log ++ [(form, l.world.reply)] } }) := rfl

/-- `prepare` is one request. -/
theorem uploadPrepare_wire (localOffset : Nat) :
    (uploadPrepare Wire.ops decode category task localOffset l).2 =
      { l with world := { l.world with
          log := l.world.log ++
            [(.prepare task.fileSign task.fileName category task.totalSize, l.world.reply)] } } := by
  unfold uploadPrepare
  simp only [bind, Comp.bind, request_wire]
  cases l.world.reply with
  | error e => rfl
  | ok resp =>
    simp only [mapReqwest, Comp.lift]
    cases uploadInfo decode resp _ with
    | error e => rfl
    | ok info =>
      simp only
      split <;> rfl

/-- **One request.** -/
theorem uploadOneChunk_sends (hoffset : offset < task.totalSize) (hchunk : 1 ≤ chunkSize)
    (hsource : offset + min chunkSize (task.totalSize - offset) ≤ l.world.source.length) :
    uploadOneChunk Wire.ops build decode category task offset chunkSize l =
      (uploadAnswer build decode task.totalSize offset (min chunkSize (task.totalSize - offset)) l.world.reply,
        { world := { l.world with
            cursor := offset + min chunkSize (task.totalSize - offset)
            log := l.world.log ++ [(chunkForm task category l.world.source offset
              (min chunkSize (task.totalSize - offset)), l.world.reply)] }
          slot := some () }) := by
  generalize hlen : min chunkSize (task.totalSize - offset) = len at *
  have hpos : ¬ len = 0 := by omega
  have hbuf : ((l.world.source.drop offset).take len).length = len := by
    rw [List.length_take, List.length_drop]
    omega
  unfold uploadOneChunk uploadAnswer
  simp only [hlen, if_neg (Nat.not_le.2 hoffset), if_neg hpos]
  simp only [bind, Comp.bind, readSource_wire task hsource, request_wire, hbuf, chunkForm]
  cases l.world.reply with
  | error e => rfl
  | ok resp =>
    simp only [mapReqwest, Comp.lift, Except.bind]
    cases uploadInfo decode resp _ with
    | error e => rfl
    | ok info =>
      simp only
      split
      · rfl
      · cases u64Add build offset len <;> rfl

/-- Where the file ends before the window does, the chunk fails. -/
theorem uploadOneChunk_short (hoffset : offset < task.totalSize) (hchunk : 1 ≤ chunkSize)
    (hsource : l.world.source.length < offset + min chunkSize (task.totalSize - offset)) :
    ∃ e l', uploadOneChunk Wire.ops build decode category task offset chunkSize l = (.error e, l') := by
  have hpos : ¬ min chunkSize (task.totalSize - offset) = 0 := by omega
  obtain ⟨e, l', hread⟩ := readSource_short task hsource
  refine ⟨e, l', ?_⟩
  unfold uploadOneChunk
  simp only [if_neg (Nat.not_le.2 hoffset), if_neg hpos]
  simp only [bind, Comp.bind, hread]

/-- **Answers that are tried again**: none, none that can be read, or one with a bad status. -/
inductive Retried : Except String UploadResponse → Prop where
  | lost (e : String) : Retried (.error e)
  | unread {resp : UploadResponse} (e : String) (h : resp.body = .error e) : Retried (.ok resp)
  | status {resp : UploadResponse} (h : resp.status.isSuccess = false) : Retried (.ok resp)

theorem uploadAnswer_retried {total len : Nat} {reply : Except String UploadResponse} (h : Retried reply) :
    ∃ err, isChunkRetryable err = true ∧
      uploadAnswer build decode total offset len reply = .error (.err err) := by
  have hretry (msg : String) : isChunkRetryable (.fromCode .httpError msg) = true :=
    (isChunkRetryable_fromCode _ _).2 (.inl rfl)
  cases h with
  | lost e => exact ⟨_, hretry e, rfl⟩
  | unread e hbody =>
    refine ⟨_, hretry e, ?_⟩
    simp only [uploadAnswer, uploadInfo, mapReqwest, hbody, bind, Except.bind, failWith]
  | @status resp hstatus =>
    cases hbody : resp.body with
    | error e =>
      refine ⟨_, hretry e, ?_⟩
      simp only [uploadAnswer, uploadInfo, mapReqwest, hbody, bind, Except.bind, failWith]
    | ok body =>
      refine ⟨_, hretry s!"upload chunk HTTP {resp.status.text}: {body}", ?_⟩
      simp only [uploadAnswer, uploadInfo, mapReqwest, hbody, bind, Except.bind, failWith, hstatus]
      rfl

end

/-! ## A call of the client -/

section
variable {fs : FileOps Wire Unit} {build : Build} {decode : String → Except String DefaultUploadResp}
  {category : String} {task : InnerTask} {offset chunkSize knownTotal : Nat} {l : Local Wire Unit}
  {reply : Except String UploadResponse}

/-- After a request for the window of `len` bytes from `offset`. -/
def Wire.sent (task : InnerTask) (category : String) (offset len : Nat) (reply : Except String UploadResponse)
    (w : Wire) : Wire where
  source := w.source
  cursor := offset + len
  reply := reply
  log := w.log ++ [(chunkForm task category w.source offset len, reply)]

theorem answered_sends (hup : task.direction = .upload) (hoffset : offset < task.totalSize)
    (hchunk : 1 ≤ chunkSize)
    (hsource : offset + min chunkSize (task.totalSize - offset) ≤ l.world.source.length) :
    (defaultHttpClient fs Wire.ops build decode category).transferChunk task offset chunkSize knownTotal
        (.answered reply) l =
      (uploadAnswer build decode task.totalSize offset (min chunkSize (task.totalSize - offset)) reply,
        ⟨l.world.sent task category offset (min chunkSize (task.totalSize - offset)) reply, some ()⟩) :=
  (transferChunk_upload hup _).trans (uploadOneChunk_sends build decode category task hoffset hchunk hsource)

theorem answered_short (hup : task.direction = .upload) (hoffset : offset < task.totalSize)
    (hchunk : 1 ≤ chunkSize)
    (hsource : l.world.source.length < offset + min chunkSize (task.totalSize - offset)) :
    ∃ e l', (defaultHttpClient fs Wire.ops build decode category).transferChunk task offset chunkSize knownTotal
      (.answered reply) l = (.error e, l') := by
  obtain ⟨e, l', hshort⟩ := uploadOneChunk_short build decode category task
    (l := l.after (Wire.answering reply)) hoffset hchunk hsource
  exact ⟨e, l', (transferChunk_upload hup _).trans hshort⟩

theorem answered_end (hup : task.direction = .upload) (h : task.totalSize ≤ offset ∨ chunkSize = 0) :
    (defaultHttpClient fs Wire.ops build decode category).transferChunk task offset chunkSize knownTotal
        (.answered reply) l = (.ok ⟨offset, task.totalSize, true⟩, l.after (Wire.answering reply)) :=
  (transferChunk_upload hup _).trans (uploadOneChunk_end h)

end

end SpottedCat
