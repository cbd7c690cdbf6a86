import SpottedCat.Http.Wire

/-!
# Transient failures of a chunk (`retry.rs:20-149`, `default_http_client.rs:352-382`, `:488-508`)

A chunk whose requests fail for a while, each by a transport error or by a 5xx response, and then succeed.
An upload reports every bad status as an HTTP error, which is tried again. A download reports every status
but 206 as an invalid range, which is not: there the loop gives up at the first 5xx response.

* `fetchChunk_lost`, `fetchChunk_refused`: what a failed request makes of a chunk of a download;
* `transient_failures_iff`: exactly when the loop returns what the first success alone would have.
-/

namespace SpottedCat

def HttpStatus.isServerError (status : HttpStatus) : Bool := 500 ≤ status.code && status.code < 600

/-- A ranged GET fails for the moment: no response, a 5xx, or a response to this range whose body breaks
off. -/
inductive TransientRange (offset total : Nat) : Except String RangeResponse → Prop where
  | lost (e : String) : TransientRange offset total (.error e)
  | broken {resp : RangeResponse} {contentRange : String} {last : Nat} {rangeTotal : Option Nat} (e : String)
      (status : resp.status.code = 206) (header : resp.contentRange = some contentRange)
      (range : parseContentRange contentRange = .ok (offset, last, rangeTotal))
      (totals : rangeTotal = none ∨ rangeTotal = some total) (body : resp.body = .error e) :
      TransientRange offset total (.ok resp)
  | refused {resp : RangeResponse} (h : resp.status.isServerError = true) :
      TransientRange offset total (.ok resp)

/-- A 5xx response. -/
def Refused (reply : Except String RangeResponse) : Prop :=
  ∃ resp, reply = .ok resp ∧ resp.status.isServerError = true

/-- The request of an upload fails for the moment: no response, a 5xx, or a body that breaks off. -/
inductive TransientForm : Except String UploadResponse → Prop where
  | lost (e : String) : TransientForm (.error e)
  | broken {resp : UploadResponse} (e : String) (h : resp.body = .error e) : TransientForm (.ok resp)
  | refused {resp : UploadResponse} (h : resp.status.isServerError = true) : TransientForm (.ok resp)

/-- The call whose ranged GET is answered so. -/
def TransferCall.ranged {W : Type} (reply : Except String RangeResponse) : TransferCall W :=
  ⟨id, fun _ => reply⟩

/-! ## Downloads -/

section
variable {build : Build} {offset chunkSize total : Nat} {reply : Except String RangeResponse} {spec : String}

theorem fetchChunk_lost (hspec : rangeSpec build offset chunkSize total = .ok spec)
    (h : TransientRange offset total reply) (hrefused : ¬ Refused reply) :
    ∃ err, isChunkRetryable err = true ∧
      fetchChunk build (fun _ => reply) offset chunkSize total = .error (.err err) := by
  have hretry (msg : String) : isChunkRetryable (.fromCode .httpError msg) = true :=
    (isChunkRetryable_fromCode _ _).2 (.inl rfl)
  cases h with
  | lost e =>
    refine ⟨_, hretry e, ?_⟩
    simp only [fetchChunk, hspec, mapReqwest, bind, Except.bind, failWith]
  | @broken resp contentRange last rangeTotal e hstatus hheader hrange htotals hbody =>
    refine ⟨_, hretry e, ?_⟩
    have hsame : ¬ (rangeTotal ≠ none ∧ rangeTotal ≠ some total) := by
      rw [not_and_or, not_not, not_not]
      exact htotals
    simp only [fetchChunk, hspec, mapReqwest, bind, Except.bind, acceptBody]
    rw [if_neg (not_not.2 hstatus), hheader]
    simp only [orElse, hrange, hbody]
    rw [if_neg (not_not.2 rfl), if_neg hsame]
    rfl
  | @refused resp hstatus => exact absurd ⟨resp, rfl, hstatus⟩ hrefused

theorem fetchChunk_refused (hspec : rangeSpec build offset chunkSize total = .ok spec) (h : Refused reply) :
    ∃ msg, fetchChunk build (fun _ => reply) offset chunkSize total =
      .error (.err (.fromCode .invalidRange msg)) := by
  obtain ⟨resp, rfl, hstatus⟩ := h
  have hcode : resp.status.code ≠ 206 := by
    intro heq
    simp [HttpStatus.isServerError, heq] at hstatus
  refine ⟨s!"download GET requires 206 Partial Content, got {resp.status.text}: {resp.text}", ?_⟩
  simp only [fetchChunk, hspec, mapReqwest, bind, Except.bind, acceptBody]
  rw [if_pos hcode]
  rfl

variable {W H : Type} {fs : FileOps W H} {task : InnerTask} {server : String → Except String RangeResponse}
  {l l' : Local W H}

/-- A chunk that succeeds has sent a request. -/
theorem downloadOneChunk_requested {outcome : ChunkOutcome} (hoffset : offset < total)
    (h : downloadOneChunk fs build task server offset chunkSize total l = (.ok outcome, l')) :
    ∃ spec, rangeSpec build offset chunkSize total = .ok spec := by
  obtain ⟨data, next, hfetch, -⟩ := downloadOneChunk_ok hoffset h
  unfold fetchChunk at hfetch
  obtain ⟨spec, hspec, -⟩ := Except.bind_eq_ok.1 hfetch
  exact ⟨spec, hspec⟩

end

/-- The first element with a property. -/
theorem exists_first {α : Type*} {P : α → Prop} {as : List α} (h : ∃ a ∈ as, P a) :
    ∃ before a after, as = before ++ a :: after ∧ P a ∧ ∀ b ∈ before, ¬ P b := by
  classical
  obtain ⟨a, ha⟩ : ∃ a, as.find? (fun a => decide (P a)) = some a := by
    rw [← Option.isSome_iff_exists, List.find?_isSome]
    simpa using h
  obtain ⟨hp, before, after, has, hbefore⟩ := List.find?_eq_some_iff_append.1 ha
  exact ⟨before, a, after, has, by simpa using hp, by simpa using hbefore⟩

section
variable {W H : Type} {fs : FileOps W H} {up : UploadOps W H} {build : Build}
  {decode : String → Except String DefaultUploadResp} {category : String} {inner : InnerTask}
  {offset knownTotal : Nat} {l l' : Local W H} {fails : List (Except String RangeResponse)}
  {good : Except String RangeResponse} {outcome : ChunkOutcome}

/-- Lost requests are made again, and leave the file as it was. -/
theorem download_skips (hdown : inner.direction = .download) {spec : String} (hoffset : offset < knownTotal)
    (hspec : rangeSpec build offset inner.chunkSize knownTotal = .ok spec)
    (hlimit : fails.length ≤ inner.maxChunkRetries) (hfails : ∀ f ∈ fails, TransientRange offset knownTotal f)
    (hlost : ∀ f ∈ fails, ¬ Refused f) (rest : List (TransferCall W)) :
    Retry.undisturbed (defaultHttpClient fs up build decode category) inner offset knownTotal 0
        (fails.map .ranged ++ rest) l =
      Retry.undisturbed (defaultHttpClient fs up build decode category) inner offset knownTotal fails.length rest
        l := by
  obtain ⟨l1, rfl, hskip⟩ := Retry.undisturbed_skip (P := fun l0 => l0 = l)
    (defaultHttpClient fs up build decode category) inner offset knownTotal 0
    (by
      intro b hb l0 hl0
      obtain ⟨f, hf, rfl⟩ := List.mem_map.1 hb
      obtain ⟨err, hretry, hfetch⟩ := fetchChunk_lost hspec (hfails f hf) (hlost f hf)
      exact ⟨err, l0, hretry, hl0, (transferChunk_download hdown (.ranged f)).trans
        (downloadOneChunk_refused hoffset hfetch)⟩)
    (by simpa using hlimit) rfl rest
  rwa [List.length_map, Nat.zero_add] at hskip

/-- **Recovery**: lost requests are made again, and the chunk that succeeds finds the file as it was. -/
theorem download_recovers (hdown : inner.direction = .download) (hlimit : fails.length ≤ inner.maxChunkRetries)
    (hfails : ∀ f ∈ fails, TransientRange offset knownTotal f)
    (hgood : (defaultHttpClient fs up build decode category).transferChunk inner offset inner.chunkSize
      knownTotal (.ranged good) l = (.ok outcome, l'))
    (hwhen : knownTotal ≤ offset ∨ ∀ f ∈ fails, ¬ Refused f) :
    Retry.undisturbed (defaultHttpClient fs up build decode category) inner offset knownTotal 0
      ((fails ++ [good]).map .ranged) l = some (.finished (.done outcome), l') := by
  by_cases hoffset : knownTotal ≤ offset
  · -- the first call returns at once
    have hend (reply : Except String RangeResponse) :
        (defaultHttpClient fs up build decode category).transferChunk inner offset inner.chunkSize knownTotal
          (.ranged reply) l = (.ok ⟨offset, knownTotal, true⟩, l) := by
      rw [transferChunk_download hdown]
      exact downloadOneChunk_end hoffset
    rw [hend good] at hgood
    cases hgood
    cases fails with
    | nil => exact Retry.undisturbed_done (hend good) []
    | cons f fails => exact Retry.undisturbed_done (hend f) _
  · have hoffset := Nat.not_le.1 hoffset
    have hnone := hwhen.resolve_left (Nat.not_le.2 hoffset)
    have hgood' := hgood
    rw [transferChunk_download hdown] at hgood'
    obtain ⟨spec, hspec⟩ := downloadOneChunk_requested hoffset hgood'
    rw [List.map_append, List.map_singleton, download_skips hdown hoffset hspec hlimit hfails hnone [.ranged good]]
    exact Retry.undisturbed_done hgood []

/-- **No recovery**: the first 5xx response ends the loop. -/
theorem download_gives_up (hdown : inner.direction = .download) (hlimit : fails.length ≤ inner.maxChunkRetries)
    (hfails : ∀ f ∈ fails, TransientRange offset knownTotal f)
    (hgood : (defaultHttpClient fs up build decode category).transferChunk inner offset inner.chunkSize
      knownTotal (.ranged good) l = (.ok outcome, l'))
    (hoffset : offset < knownTotal) (hrefused : ∃ f ∈ fails, Refused f) :
    ∃ msg, Retry.undisturbed (defaultHttpClient fs up build decode category) inner offset knownTotal 0
      ((fails ++ [good]).map .ranged) l = some (.finished (.failed (.fromCode .invalidRange msg)), l) := by
  rw [transferChunk_download hdown] at hgood
  obtain ⟨spec, hspec⟩ := downloadOneChunk_requested hoffset hgood
  obtain ⟨before, f, after, rfl, hf, hbefore⟩ := exists_first hrefused
  rw [List.length_append, List.length_cons] at hlimit
  obtain ⟨msg, hfetch⟩ := fetchChunk_refused hspec hf
  have hbegin : before.length ≤ inner.maxChunkRetries := by omega
  have hfinal : isChunkRetryable (.fromCode .invalidRange msg) = false :=
    final_fromCode (by decide) (by decide)
  have hstop : Retry.afterCall inner.maxChunkRetries before.length
      (.error (.err (.fromCode .invalidRange msg))) = .finished (.failed (.fromCode .invalidRange msg)) :=
    Retry.afterCall_final hfinal
  have hcall : (defaultHttpClient fs up build decode category).transferChunk inner offset inner.chunkSize
      knownTotal (.ranged f) l = (.error (.err (.fromCode .invalidRange msg)), l) := by
    rw [transferChunk_download hdown]
    exact downloadOneChunk_refused hoffset hfetch
  refine ⟨msg, ?_⟩
  rw [List.append_assoc, List.cons_append, List.map_append,
    download_skips hdown hoffset hspec hbegin (fun g hg => hfails g (by simp [hg])) hbefore, List.map_cons,
    Retry.undisturbed_last hcall (by rw [hstop]; exact fun ⟨_, h⟩ => nomatch h), hstop]

end

/-! ## Uploads -/

theorem TransientForm.retried {reply : Except String UploadResponse} (h : TransientForm reply) :
    Retried reply := by
  cases h with
  | lost e => exact .lost e
  | broken e hbody => exact .unread e hbody
  | @refused resp hstatus =>
    apply Retried.status
    simp only [HttpStatus.isServerError, Bool.and_eq_true, decide_eq_true_eq] at hstatus
    simp only [HttpStatus.isSuccess, Bool.and_eq_false_iff, decide_eq_false_iff_not]
    omega

section
variable {fs : FileOps Wire Unit} {build : Build} {decode : String → Except String DefaultUploadResp}
  {category : String} {inner : InnerTask} {offset knownTotal : Nat} {l l' : Local Wire Unit}
  {fails : List (Except String UploadResponse)} {good : Except String UploadResponse} {outcome : ChunkOutcome}

/-- **Recovery** of an upload, whatever the statuses were. -/
theorem upload_recovers (hup : inner.direction = .upload) (hlimit : fails.length ≤ inner.maxChunkRetries)
    (hfails : ∀ f ∈ fails, TransientForm f)
    (hgood : (defaultHttpClient fs Wire.ops build decode category).transferChunk inner offset inner.chunkSize
      knownTotal (.answered good) l = (.ok outcome, l')) :
    ∃ l'', Retry.undisturbed (defaultHttpClient fs Wire.ops build decode category) inner offset knownTotal 0
        ((fails ++ [good]).map .answered) l = some (.finished (.done outcome), l'') ∧
      l'.world.source = l.world.source ∧ l''.world.source = l.world.source := by
  by_cases hend : inner.totalSize ≤ offset ∨ inner.chunkSize = 0
  · -- nothing is sent, and the first call returns at once
    have hfirst (reply : Except String UploadResponse) :
        (defaultHttpClient fs Wire.ops build decode category).transferChunk inner offset inner.chunkSize knownTotal
          (.answered reply) l = (.ok ⟨offset, inner.totalSize, true⟩, l.after (Wire.answering reply)) :=
      answered_end hup hend
    rw [hfirst good] at hgood
    cases hgood
    cases fails with
    | nil => exact ⟨_, Retry.undisturbed_done (hfirst good) [], rfl, rfl⟩
    | cons f fails => exact ⟨_, Retry.undisturbed_done (hfirst f) _, rfl, rfl⟩
  · rw [not_or, Nat.not_le] at hend
    obtain ⟨hoffset, hzero⟩ := hend
    have hchunk : 1 ≤ inner.chunkSize := Nat.one_le_iff_ne_zero.2 hzero
    by_cases hsource : offset + min inner.chunkSize (inner.totalSize - offset) ≤ l.world.source.length
    · have hsends (reply : Except String UploadResponse) (l0 : Local Wire Unit)
          (hl0 : l0.world.source = l.world.source) :
          (defaultHttpClient fs Wire.ops build decode category).transferChunk inner offset inner.chunkSize
            knownTotal (.answered reply) l0 = _ :=
        answered_sends hup hoffset hchunk (by rw [hl0]; exact hsource)
      obtain ⟨l1, hl1, hskip⟩ := Retry.undisturbed_skip (P := fun l0 => l0.world.source = l.world.source)
        (defaultHttpClient fs Wire.ops build decode category) inner offset knownTotal 0
        (by
          intro b hb l0 hl0
          obtain ⟨f, hf, rfl⟩ := List.mem_map.1 hb
          obtain ⟨err, hretry, hanswer⟩ := uploadAnswer_retried build decode (hfails f hf).retried
          have hfailed := hsends f l0 hl0
          rw [hanswer] at hfailed
          exact ⟨err, ⟨l0.world.sent inner category offset _ f, some ()⟩, hretry, hl0, hfailed⟩)
        (by simpa using hlimit) rfl [.answered good]
      rw [hsends good l rfl] at hgood
      obtain ⟨hanswer, rfl⟩ := Prod.mk.inj hgood
      have hdone := hsends good l1 hl1
      rw [hanswer] at hdone
      have hall := hskip.trans (Retry.undisturbed_done hdone [])
      rw [← List.map_singleton, ← List.map_append] at hall
      exact ⟨_, hall, rfl, hl1⟩
    · obtain ⟨e, l2, hshort⟩ : ∃ e l2, (defaultHttpClient fs Wire.ops build decode category).transferChunk inner
          offset inner.chunkSize knownTotal (.answered good) l = (.error e, l2) :=
        answered_short hup hoffset hchunk (Nat.not_le.1 hsource)
      rw [hshort] at hgood
      cases hgood

end

/-! ## Both directions -/

/-- **Transient failures.** At most `max_chunk_retries` of them come before a response that succeeds. The loop
returns what this response alone would have made of the chunk, and leaves the same file: for an upload always,
for a download exactly if nothing is left to fetch or no failure is a 5xx response. -/
theorem transient_failures_iff (build : Build) (decode : String → Except String DefaultUploadResp)
    (category : String) :
    (∀ (W H : Type) (fs : FileOps W H) (up : UploadOps W H) (inner : InnerTask) (offset knownTotal : Nat)
        (l l' : Local W H) (fails : List (Except String RangeResponse)) (good : Except String RangeResponse)
        (outcome : ChunkOutcome),
      inner.direction = .download → fails.length ≤ inner.maxChunkRetries →
      (∀ f ∈ fails, TransientRange offset knownTotal f) →
      (defaultHttpClient fs up build decode category).transferChunk inner offset inner.chunkSize knownTotal
        (.ranged good) l = (.ok outcome, l') →
      (Retry.undisturbed (defaultHttpClient fs up build decode category) inner offset knownTotal 0
          ((fails ++ [good]).map .ranged) l = some (.finished (.done outcome), l') ↔
        knownTotal ≤ offset ∨ ∀ f ∈ fails, ¬ Refused f)) ∧
    ∀ (fs : FileOps Wire Unit) (inner : InnerTask) (offset knownTotal : Nat) (l l' : Local Wire Unit)
        (fails : List (Except String UploadResponse)) (good : Except String UploadResponse)
        (outcome : ChunkOutcome),
      inner.direction = .upload → fails.length ≤ inner.maxChunkRetries → (∀ f ∈ fails, TransientForm f) →
      (defaultHttpClient fs Wire.ops build decode category).transferChunk inner offset inner.chunkSize knownTotal
        (.answered good) l = (.ok outcome, l') →
      ∃ l'', Retry.undisturbed (defaultHttpClient fs Wire.ops build decode category) inner offset knownTotal 0
          ((fails ++ [good]).map .answered) l = some (.finished (.done outcome), l'') ∧
        l'.world.source = l.world.source ∧ l''.world.source = l.world.source := by
  constructor
  · intro W H fs up inner offset knownTotal l l' fails good outcome hdown hlimit hfails hgood
    constructor
    · intro hdone
      by_contra hwhen
      obtain ⟨hoffset, hrefused⟩ := not_or.1 hwhen
      obtain ⟨msg, hfailed⟩ := download_gives_up hdown hlimit hfails hgood (Nat.not_le.1 hoffset)
        (by simpa using hrefused)
      rw [hfailed] at hdone
      cases hdone
    · exact download_recovers hdown hlimit hfails hgood
  · intro fs inner offset knownTotal l l' fails good outcome hup hlimit hfails hgood
    exact upload_recovers hup hlimit hfails hgood

/-- A response that asks to come back later. -/
def sampleBusy : RangeResponse where
  status := ⟨503, "503 Service Unavailable"⟩
  contentRange := none
  text := "busy"
  body := .error "not read"

/-- One byte of four is there. -/
def sampleFirst : Local Disk Unit := ⟨⟨some [1], 0, [], false⟩, none⟩

/-- All four are. -/
def sampleWhole : Local Disk Unit := ⟨⟨some [1, 2, 3, 4], 4, [], false⟩, some ()⟩

/-- A client on an immediate file system that sends nothing. -/
def sampleClient : TransferTrait (Local Disk Unit) (PrepareCall Disk) (TransferCall Disk) :=
  defaultHttpClient Disk.ops Disk.offline .debug sampleDecode ""

/-- The request of a chunk, alone. -/
theorem sampleRest_alone : sampleClient.transferChunk DownloadRun.sampleDownload 1 2 4
    (.ranged (.ok DownloadRun.sampleRest)) sampleFirst = (.ok ⟨4, 4, true⟩, sampleWhole) := by rfl

/-- After a lost connection. -/
theorem transient_failures_iff_lost :
    Retry.undisturbed sampleClient DownloadRun.sampleDownload 1 4 0
        ([Except.error "connection reset", .ok DownloadRun.sampleRest].map .ranged) sampleFirst =
      some (.finished (.done ⟨4, 4, true⟩), sampleWhole) := by
  refine ((transient_failures_iff .debug sampleDecode "").1 _ _ _ _ _ 1 4 sampleFirst _
    [.error "connection reset"] _ _ rfl (by decide) ?_ sampleRest_alone).2 (.inr ?_)
  · intro f hf
    rw [List.mem_singleton.1 hf]
    exact .lost _
  · rintro f hf ⟨resp, hresp, -⟩
    rw [List.mem_singleton.1 hf] at hresp
    cases hresp

/-- After one 503 the same response is not asked for, with three retries allowed. -/
theorem busy_ends_download :
    TransientRange 1 4 (.ok sampleBusy) ∧
      sampleClient.transferChunk DownloadRun.sampleDownload 1 DownloadRun.sampleDownload.chunkSize 4
        (.ranged (.ok DownloadRun.sampleRest)) sampleFirst = (.ok ⟨4, 4, true⟩, sampleWhole) ∧
      1 ≤ DownloadRun.sampleDownload.maxChunkRetries ∧
      ∃ err, Retry.undisturbed sampleClient DownloadRun.sampleDownload 1 4 0
        ([Except.ok sampleBusy, .ok DownloadRun.sampleRest].map .ranged) sampleFirst =
          some (.finished (.failed err), sampleFirst) ∧ err.code = InnerErrorCode.invalidRange.toI32 := by
  refine ⟨.refused (by decide), sampleRest_alone, by decide, ?_⟩
  have hbusy : ∀ f ∈ [Except.ok sampleBusy], TransientRange 1 4 f := by
    intro f hf
    rw [List.mem_singleton.1 hf]
    exact .refused (by decide)
  obtain ⟨msg, hfailed⟩ := download_gives_up rfl (by decide) hbusy sampleRest_alone (by decide)
    ⟨.ok sampleBusy, by simp, sampleBusy, rfl, by decide⟩
  exact ⟨_, hfailed, rfl⟩

end SpottedCat
