import SpottedCat.Http.DownloadRun
import SpottedCat.Http.RangeText

/-!
# The window of a chunk (`default_http_client.rs:461-693`)

A chunk asks for one window of the resource. The answer is checked for its status, for the start and the
total in its `Content-Range`, and for a body of the length that is declared; the declared end is compared
with nothing. `chunk_stays_inside` says for which answers a call stays inside its window all the same.

* `acceptBody_panic`, `Offered.accepted`: with `acceptBody_ok`, every outcome of the checks;
* `storeChunk_appends`: storing on a disk that does not fail;
* `downloadOneChunk_stores`: a whole call.
-/

namespace SpottedCat

/-! ## The checks -/

theorem orElse_ne_panic {α : Type*} {o : Option α} {msg text : String} :
    orElse o (invalidRange text) ≠ .error (.panic msg) := by
  cases o <;> simp [orElse, invalidRange, failWith]

theorem mapReqwest_ne_panic {α : Type*} {r : Except String α} {msg : String} :
    mapReqwest r ≠ .error (.panic msg) := by
  cases r <;> simp [mapReqwest, failWith]

theorem invalidRange_ne_panic {α : Type*} {msg text : String} :
    (invalidRange text : Ret α) ≠ .error (.panic msg) := by
  simp [invalidRange, failWith]

/-- Reading a header adds nothing up. -/
theorem parseContentRange_ne_panic {value msg : String} : parseContentRange value ≠ .error (.panic msg) := by
  intro h
  obtain ⟨text, he⟩ := parseContentRange_error h
  cases he

/-- **The checks panic** in one place only: where the declared length is computed. -/
theorem acceptBody_panic {build : Build} {offset total : Nat} {resp : RangeResponse} {msg : String}
    (h : acceptBody build offset total resp = .error (.panic msg)) :
    ∃ last data, Offered offset total resp last data ∧ u64Max ≤ last - offset + 1 := by
  unfold acceptBody at h
  split at h
  · exact absurd h invalidRange_ne_panic
  rename_i hcode
  rcases Except.bind_eq_error.1 h with h | ⟨contentRange, hcr, h⟩
  · exact absurd h orElse_ne_panic
  rcases Except.bind_eq_error.1 h with h | ⟨⟨start, last, rangeTotal⟩, hparse, h⟩
  · exact absurd h parseContentRange_ne_panic
  simp only at h
  split at h
  · exact absurd h invalidRange_ne_panic
  rename_i hstart
  rw [not_not.1 hstart] at hparse h
  split at h
  · exact absurd h invalidRange_ne_panic
  rename_i htotal
  rw [not_and_or, not_not, not_not] at htotal
  rcases Except.bind_eq_error.1 h with h | ⟨data, hbody, h⟩
  · exact absurd h mapReqwest_ne_panic
  split at h
  · exact absurd h invalidRange_ne_panic
  rename_i hne
  have hoffered : Offered offset total resp last data :=
    ⟨not_not.1 hcode, ⟨contentRange, rangeTotal, orElse_ok invalidRange_ne hcr, hparse, htotal⟩,
      mapReqwest_ok hbody, hne⟩
  rcases Except.bind_eq_error.1 h with h | ⟨expectedLen, -, h⟩
  · refine ⟨last, data, hoffered, ?_⟩
    by_contra hlt
    rw [u64Add_of_lt (Nat.not_le.1 hlt)] at h
    cases h
  · split at h
    · exact absurd h invalidRange_ne_panic
    · cases h

variable {offset chunkSize total last : Nat} {data : Bytes} {resp : RangeResponse}

/-- What is left of the checks for an offered body. -/
theorem Offered.checked (h : Offered offset total resp last data) (build : Build) :
    acceptBody build offset total resp = (do
      let expectedLen ← u64Add build (last - offset) 1
      if data.length ≠ expectedLen then
        invalidRange s!"download body length mismatch: expected {expectedLen}, got {data.length}"
      else return data) := by
  obtain ⟨contentRange, rangeTotal, hcr, hparse, htotal⟩ := h.range
  have hsame : ¬ (rangeTotal ≠ none ∧ rangeTotal ≠ some total) := by
    rw [not_and_or, not_not, not_not]
    exact htotal
  unfold acceptBody
  rw [if_neg (not_not.2 h.status), hcr]
  simp only [orElse, hparse, bind, Except.bind, h.body, mapReqwest]
  rw [if_neg (not_not.2 rfl), if_neg hsame, if_neg h.nonempty]

/-- A body of the declared length is accepted, wherever the declared range ends. -/
theorem Offered.accepted (h : Offered offset total resp last data) (build : Build)
    (hsize : last - offset + 1 < u64Max) (hlen : data.length = last - offset + 1) :
    acceptBody build offset total resp = .ok data := by
  rw [h.checked, u64Add_of_lt hsize]
  exact if_neg (not_not.2 hlen)

/-- A length of 2^64 stops a debug build. -/
theorem Offered.overflows (h : Offered offset total resp last data) (hsize : u64Max ≤ last - offset + 1) :
    acceptBody .debug offset total resp = .error (.panic "attempt to add with overflow") := by
  have hadd : u64Add .debug (last - offset) 1 = .error (.panic "attempt to add with overflow") :=
    if_neg (Nat.not_lt.2 hsize)
  rw [h.checked, hadd]
  rfl

/-- A range that is read ends in `u64`. -/
theorem Offered.last_lt (h : Offered offset total resp last data) : last < u64Max := by
  obtain ⟨contentRange, rangeTotal, -, hparse, -⟩ := h.range
  exact (parseContentRange_ok hparse).2

theorem Offered.start_le (h : Offered offset total resp last data) : offset ≤ last := by
  obtain ⟨contentRange, rangeTotal, -, hparse, -⟩ := h.range
  exact (parseContentRange_ok hparse).1

/-! ## Storing -/

/-- No file call fails, and the file holds `bs`. -/
structure Quiet (bs : Bytes) (l : Local Disk Unit) : Prop where
  faults : l.world.faults = []
  content : l.world.content = bs

theorem Quiet.next {bs : Bytes} {l : Local Disk Unit} (h : Quiet bs l) : l.world.next.faults = [] := by
  simp [Disk.next, h.faults]

section
variable {bs : Bytes} {task : InnerTask}

theorem createParent_quiet :
    Triple (Quiet bs) (createParent Disk.ops task offset) (fun _ => Quiet bs) (fun _ _ => False) := by
  unfold createParent
  split
  · split
    · exact Triple.orFail_quiet (fun _ h => h.faults) fun _ h => ⟨h.next, h.content⟩
    · exact Triple.pure fun _ h => h
  · exact Triple.pure fun _ h => h

/-- An open slot is used as it is; a file that is opened has the length that is looked for. -/
theorem openSlot_quiet :
    Triple (Quiet bs) (openSlot Disk.ops task bs.length) (fun _ => Quiet bs) (fun _ _ => False) := by
  unfold openSlot
  split
  · rename_i hzero
    obtain rfl : bs = [] := List.length_eq_zero_iff.1 hzero
    refine Triple.bind (Triple.orFail_quiet (Q := fun _ => Quiet []) (fun _ h => h.faults)
      fun _ h => ⟨h.next, rfl⟩) fun created => ?_
    refine Triple.bind (Triple.modify (R := fun _ => Quiet []) fun _ h => ⟨h.faults, h.content⟩) fun _ => ?_
    exact Triple.pure fun _ h => h
  · refine Triple.bind (Triple.get (R := fun _ => Quiet bs) fun _ h => h) fun l0 => ?_
    split
    · exact Triple.pure fun _ h => h
    · refine Triple.bind (Triple.orFail_quiet (Q := fun _ => Quiet bs) (fun _ h => h.faults)
        fun _ h => ⟨h.next, h.content⟩) fun opened => ?_
      refine Triple.bind (Triple.orFail_quiet (Q := fun n l => n = bs.length ∧ Quiet bs l)
        (fun _ h => h.faults) fun _ h => ⟨congrArg List.length h.content, h.next, h.content⟩)
          fun localLen => ?_
      split
      · rename_i hlen
        exact Triple.lift fun _ h => absurd h.1 hlen
      · refine Triple.bind (Triple.modify (R := fun _ => Quiet bs) fun _ h => ⟨h.2.faults, h.2.content⟩)
          fun _ => ?_
        exact Triple.pure fun _ h => h

theorem storeChunk_appends (task : InnerTask) (data : Bytes) :
    Triple (Quiet bs) (storeChunk Disk.ops task bs.length data)
      (fun _ l => l.world.faults = [] ∧ l.world.file = some (bs ++ data)) (fun _ _ => False) := by
  unfold storeChunk
  refine Triple.bind createParent_quiet fun _ => ?_
  refine Triple.bind openSlot_quiet fun f => ?_
  refine Triple.bind (Triple.orFail_quiet (Q := fun _ l => Quiet bs l ∧ l.world.cursor = bs.length)
    (fun _ h => h.faults) fun _ h => ⟨⟨h.next, h.content⟩, rfl⟩) fun _ => ?_
  refine Triple.fileCall fun l h => ?_
  obtain ⟨hquiet, hcursor⟩ := h
  have hfault : l.world.fault = none := by
    rw [Disk.fault, hquiet.faults]
    rfl
  simp only [Disk.ops, hfault]
  refine ⟨hquiet.next, ?_⟩
  rw [hcursor, hquiet.content, writeAt_length]

/-! ## A whole call -/

variable {build : Build} {server : String → Except String RangeResponse} {l : Local Disk Unit}

/-- The request of a chunk, and the checks of its answer. -/
theorem fetchChunk_asks (hchunk : 1 ≤ chunkSize) (hsum : offset + chunkSize < u64Max) (htotal : 0 < total) :
    fetchChunk build server offset chunkSize total = (do
      let resp ← mapReqwest (server (windowSpec offset (min (offset + chunkSize) total - 1)))
      acceptBody build offset total resp) := by
  unfold fetchChunk
  rw [rangeSpec_ok hchunk hsum htotal]
  rfl

/-- A body that is accepted is appended, and moves the offset by its length. -/
theorem downloadOneChunk_stores (task : InnerTask) (hoffset : offset < total)
    (h : fetchChunk build server offset chunkSize total = .ok data) (hfaults : l.world.faults = [])
    (hfile : l.world.content.length = offset) :
    ∃ l', l'.world.faults = [] ∧ l'.world.file = some (l.world.content ++ data) ∧
      downloadOneChunk Disk.ops build task server offset chunkSize total l =
        ((u64Add build offset data.length).map fun next => ⟨next, total, decide (next ≥ total)⟩, l') := by
  subst hfile
  rcases hrun : storeChunk Disk.ops task l.world.content.length data l with ⟨ret, l'⟩
  have hstore := storeChunk_appends task data l ⟨hfaults, rfl⟩
  rw [hrun] at hstore
  cases ret with
  | error e => exact hstore.elim
  | ok u =>
    refine ⟨l', hstore.1, hstore.2, ?_⟩
    unfold downloadOneChunk
    simp only [if_neg (Nat.not_le.2 hoffset), h, bind, Comp.bind, Comp.lift, hrun]
    cases u64Add build l.world.content.length data.length <;> rfl

end

/-! ## Inside the window -/

section
variable (task : InnerTask) (server : String → Except String RangeResponse) (offset chunkSize total : Nat)

/-- One call, on the file as it is in `l`: it does not panic; if it fails, the file is untouched; and if
it succeeds, the answer's range lies in the window and its body fills the range, nothing else was
written, and the next offset is ahead, within the total. -/
def StaysInside (build : Build) (l : Local Disk Unit) : Prop :=
  match downloadOneChunk Disk.ops build task server offset chunkSize total l with
  | (.error (.panic _), _) => False
  | (.error (.err _), l') => l'.world.file = l.world.file
  | (.ok outcome, l') =>
    ∃ resp contentRange first last rangeTotal data,
      server (windowSpec offset (min (offset + chunkSize) total - 1)) = .ok resp ∧
        resp.contentRange = some contentRange ∧
        parseContentRange contentRange = .ok (first, last, rangeTotal) ∧
        resp.body = .ok data ∧
        offset ≤ first ∧ last ≤ min (offset + chunkSize) total - 1 ∧
        data.length = last - first + 1 ∧
        l'.world.file = some (writeAt l.world.content first data) ∧
        offset < outcome.nextOffset ∧ outcome.nextOffset ≤ total

/-- An answer that passes the checks before the length of its body declares an end inside the window, or
else a length that its body does not have and that is still a `u64`. -/
def AnswersInside : Prop :=
  ∀ resp last data, server (windowSpec offset (min (offset + chunkSize) total - 1)) = .ok resp →
    Offered offset total resp last data →
      ¬ (offset = 0 ∧ last = u64Max - 1) ∧
        (data.length = last - offset + 1 → last ≤ min (offset + chunkSize) total - 1)

variable {task server offset chunkSize total} {build : Build} {l : Local Disk Unit}

/-- What the server's answer was, when its body is accepted. -/
theorem fetchChunk_offered (hchunk : 1 ≤ chunkSize) (hsum : offset + chunkSize < u64Max)
    (hoffset : offset < total) {data : Bytes}
    (h : fetchChunk build server offset chunkSize total = .ok data) :
    ∃ resp last, server (windowSpec offset (min (offset + chunkSize) total - 1)) = .ok resp ∧
      Offered offset total resp last data ∧ data.length = last - offset + 1 := by
  rw [fetchChunk_asks hchunk hsum (Nat.zero_lt_of_lt hoffset)] at h
  obtain ⟨resp, hresp, h⟩ := Except.bind_eq_ok.1 h
  obtain ⟨last, hoffered, hlen⟩ := acceptBody_ok h
  exact ⟨resp, last, mapReqwest_ok hresp, hoffered, hlen⟩

/-- A call panics over the declared length only. -/
theorem fetchChunk_panic (hchunk : 1 ≤ chunkSize) (hsum : offset + chunkSize < u64Max)
    (hoffset : offset < total) {msg : String}
    (h : fetchChunk build server offset chunkSize total = .error (.panic msg)) :
    ∃ resp last data, server (windowSpec offset (min (offset + chunkSize) total - 1)) = .ok resp ∧
      Offered offset total resp last data ∧ u64Max ≤ last - offset + 1 := by
  rw [fetchChunk_asks hchunk hsum (Nat.zero_lt_of_lt hoffset)] at h
  rcases Except.bind_eq_error.1 h with h | ⟨resp, hresp, h⟩
  · exact absurd h mapReqwest_ne_panic
  · obtain ⟨last, data, hoffered, hsize⟩ := acceptBody_panic h
    exact ⟨resp, last, data, mapReqwest_ok hresp, hoffered, hsize⟩

/-- Answers inside the window keep the call inside it. -/
theorem AnswersInside.stays (hchunk : 1 ≤ chunkSize) (hsum : offset + chunkSize < u64Max)
    (hoffset : offset < total) (hfaults : l.world.faults = []) (hfile : l.world.content.length = offset)
    (h : AnswersInside server offset chunkSize total) :
    StaysInside task server offset chunkSize total build l := by
  unfold StaysInside
  rcases hfetch : fetchChunk build server offset chunkSize total with (e | msg) | data
  · rw [downloadOneChunk_refused hoffset hfetch]
  · obtain ⟨resp, last, data, hresp, hoffered, hsize⟩ := fetchChunk_panic hchunk hsum hoffset hfetch
    have hlast := hoffered.last_lt
    exact absurd ⟨by omega, by omega⟩ (h resp last data hresp hoffered).1
  · obtain ⟨resp, last, hresp, hoffered, hlen⟩ := fetchChunk_offered hchunk hsum hoffset hfetch
    have hend := (h resp last data hresp hoffered).2 hlen
    have hstart := hoffered.start_le
    obtain ⟨l', -, hfile', hcall⟩ := downloadOneChunk_stores task hoffset hfetch hfaults hfile
    obtain ⟨contentRange, rangeTotal, hcr, hparse, -⟩ := hoffered.range
    rw [hcall, u64Add_of_lt (by omega)]
    refine ⟨resp, contentRange, offset, last, rangeTotal, data, hresp, hcr, hparse, hoffered.body,
      le_rfl, hend, hlen, ?_, ?_, ?_⟩
    · rw [hfile', ← hfile, writeAt_length]
    · show offset < offset + data.length
      omega
    · show offset + data.length ≤ total
      omega

/-- A call that stays inside its window has had such an answer. -/
theorem StaysInside.answers (hchunk : 1 ≤ chunkSize) (hsum : offset + chunkSize < u64Max)
    (hoffset : offset < total) (hfaults : l.world.faults = []) (hfile : l.world.content.length = offset)
    (h : StaysInside task server offset chunkSize total .debug l) :
    AnswersInside server offset chunkSize total := by
  intro resp last data hresp hoffered
  have hfetch : fetchChunk .debug server offset chunkSize total = acceptBody .debug offset total resp := by
    rw [fetchChunk_asks hchunk hsum (Nat.zero_lt_of_lt hoffset), hresp]
    rfl
  have hsize : last - offset + 1 < u64Max := by
    by_contra hge
    rw [hoffered.overflows (Nat.not_lt.1 hge)] at hfetch
    unfold StaysInside at h
    rw [downloadOneChunk_refused hoffset hfetch] at h
    exact h
  refine ⟨by omega, fun hlen => ?_⟩
  rw [hoffered.accepted .debug hsize hlen] at hfetch
  obtain ⟨l', -, -, hcall⟩ := downloadOneChunk_stores task hoffset hfetch hfaults hfile
  unfold StaysInside at h
  rw [hcall] at h
  cases hadd : u64Add .debug offset data.length with
  | error e =>
    rw [hadd] at h
    unfold u64Add at hadd
    split at hadd
    · cases hadd
    · cases hadd
      exact h.elim
  | ok next =>
    rw [hadd] at h
    obtain ⟨resp', contentRange', first', last', rangeTotal', data', hresp', hcr', hparse', -, -, hend, -⟩ := h
    obtain ⟨contentRange, rangeTotal, hcr, hparse, -⟩ := hoffered.range
    rw [hresp] at hresp'
    cases hresp'
    rw [hcr] at hcr'
    cases hcr'
    rw [hparse] at hparse'
    cases hparse'
    exact hend

/-- **A downloaded chunk and its window.** Against any answer, a call stays inside the window it asked
for, in every build, if and only if the answer does. -/
theorem chunk_stays_inside (hchunk : 1 ≤ chunkSize) (hsum : offset + chunkSize < u64Max)
    (hoffset : offset < total) (hfaults : l.world.faults = [])
    (hfile : l.world.content.length = offset) :
    (∀ build, StaysInside task server offset chunkSize total build l) ↔
      AnswersInside server offset chunkSize total := by
  constructor
  · intro h
    exact (h .debug).answers hchunk hsum hoffset hfaults hfile
  · intro h build
    exact h.stays hchunk hsum hoffset hfaults hfile

end

/-! ### Answers inside and beyond the window -/

/-- One byte of four is there, and chunks are two bytes long. -/
def sampleLocal : Local Disk Unit := ⟨⟨some [1], 0, [], false⟩, none⟩

/-- The window that is asked for. -/
def sampleWindow : RangeResponse where
  status := ⟨206, "206 Partial Content"⟩
  contentRange := some "bytes 1-2/4"
  text := ""
  body := .ok [2, 3]

theorem chunk_stays_inside_window :
    StaysInside DownloadRun.sampleDownload (fun _ => .ok sampleWindow) 1 2 4 .debug sampleLocal ∧
      StaysInside DownloadRun.sampleDownload (fun _ => .ok sampleWindow) 1 2 4 .release sampleLocal := by
  have hiff : (∀ build, StaysInside DownloadRun.sampleDownload (fun _ => .ok sampleWindow) 1 2 4 build
      sampleLocal) ↔ AnswersInside (fun _ => .ok sampleWindow) 1 2 4 :=
    chunk_stays_inside (by decide) (by decide) (by decide) rfl rfl
  have hinside : AnswersInside (fun _ => .ok sampleWindow) 1 2 4 := by
    intro resp last data hresp hoffered
    cases hresp
    obtain ⟨contentRange, rangeTotal, hcr, hparse, -⟩ := hoffered.range
    cases hcr
    have hrange : parseContentRange "bytes 1-2/4" = .ok (1, 2, some 4) := by decide
    rw [hrange] at hparse
    cases hparse
    exact ⟨by decide, fun _ => by decide⟩
  exact ⟨hiff.2 hinside .debug, hiff.2 hinside .release⟩

/-- A body of eight bytes, declared to end four bytes after the resource does. -/
def sampleBeyond : RangeResponse where
  status := ⟨206, "206 Partial Content"⟩
  contentRange := some "bytes 1-8/4"
  text := ""
  body := .ok [2, 3, 4, 5, 6, 7, 8, 9]

/-- It is written to the file, and the next offset is 9 of 4. -/
theorem sampleBeyond_accepted :
    (downloadOneChunk Disk.ops .debug DownloadRun.sampleDownload (fun _ => .ok sampleBeyond) 1 2 4
        sampleLocal).1 = .ok ⟨9, 4, true⟩ ∧
      ¬ StaysInside DownloadRun.sampleDownload (fun _ => .ok sampleBeyond) 1 2 4 .debug sampleLocal := by
  have hcall : downloadOneChunk Disk.ops .debug DownloadRun.sampleDownload (fun _ => .ok sampleBeyond) 1 2 4
      sampleLocal = (.ok ⟨9, 4, true⟩, ⟨⟨some [1, 2, 3, 4, 5, 6, 7, 8, 9], 9, [], false⟩, some ()⟩) := by
    rfl
  refine ⟨by rw [hcall], fun h => ?_⟩
  unfold StaysInside at h
  rw [hcall] at h
  obtain ⟨_, _, _, _, _, _, -, -, -, -, -, -, -, -, -, hnext⟩ := h
  exact absurd hnext (by decide)

end SpottedCat
