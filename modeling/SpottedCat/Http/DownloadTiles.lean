import SpottedCat.Http.DownloadWindow
import SpottedCat.Lib.Tiling
import SpottedCat.Worker.Moves

/-!
# The ranges that a download asks for (`exec.rs:177-263`, `default_http_client.rs:385-486`)

A worker that nobody cancels, with file calls that succeed and a server that answers each request with
the range it asks for. `Asking` runs it with a list of the `Range` headers it has sent.

* `requestOf`: the header of one call, and `downloadOneChunk_congr`: the server is asked nothing else;
* `Stage`: where such a run stands, and how many steps it has left; `Stage.step` is one of them;
* `rest_is_tiled`: the requests tile the rest of the resource, unless a sum leaves `u64`.
-/

namespace SpottedCat

/-! ## Requests -/

/-- The `Range` header of the call that the worker is in. There is none at the end of the resource, or
where the sum panics. -/
def requestOf (build : Build) (inner : InnerTask) : RunPc → Option String
  | .retry offset knownTotal (.calling _) =>
    if offset ≥ knownTotal then none
    else (rangeSpec build offset inner.chunkSize knownTotal).toOption
  | _ => none

/-- **One request.** A call depends on the server's answer to this header only. -/
theorem downloadOneChunk_congr {W H : Type} {fs : FileOps W H} {build : Build} {inner : InnerTask}
    {server server' : String → Except String RangeResponse} {offset knownTotal attempt : Nat}
    (h : ∀ spec, requestOf build inner (.retry offset knownTotal (.calling attempt)) = some spec →
      server spec = server' spec) :
    downloadOneChunk fs build inner server offset inner.chunkSize knownTotal =
      downloadOneChunk fs build inner server' offset inner.chunkSize knownTotal := by
  by_cases hend : offset ≥ knownTotal
  · unfold downloadOneChunk
    simp only [if_pos hend]
  · have hfetch : fetchChunk build server offset inner.chunkSize knownTotal =
        fetchChunk build server' offset inner.chunkSize knownTotal := by
      unfold fetchChunk
      cases hspec : rangeSpec build offset inner.chunkSize knownTotal with
      | error e => rfl
      | ok spec =>
        have hsame := h spec (by simp [requestOf, hend, hspec, Except.toOption])
        simp only [bind, Except.bind, hsame]
    unfold downloadOneChunk
    simp only [hfetch]

/-- A run of a worker, with the headers it has sent. -/
structure Asking where
  run : DownloadRun
  asked : List String

abbrev FetchAct :=
  DriveAct (List (Option Fault) × Except String HeadResponse)
    (List (Option Fault) × (String → Except String RangeResponse))

/-- The requests that a step adds. -/
def FetchAct.asks (build : Build) (r : DownloadRun) : FetchAct → List String
  | .chunk _ => (requestOf build r.inner r.pc).toList
  | _ => []

def Asking.step (build : Build) (s : Asking) (a : FetchAct) : Option Asking :=
  (Drive.step (downloads build) s.run a).map fun run => ⟨run, s.asked ++ a.asks build s.run⟩

/-! ## Exact answers -/

/-- The part of `R` from `first` to `last`, and nothing else. -/
structure ExactAnswer (R : Bytes) (first last : Nat) (resp : RangeResponse) : Prop where
  status : resp.status.code = 206
  range : ∃ contentRange rangeTotal, resp.contentRange = some contentRange ∧
    parseContentRange contentRange = .ok (first, last, rangeTotal) ∧
      (rangeTotal = none ∨ rangeTotal = some R.length)
  body : resp.body = .ok ((R.drop first).take (last - first + 1))

/-- Every request for a part of `R` gets that part. -/
def ExactServer (R : Bytes) (server : String → Except String RangeResponse) : Prop :=
  ∀ first last, first ≤ last → last < R.length →
    ∃ resp, server (windowSpec first last) = .ok resp ∧ ExactAnswer R first last resp

def ExactHead (R : Bytes) (head : Except String HeadResponse) : Prop :=
  ∃ resp, head = .ok resp ∧ resp.status.isSuccess ∧ totalSizeFromHead resp.contentLength = .ok R.length

/-- No file call fails, the server is exact, and the token is not cancelled. -/
def Undisturbed (R : Bytes) : FetchAct → Prop
  | .prepare (faults, head) => faults = [] ∧ ExactHead R head
  | .chunk (faults, server) => faults = [] ∧ ExactServer R server
  | .worker input => input.Sees false

variable {R : Bytes} {first last : Nat}

theorem ExactAnswer.length {resp : RangeResponse} {data : Bytes} (h : ExactAnswer R first last resp)
    (hlast : last < R.length) (horder : first ≤ last) (hbody : resp.body = .ok data) :
    data.length = last - first + 1 := by
  rw [h.body] at hbody
  cases hbody
  rw [List.length_take, List.length_drop]
  omega

theorem ExactAnswer.offered {resp : RangeResponse} (h : ExactAnswer R first last resp)
    (hlast : last < R.length) (horder : first ≤ last) :
    Offered first R.length resp last ((R.drop first).take (last - first + 1)) := by
  refine ⟨h.status, h.range, h.body, fun hnil => ?_⟩
  have hlen := h.length hlast horder h.body
  rw [hnil] at hlen
  simp at hlen

/-- There is such a server: it reads the header and answers in the standard form. -/
def exactServer (R : Bytes) (spec : String) : Except String RangeResponse :=
  match parseRangeSpec spec with
  | some (first, last) => .ok
    { status := ⟨206, "206 Partial Content"⟩
      contentRange := some s!"bytes {first}-{last}/{R.length}"
      text := ""
      body := .ok ((R.drop first).take (last - first + 1)) }
  | none => .error "bad request"

theorem exactServer_exact (hR : R.length < u64Max) : ExactServer R (exactServer R) := by
  intro first last horder hlast
  have hread : parseRangeSpec (windowSpec first last) = some (first, last) :=
    parseRangeSpec_windowSpec (by omega) (by omega)
  have hrange : parseContentRange s!"bytes {first}-{last}/{R.length}" = .ok (first, last, some R.length) :=
    parseContentRange_standard horder (by omega) hR
  unfold exactServer
  rw [hread]
  exact ⟨_, rfl, rfl, ⟨_, some R.length, rfl, hrange, .inr rfl⟩, rfl⟩

def exactHead (R : Bytes) : Except String HeadResponse := .ok ⟨⟨200, "200 OK"⟩, some (toString R.length)⟩

theorem exactHead_exact (hR : R.length < u64Max) (hne : 0 < R.length) : ExactHead R (exactHead R) := by
  refine ⟨_, rfl, rfl, ?_⟩
  have hread : parseU64 (toString R.length).toList = some R.length := by
    simp [toString, Nat.toList_repr, parseU64_digitsOf hR]
  simp only [totalSizeFromHead, Option.bind_some, hread]
  exact if_pos hne

section
variable (task : InnerTask) {build : Build} {l : Local Disk Unit} {head : Except String HeadResponse}
  {server : String → Except String RangeResponse} {chunkSize : Nat}

theorem downloadPrepare_exact (hhead : ExactHead R head) (hfaults : l.world.faults = [])
    (hstart : l.world.content.length < R.length) :
    ∃ l', l'.world.content = l.world.content ∧
      downloadPrepare Disk.ops task head l = (.ok ⟨l.world.content.length, R.length⟩, l') := by
  have hfault : l.world.fault = none := by
    rw [Disk.fault, hfaults]
    rfl
  have hlen : localLen Disk.ops task l = (.ok l.world.content.length, { l with world := l.world.next }) := by
    simp only [localLen, Disk.ops, hfault, Disk.content]
    cases l.world.file <;> rfl
  obtain ⟨resp, rfl, hstatus, htotal⟩ := hhead
  have hplan : planResume l.world.content.length (.ok resp) = .ok ⟨l.world.content.length, R.length⟩ := by
    simp only [planResume, mapReqwest, bind, Except.bind, htotal]
    rw [if_neg (not_not.2 hstatus), if_neg (by omega), if_neg (by omega)]
    rfl
  refine ⟨{ l with world := l.world.next }, rfl, ?_⟩
  simp only [downloadPrepare, bind, Comp.bind, hlen, Comp.lift, hplan]

/-- A chunk of an exact server reaches the end of its window. -/
theorem downloadOneChunk_exact (hserver : ExactServer R server) (hchunk : 1 ≤ chunkSize)
    (hR : R.length < u64Max) (hfaults : l.world.faults = []) (hoffset : l.world.content.length < R.length)
    (hsum : l.world.content.length + chunkSize < u64Max) :
    ∃ l', l'.world.content.length = min (l.world.content.length + chunkSize) R.length ∧
      downloadOneChunk Disk.ops build task server l.world.content.length chunkSize R.length l =
        (.ok ⟨min (l.world.content.length + chunkSize) R.length, R.length,
          decide (min (l.world.content.length + chunkSize) R.length ≥ R.length)⟩, l') := by
  generalize hlast : min (l.world.content.length + chunkSize) R.length - 1 = last
  have horder : l.world.content.length ≤ last := by omega
  obtain ⟨resp, hresp, hexact⟩ := hserver l.world.content.length last horder (by omega)
  have hlen := hexact.length (by omega) horder hexact.body
  have hfetch : fetchChunk build server l.world.content.length chunkSize R.length =
      .ok ((R.drop l.world.content.length).take (last - l.world.content.length + 1)) := by
    rw [fetchChunk_asks hchunk hsum (by omega), hlast, hresp]
    exact (hexact.offered (by omega) horder).accepted build (by omega) hlen
  obtain ⟨l', -, hfile, hcall⟩ := downloadOneChunk_stores task hoffset hfetch hfaults rfl
  have hnext : l.world.content.length + (last - l.world.content.length + 1) =
      min (l.world.content.length + chunkSize) R.length := by omega
  refine ⟨l', ?_, ?_⟩
  · rw [Disk.content, hfile, Option.getD_some, List.length_append, hlen, hnext]
  · rw [hcall, hlen, u64Add_of_lt (by omega), hnext]
    rfl

end

/-! ## One step of the run -/

/-- The headers for some windows. -/
def specs (windows : List (Nat × Nat)) : List String := windows.map fun w => windowSpec w.1 w.2

/-- Between two chunks: the file reaches to `offset`, and what was asked for are the windows before it. -/
structure OnTrack (R : Bytes) (start offset : Nat) (s : Asking) : Prop where
  length : s.run.loc.world.content.length = offset
  asked : ∃ before, s.asked = specs before ∧
    tiles s.run.inner.chunkSize start R.length = before ++ tiles s.run.inner.chunkSize offset R.length

/-- Where the worker stands, with `left` steps before it has ended: four for each window. -/
def Stage (R : Bytes) (start : Nat) (s : Asking) (left : Nat) : Prop :=
  let size := s.run.inner.chunkSize
  match s.run.pc with
  | .preparing => OnTrack R start start s ∧ start < R.length ∧ left = 4 * (tiles size start R.length).length + 2
  | .loopHead offset knownTotal =>
    OnTrack R start offset s ∧ knownTotal = R.length ∧ offset < R.length ∧
      left = 4 * (tiles size offset R.length).length + 1
  | .retry offset knownTotal (.head _) =>
    OnTrack R start offset s ∧ knownTotal = R.length ∧ offset < R.length ∧
      left = 4 * (tiles size offset R.length).length
  | .retry offset knownTotal (.calling _) =>
    OnTrack R start offset s ∧ knownTotal = R.length ∧ offset < R.length ∧
      left + 1 = 4 * (tiles size offset R.length).length
  | .retry _ _ (.waiting _) | .joining => False
  | .report offset knownTotal done =>
    OnTrack R start offset s ∧ knownTotal = R.length ∧ offset ≤ R.length ∧
      done = decide (offset ≥ R.length) ∧ left = 4 * (tiles size offset R.length).length + 2
  | .finish event =>
    OnTrack R start R.length s ∧ event = .completed s.run.inner.dedupeKey R.length ∧ left = 1
  | .ended =>
    OnTrack R start R.length s ∧
      s.run.sent.getLast? = some (.completed s.run.inner.dedupeKey R.length) ∧ left = 0

variable {start left : Nat} {s s' : Asking} {build : Build} {a : FetchAct}

theorem Stage.prepare {head : Except String HeadResponse} (hstage : Stage R start s left)
    (hhead : ExactHead R head) (h : s.step build (.prepare ([], head)) = some s') :
    s'.run.inner = s.run.inner ∧ ∃ left', left = left' + 1 ∧ Stage R start s' left' := by
  obtain ⟨run, hrun, rfl⟩ := Option.map_eq_some_iff.1 h
  have hpc : s.run.pc = .preparing := by
    obtain ⟨ret, loc, pc', out, -, hstep, -⟩ := Drive.step_prepare_eq hrun
    exact (runStep_prepared hstep).1
  unfold Stage at hstage
  rw [hpc] at hstage
  obtain ⟨htrack, hstart, rfl⟩ := hstage
  have hlength : (s.run.loc.plan []).world.content.length = start := htrack.length
  obtain ⟨loc, hcontent, hcall⟩ := downloadPrepare_exact s.run.inner hhead rfl (hlength.trans_lt hstart)
  rw [Drive.step_prepare hpc hcall, hlength] at hrun
  cases hrun
  refine ⟨rfl, _, rfl, ⟨?_, ?_⟩, if_pos (by simp only; omega), hstart, rfl⟩
  · exact (congrArg List.length hcontent).trans hlength
  · obtain ⟨before, hasked, htiles⟩ := htrack.asked
    exact ⟨before, (List.append_nil s.asked).trans hasked, htiles⟩

/-- A chunk asks for the first of the windows that are left. -/
theorem Stage.chunk {server : String → Except String RangeResponse} (hstage : Stage R start s left)
    (hR : R.length < u64Max) (hchunk : 1 ≤ s.run.inner.chunkSize)
    (hfit : ∀ w ∈ tiles s.run.inner.chunkSize start R.length, w.1 + s.run.inner.chunkSize < u64Max)
    (hserver : ExactServer R server) (h : s.step build (.chunk ([], server)) = some s') :
    s'.run.inner = s.run.inner ∧ ∃ left', left = left' + 1 ∧ Stage R start s' left' := by
  obtain ⟨run, hrun, rfl⟩ := Option.map_eq_some_iff.1 h
  obtain ⟨offset, knownTotal, attempt, hpc⟩ := Drive.step_chunk_pc hrun
  unfold Stage at hstage
  rw [hpc] at hstage
  obtain ⟨htrack, rfl, hoffset, hleft⟩ := hstage
  obtain ⟨before, hasked, htiles⟩ := htrack.asked
  rw [tiles_cons hchunk hoffset] at htiles hleft
  have hsum : offset + s.run.inner.chunkSize < u64Max := by
    apply hfit (offset, min (offset + s.run.inner.chunkSize) R.length - 1)
    rw [htiles]
    simp
  have hspec : requestOf build s.run.inner s.run.pc =
      some (windowSpec offset (min (offset + s.run.inner.chunkSize) R.length - 1)) := by
    rw [hpc, requestOf, if_neg (by omega), rangeSpec_ok hchunk hsum (by omega)]
    rfl
  have hlength : (s.run.loc.plan []).world.content.length = offset := htrack.length
  obtain ⟨loc, hlength', hcall⟩ := downloadOneChunk_exact s.run.inner (l := s.run.loc.plan []) hserver
    hchunk hR rfl (by rwa [hlength]) (by rwa [hlength])
  rw [hlength] at hlength' hcall
  rw [Drive.step_chunk hpc hcall] at hrun
  cases hrun
  refine ⟨rfl, 4 * (tiles s.run.inner.chunkSize (min (offset + s.run.inner.chunkSize) R.length) R.length).length + 2,
    ?_, ⟨hlength', ?_⟩, if_pos (by simp only; omega), Nat.min_le_right _ _, rfl, rfl⟩
  · rw [List.length_cons] at hleft
    omega
  · refine ⟨before ++ [(offset, min (offset + s.run.inner.chunkSize) R.length - 1)], ?_, ?_⟩
    · show s.asked ++ FetchAct.asks build s.run (.chunk ([], server)) = _
      simp [FetchAct.asks, hspec, hasked, specs]
    · show tiles s.run.inner.chunkSize start R.length = _
      rw [htiles, List.append_assoc]
      rfl

/-- The steps between the calls: the token is not cancelled, and each report is sent. -/
theorem Stage.worker {input : RunIn} (hstage : Stage R start s left) (hchunk : 1 ≤ s.run.inner.chunkSize)
    (hsees : input.Sees false) (h : s.step build (.worker input) = some s') :
    s'.run.inner = s.run.inner ∧ ∃ left', left = left' + 1 ∧ Stage R start s' left' := by
  obtain ⟨run, hrun, rfl⟩ := Option.map_eq_some_iff.1 h
  have hkept {offset : Nat} {pc : RunPc} {sent : List WorkerEvent} (htrack : OnTrack R start offset s) :
      OnTrack R start offset ⟨{ s.run with pc := pc, sent := sent }, s.asked ++ []⟩ := by
    obtain ⟨before, hasked, htiles⟩ := htrack.asked
    exact ⟨htrack.length, before, (List.append_nil s.asked).trans hasked, htiles⟩
  unfold Stage at hstage
  cases Drive.step_moves hrun with
  | entered hpc =>
    rw [hpc] at hstage
    obtain ⟨htrack, rfl, hoffset, hleft⟩ := hstage
    exact ⟨rfl, _, hleft, hkept htrack, rfl, hoffset, rfl⟩
  | @attempted offset knownTotal attempt hpc =>
    rw [hpc] at hstage
    obtain ⟨htrack, rfl, hoffset, hleft⟩ := hstage
    have hpos := List.length_pos_iff.2 (tiles_ne_nil hchunk hoffset)
    refine ⟨rfl, left - 1, by omega, hkept htrack, rfl, hoffset, ?_⟩
    show left - 1 + 1 = 4 * (tiles s.run.inner.chunkSize offset R.length).length
    omega
  | halted | quit => cases hsees
  | slept hpc | interrupted hpc | joined hpc =>
    rw [hpc] at hstage
    exact hstage.elim
  | @reported offset knownTotal done hpc =>
    rw [hpc] at hstage
    obtain ⟨htrack, rfl, hle, rfl, hleft⟩ := hstage
    by_cases hend : offset ≥ R.length
    · obtain rfl : offset = R.length := Nat.le_antisymm hle hend
      rw [tiles_done le_rfl] at hleft
      rw [decide_eq_true hend, if_pos rfl]
      exact ⟨rfl, 1, hleft, hkept htrack, rfl, rfl⟩
    · rw [decide_eq_false hend, if_neg Bool.false_ne_true]
      exact ⟨rfl, _, hleft, hkept htrack, rfl, Nat.lt_of_not_le hend, rfl⟩
  | concluded hpc =>
    rw [hpc] at hstage
    obtain ⟨htrack, rfl, rfl⟩ := hstage
    refine ⟨rfl, 0, rfl, hkept htrack, ?_, rfl⟩
    simp

/-- **One step** of an undisturbed run. -/
theorem Stage.step (hstage : Stage R start s left) (hR : R.length < u64Max) (hchunk : 1 ≤ s.run.inner.chunkSize)
    (hfit : ∀ w ∈ tiles s.run.inner.chunkSize start R.length, w.1 + s.run.inner.chunkSize < u64Max)
    (ha : Undisturbed R a) (h : s.step build a = some s') :
    s'.run.inner = s.run.inner ∧ ∃ left', left = left' + 1 ∧ Stage R start s' left' := by
  rcases a with ⟨faults, head⟩ | ⟨faults, server⟩ | input
  · obtain ⟨rfl, hhead⟩ := ha
    exact hstage.prepare hhead h
  · obtain ⟨rfl, hserver⟩ := ha
    exact hstage.chunk hR hchunk hfit hserver h
  · exact hstage.worker hchunk ha h

/-- An undisturbed run is not stuck before it has ended. -/
theorem Asking.exists_step (hR : R.length < u64Max) (hne : 0 < R.length) (hpc : s.run.pc ≠ .ended)
    (build : Build) : ∃ a s', Undisturbed R a ∧ s.step build a = some s' := by
  obtain ⟨a, run, hrun, hact⟩ := Drive.exists_step (downloads build) hpc ([], exactHead R) ([], exactServer R)
  refine ⟨a, ⟨run, s.asked ++ FetchAct.asks build s.run a⟩, ?_, by rw [Asking.step, hrun]; rfl⟩
  rcases hact with ⟨rfl, -⟩ | rfl | ⟨input, rfl, hsees⟩
  · exact ⟨rfl, exactHead_exact hR hne⟩
  · exact ⟨rfl, exactServer_exact hR⟩
  · exact hsees

/-- What has been asked for so far are the first of the windows. -/
theorem Stage.asked (hstage : Stage R start s left) :
    s.asked <+: specs (tiles s.run.inner.chunkSize start R.length) := by
  have htrack : ∃ offset, OnTrack R start offset s := by
    unfold Stage at hstage
    cases hp : s.run.pc with
    | retry offset knownTotal rpc =>
      rw [hp] at hstage
      cases rpc with
      | head | calling => exact ⟨_, hstage.1⟩
      | waiting => exact hstage.elim
    | joining =>
      rw [hp] at hstage
      exact hstage.elim
    | preparing | loopHead | report | finish | ended =>
      rw [hp] at hstage
      exact ⟨_, hstage.1⟩
  obtain ⟨offset, -, before, hasked, htiles⟩ := htrack
  rw [hasked, htiles, specs, specs, List.map_append]
  exact List.prefix_append _ _

/-- **A run** of undisturbed steps. -/
theorem Stage.run {acts : List FetchAct} (hstage : Stage R start s left) (hR : R.length < u64Max)
    (hchunk : 1 ≤ s.run.inner.chunkSize)
    (hfit : ∀ w ∈ tiles s.run.inner.chunkSize start R.length, w.1 + s.run.inner.chunkSize < u64Max)
    (hacts : ∀ a ∈ acts, Undisturbed R a) (h : Lts.run (Asking.step build) s acts = some s') :
    s'.run.inner = s.run.inner ∧ ∃ left', left = left' + acts.length ∧ Stage R start s' left' := by
  induction acts generalizing s left with
  | nil =>
    cases h
    exact ⟨rfl, left, rfl, hstage⟩
  | cons a acts ih =>
    rw [List.forall_mem_cons] at hacts
    obtain ⟨s1, hs1, hrun⟩ := Lts.run_cons.1 h
    obtain ⟨hinner, left1, hleft1, hstage1⟩ := hstage.step hR hchunk hfit hacts.1 hs1
    rw [← hinner] at hchunk hfit
    obtain ⟨hinner', left', hleft', hstage'⟩ := ih hstage1 hchunk hfit hacts.2 hrun
    refine ⟨hinner'.trans hinner, left', ?_, hstage'⟩
    rw [List.length_cons]
    omega

/-! ## Every run -/

/-- The undisturbed run of `acts` from `r` ends in `s`. -/
def Reaches (build : Build) (R : Bytes) (r : DownloadRun) (acts : List FetchAct) (s : Asking) : Prop :=
  (∀ a ∈ acts, Undisturbed R a) ∧ Lts.run (Asking.step build) ⟨r, []⟩ acts = some s

/-- An undisturbed worker asks for the consecutive windows of `[start, R.length)`, one after the other;
it is never stuck, it ends after four steps for each window and two more, and then it has asked for all of
them and has sent `Completed` last. -/
structure TilesRest (build : Build) (R : Bytes) (start : Nat) (r : DownloadRun) : Prop where
  partition : Partitions r.inner.chunkSize start R.length (tiles r.inner.chunkSize start R.length)
  asked : ∀ acts s, Reaches build R r acts s → s.asked <+: specs (tiles r.inner.chunkSize start R.length)
  next : ∀ acts s, Reaches build R r acts s → s.run.pc ≠ .ended →
    ∃ a s', Undisturbed R a ∧ s.step build a = some s'
  bounded : ∀ acts s, Reaches build R r acts s →
    acts.length ≤ 4 * (tiles r.inner.chunkSize start R.length).length + 2
  ended : ∀ acts s, Reaches build R r acts s → s.run.pc = .ended →
    s.asked = specs (tiles r.inner.chunkSize start R.length) ∧
      s.run.sent.getLast? = some (.completed r.inner.dedupeKey R.length)

variable {r : DownloadRun}

/-- Sums that stay in `u64` are enough. -/
theorem TilesRest.of_fit (hR : R.length < u64Max) (hchunk : 1 ≤ r.inner.chunkSize) (hpc : r.pc = .preparing)
    (hfile : r.loc.world.content.length = start) (hstart : start < R.length)
    (hfit : ∀ w ∈ tiles r.inner.chunkSize start R.length, w.1 + r.inner.chunkSize < u64Max) :
    TilesRest build R start r := by
  have hinit : Stage R start ⟨r, []⟩ (4 * (tiles r.inner.chunkSize start R.length).length + 2) := by
    unfold Stage
    simp only [hpc]
    exact ⟨⟨hfile, [], rfl, rfl⟩, hstart, trivial⟩
  refine ⟨tiles_partition hchunk start R.length, fun acts s h => ?_, fun acts s h hne => ?_,
    fun acts s h => ?_, fun acts s h hended => ?_⟩
  · obtain ⟨hinner, left, -, hstage⟩ := hinit.run hR hchunk hfit h.1 h.2
    have := hstage.asked
    rwa [hinner] at this
  · exact Asking.exists_step hR (by omega) hne build
  · obtain ⟨hinner, left, hleft, -⟩ := hinit.run hR hchunk hfit h.1 h.2
    omega
  · obtain ⟨hinner, left, -, hstage⟩ := hinit.run hR hchunk hfit h.1 h.2
    unfold Stage at hstage
    rw [hended] at hstage
    obtain ⟨⟨-, before, hasked, htiles⟩, hsent, -⟩ := hstage
    rw [tiles_done le_rfl, List.append_nil] at htiles
    rw [hinner] at htiles hsent
    exact ⟨by rw [hasked, htiles], hsent⟩

/-- Every header that was sent is for a window whose sum stays in `u64`. -/
def Asking.Fits (s : Asking) : Prop :=
  ∀ spec ∈ s.asked, ∃ first last, spec = windowSpec first last ∧ last < u64Max ∧
    first + s.run.inner.chunkSize < u64Max

/-- In a debug build no other header is sent: the sum would have panicked. -/
theorem Asking.Fits.step (hfits : s.Fits) (hchunk : 1 ≤ s.run.inner.chunkSize)
    (h : s.step .debug a = some s') : s'.Fits ∧ s'.run.inner = s.run.inner := by
  obtain ⟨run, hrun, rfl⟩ := Option.map_eq_some_iff.1 h
  have hinner := Drive.step_inner hrun
  refine ⟨?_, hinner⟩
  intro spec hspec
  simp only [hinner]
  rcases List.mem_append.1 hspec with hold | hnew
  · exact hfits spec hold
  · rcases a with _ | _ | _
    · cases hnew
    · obtain ⟨offset, knownTotal, attempt, hpc⟩ := Drive.step_chunk_pc hrun
      simp only [FetchAct.asks, hpc, requestOf, Option.mem_toList] at hnew
      split at hnew
      · cases hnew
      · rename_i hoffset
        by_cases hsum : offset + s.run.inner.chunkSize < u64Max
        · rw [rangeSpec_ok hchunk hsum (by omega)] at hnew
          cases hnew
          exact ⟨offset, _, rfl, by omega, hsum⟩
        · rw [rangeSpec_overflow (Nat.not_lt.1 hsum) (by omega)] at hnew
          cases hnew
    · cases hnew

theorem Asking.Fits.run {acts : List FetchAct} (hfits : s.Fits) (hchunk : 1 ≤ s.run.inner.chunkSize)
    (h : Lts.run (Asking.step .debug) s acts = some s') : s'.Fits ∧ s'.run.inner = s.run.inner := by
  induction acts generalizing s with
  | nil =>
    cases h
    exact ⟨hfits, rfl⟩
  | cons a acts ih =>
    obtain ⟨s1, hs1, hrun⟩ := Lts.run_cons.1 h
    obtain ⟨hfits1, hinner1⟩ := hfits.step hchunk hs1
    obtain ⟨hfits', hinner'⟩ := ih hfits1 (by rwa [hinner1]) hrun
    exact ⟨hfits', hinner'.trans hinner1⟩

theorem windowSpec_inj {first last first' last' : Nat} (h : windowSpec first last = windowSpec first' last')
    (hlast : first < u64Max ∧ last < u64Max) (hlast' : first' < u64Max ∧ last' < u64Max) : first = first' := by
  have hread := parseRangeSpec_windowSpec hlast.1 hlast.2
  rw [h, parseRangeSpec_windowSpec hlast'.1 hlast'.2] at hread
  cases hread
  rfl

/-- A debug build that asks for every window has computed every sum. -/
theorem TilesRest.fits (hR : R.length < u64Max) (hchunk : 1 ≤ r.inner.chunkSize)
    (h : TilesRest .debug R start r) :
    ∀ w ∈ tiles r.inner.chunkSize start R.length, w.1 + r.inner.chunkSize < u64Max := by
  -- some undisturbed run ends
  obtain ⟨acts, s, hacts, hrun, hended⟩ := Lts.exists_run (D := fun s : Asking => s.run.pc = .ended)
    (fun acts s ha hr => h.bounded acts s ⟨ha, hr⟩) (fun acts s ha hr hne => h.next acts s ⟨ha, hr⟩ hne)
  obtain ⟨hasked, -⟩ := h.ended acts s ⟨hacts, hrun⟩ hended
  have hinit : Asking.Fits ⟨r, []⟩ := fun spec hspec => nomatch hspec
  obtain ⟨hfits, hinner⟩ := hinit.run hchunk hrun
  intro w hw
  have hmem : windowSpec w.1 w.2 ∈ s.asked := by
    rw [hasked]
    exact List.mem_map_of_mem hw
  obtain ⟨first, last, hspec, hlast, hsum⟩ := hfits _ hmem
  rw [hinner] at hsum
  have hbounds := tiles_bounds hw
  rw [windowSpec_inj hspec ⟨by omega, by omega⟩ ⟨by omega, hlast⟩]
  exact hsum

/-- **The requests of a download** tile the rest of the resource, in every build, if and only if the last
window, taken at its full length, ends in `u64`. -/
theorem rest_is_tiled (hR : R.length < u64Max) (hchunk : 1 ≤ r.inner.chunkSize) (hpc : r.pc = .preparing)
    (hfile : r.loc.world.content.length = start) (hstart : start < R.length) :
    (∀ build, TilesRest build R start r) ↔
      start + (R.length - start + r.inner.chunkSize - 1) / r.inner.chunkSize * r.inner.chunkSize < u64Max := by
  rw [← tiles_fit_iff hchunk hstart]
  constructor
  · intro h
    exact (h .debug).fits hR hchunk
  · intro hfit build
    exact TilesRest.of_fit hR hchunk hpc hfile hstart hfit

/-! ### Two chunk sizes -/

/-- A run with `bytes` on the disk. -/
def sampleFetch (bytes : Bytes) (chunkSize : Nat) : DownloadRun where
  inner := { DownloadRun.sampleDownload with chunkSize := chunkSize }
  startOffset := 0
  pc := .preparing
  loc := ⟨⟨some bytes, 0, [], false⟩, none⟩
  last := bytes.length
  sent := []

theorem rest_is_tiled_small : TilesRest .debug [1, 2, 3, 4] 1 (sampleFetch [1] 2) ∧
    TilesRest .release [1, 2, 3, 4] 1 (sampleFetch [1] 2) := by
  have hiff : (∀ build, TilesRest build [1, 2, 3, 4] 1 (sampleFetch [1] 2)) ↔ _ :=
    rest_is_tiled (by decide) (by decide) rfl rfl (by decide)
  exact ⟨hiff.2 (by decide) .debug, hiff.2 (by decide) .release⟩

/-- One chunk of `u64::MAX` bytes for whatever is missing: a debug build panics on its first request, and
a release build asks for a window that ends before it begins. -/
theorem wideChunk_overflows :
    (Lts.final (Asking.step .debug) ⟨sampleFetch [1, 2] (u64Max - 1), []⟩
        [.prepare ([], exactHead [1, 2, 3, 4]), .worker (.token false), .worker (.attempt (.token false)),
          .chunk ([], exactServer [1, 2, 3, 4]), .worker (.joined "task 7 panicked"), .worker .sent]).run.sent =
        [.failed DownloadRun.sampleDownload.dedupeKey (runGroupPanicked "task 7 panicked")] ∧
      rangeSpec .release 2 (u64Max - 1) 4 = .ok "bytes=2-0" ∧
      ¬ TilesRest .debug [1, 2, 3, 4] 2 (sampleFetch [1, 2] (u64Max - 1)) := by
  refine ⟨by decide, by decide, fun h => ?_⟩
  have hmem : (2, min (2 + (u64Max - 1)) 4 - 1) ∈ tiles (u64Max - 1) 2 4 := by
    rw [tiles_cons (by decide) (by decide)]
    exact List.mem_cons_self
  exact absurd (h.fits (by decide) (by decide) _ hmem) (by decide)

end SpottedCat
