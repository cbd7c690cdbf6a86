import SpottedCat.Http.DownloadRun
import SpottedCat.Joint.Fleet

/-!
# Downloads from end to end

Scheduler, workers, `DefaultHttpClient` and the local files in one system: any number of tasks are enqueued,
paused, resumed, cancelled and enqueued again, their workers interleave, servers and file calls fail at will.
`downloads_delivered` is what a caller may rely on: a file never holds anything but a prefix of its resource, it
is never behind the progress that was reported of it, and after `Complete` it is the resource.

It needs honest servers, one file for each url, files that are absent or prefixes of their resources to begin with,
and that a url is not enqueued again before its earlier worker has settled: `Ownership` shows what happens otherwise.
And a write that returns `Ok` has taken effect here (`Disk.ops`); `Deferred` is about those that fail after that.
-/

namespace SpottedCat

/-- What happens in one `prepare`: the outcomes of the file calls, and the answer to the HEAD request of a
download; or what the call of an upload returns. -/
structure PrepareWorld where
  faults : List (Option Fault)
  head : Except String HeadResponse
  upload : Ret PrepareOutcome

/-- What happens in one `transfer_chunk`. -/
structure ChunkWorld where
  faults : List (Option Fault)
  server : String → Except String RangeResponse
  upload : Ret ChunkOutcome

/-- `DefaultHttpClient` (default_http_client.rs:700-744) as far as local files are written: uploads read theirs
only, and what their calls return is left open. -/
def deliveries (build : Build) : TransferTrait (Local Disk Unit) PrepareWorld ChunkWorld where
  prepare task localOffset call := fun l =>
    match task.direction with
    | .upload => (call.upload, l)
    | .download => (downloads build).prepare task localOffset (call.faults, call.head) l
  transferChunk task offset chunkSize remoteTotalSize call := fun l =>
    match task.direction with
    | .upload => (call.upload, l)
    | .download =>
      (downloads build).transferChunk task offset chunkSize remoteTotalSize (call.faults, call.server) l

/-- The file a download writes. An upload writes none. -/
def target (inner : InnerTask) : PathBuf ⊕ UniqueId :=
  match inner.direction with
  | .download => .inl inner.filePath
  | .upload => .inr inner.dedupeKey

/-- A file that is to become `R`. -/
def downloadContract (R : Bytes) : Contract Disk Unit where
  sound d := d.content <+: R
  reached d n := n ≤ d.content.length
  whole d := d.content = R ∧ R ≠ []
  between offset knownTotal l := Tracks R l.world.content offset knownTotal
  -- `prepare` goes by the length of the file
  relies := False
  reached_zero := fun _ _ => Nat.zero_le _
  between_reached := fun _ _ _ h => h.offset.le

def HonestDelivery (R : Bytes) : DriveAct PrepareWorld ChunkWorld → Prop
  | .prepare call => HonestHead R call.head
  | .chunk call => HonestServer R call.server
  | .worker _ => True

section
variable {R : Bytes} {build : Build} {inner : InnerTask}

/-- A call of a download only appends to the file. -/
theorem downloads_append {l : Local Disk Unit} :
    (∀ startOffset faults head, HonestHead R head →
      Triple (· = l) ((downloads build).prepare inner startOffset (faults, head))
        (fun _ l' => l.world.content <+: l'.world.content) (fun _ l' => l.world.content <+: l'.world.content)) ∧
    ∀ offset knownTotal faults server, HonestServer R server → l.world.content <+: R →
      Tracks R l.world.content offset knownTotal →
      Triple (· = l) ((downloads build).transferChunk inner offset inner.chunkSize knownTotal (faults, server))
        (fun _ l' => l.world.content <+: l'.world.content) (fun _ l' => l.world.content <+: l'.world.content) := by
  have hplan (faults : List (Option Fault)) (l0 : Local Disk Unit) (h : l0 = l) :
      Holds False l.world.content l.world.torn (l0.plan faults) := Holds.plan (fun hf => hf.elim) h
  constructor
  · intro startOffset faults head hhead
    refine ((downloadPrepare_spec inner hhead).precomp (hplan faults)).mono (fun _ h => h) ?_ ?_
    · rintro outcome l' ⟨-, hl'⟩
      rw [hl'.content]
    · rintro e l' hl'
      rw [hl'.content]
  · rintro offset knownTotal faults server hserver hbs ⟨rfl, rfl, hpos, hlt⟩
    refine ((downloadOneChunk_spec build inner inner.chunkSize hserver hbs hlt).precomp (hplan faults)).mono
      (fun _ h => h) ?_ ?_
    · rintro outcome l' ⟨data, -, hcontent, -⟩
      rw [hcontent]
      exact List.prefix_append _ _
    · rintro e l' ⟨part, -, hcontent, -⟩
      rw [hcontent]
      exact List.prefix_append _ _

/-- The file of the moment can be resumed. -/
theorem Resumable.now {d : Disk} (h : d.content <+: R) : Resumable R False d d.content.length :=
  ⟨h, fun _ => rfl, fun hf => hf.elim⟩

theorem downloadContract_since {d d' : Disk} (hsound : d'.content <+: R) (hgrown : d.content <+: d'.content)
    (hwhole : (d.content = R ∧ R ≠ []) → d'.content = R ∧ R ≠ []) : (downloadContract R).Since d d' where
  sound := hsound
  reached := fun _ hn => Nat.le_trans hn hgrown.length_le
  whole := hwhole

/-- **Downloads keep their contract.** -/
theorem deliveries_honour (hdown : inner.direction = .download) :
    Honours (deliveries build) (downloadContract R) (HonestDelivery R) inner where
  prepare := by
    rintro ⟨faults, head, upload⟩ startOffset l hhead hl - -
    have hall : Keeps (downloads build) (downloadInv R False) _ inner startOffset := downloads_keeps inner startOffset
    have hkeeps := hall.prepare (faults, head) l
      l.world.content.length ⟨hhead, fun hf => hf.elim⟩ (Resumable.now hl) trivial
    have hcall : (deliveries build).prepare inner startOffset ⟨faults, head, upload⟩ =
        (downloads build).prepare inner startOffset (faults, head) := by
      funext l
      simp only [deliveries, hdown]
    rw [hcall]
    refine (hkeeps.and (downloads_append.1 startOffset faults head hhead)).mono (fun _ h => h) ?_ ?_
    · rintro outcome l' ⟨⟨halways, hwhole, hbetween⟩, hgrown⟩
      exact ⟨downloadContract_since halways.content hgrown hwhole, hbetween⟩
    · rintro e l' ⟨⟨halways, hwhole⟩, hgrown⟩
      exact downloadContract_since halways.content hgrown hwhole
  chunk := by
    rintro ⟨faults, server, upload⟩ l offset knownTotal hserver hl hbetween
    have hall : Keeps (downloads build) (downloadInv R False) _ inner 0 := downloads_keeps inner 0
    have hkeeps := hall.chunk (faults, server) l
      l.world.content.length offset knownTotal ⟨hserver, fun hf => hf.elim⟩ (Resumable.now hl) hbetween
    have hcall : (deliveries build).transferChunk inner offset inner.chunkSize knownTotal ⟨faults, server, upload⟩ =
        (downloads build).transferChunk inner offset inner.chunkSize knownTotal (faults, server) := by
      funext l
      simp only [deliveries, hdown]
    rw [hcall]
    refine (hkeeps.and (downloads_append.2 offset knownTotal faults server hserver hl hbetween)).mono
      (fun _ h => h) ?_ ?_
    · rintro outcome l' ⟨⟨halways, hwhole, hbetween', hdone⟩, hgrown⟩
      exact ⟨downloadContract_since halways.content hgrown hwhole, hbetween', hdone⟩
    · rintro e l' ⟨⟨halways, hwhole, hretry⟩, hgrown⟩
      exact ⟨downloadContract_since halways.content hgrown hwhole, hretry⟩

end

/-! ## The system -/

abbrev DeliveryFleet := Fleet (PathBuf ⊕ UniqueId) Disk Unit

/-- Files are there already, or not. -/
def DeliveryFleet.init (maxUpload maxDownload : Nat) (disks : PathBuf → Disk) : DeliveryFleet :=
  Fleet.init maxUpload maxDownload (Sum.elim disks fun _ => ⟨none, 0, [], false⟩)

def DeliveryFleet.step (build : Build) (fl : DeliveryFleet) :
    FleetAct PrepareWorld ChunkWorld → Option DeliveryFleet :=
  Fleet.step (deliveries build) target fl

def DeliveryFleet.disk (fl : DeliveryFleet) (path : PathBuf) : Disk := fl.worlds (.inl path)

/-- The file at a path is for the url that `home` says. -/
def deliveryContract (remote : String → Bytes) (home : PathBuf → String) :
    PathBuf ⊕ UniqueId → Contract Disk Unit
  | .inl path => downloadContract (remote (home path))
  | .inr _ => .unsaid Disk Unit

/-- One url for each file. -/
def Housed (home : PathBuf → String) (inner : InnerTask) : Prop :=
  inner.direction = .download → home inner.filePath = inner.url

/-- Servers send no foreign bytes. -/
def HonestFor (remote : String → Bytes) (inner : InnerTask) (a : DriveAct PrepareWorld ChunkWorld) : Prop :=
  inner.direction = .download → HonestDelivery (remote inner.url) a

section
variable {build : Build} {remote : String → Bytes} {home : PathBuf → String}

theorem target_download {inner : InnerTask} (h : inner.direction = .download) :
    target inner = .inl inner.filePath := by
  simp only [target, h]

theorem target_upload {inner : InnerTask} (h : inner.direction = .upload) :
    target inner = .inr inner.dedupeKey := by
  simp only [target, h]

theorem deliveries_admit : Admits (deliveries build) target (deliveryContract remote home) (HonestFor remote)
    (Housed home) where
  honours := by
    intro inner hhoused
    cases hdirection : inner.direction with
    | download =>
      rw [target_download hdirection]
      have h : Honours (deliveries build) (downloadContract (remote inner.url)) _ inner :=
        deliveries_honour hdirection
      simp only [deliveryContract, hhoused hdirection]
      exact ⟨fun a startOffset l hfair => h.prepare a startOffset l (hfair hdirection),
        fun b l offset knownTotal hfair => h.chunk b l offset knownTotal (hfair hdirection)⟩
    | upload =>
      rw [target_upload hdirection]
      exact .unsaid _ _ _
  exclusive := by
    intro inner inner' hhoused hhoused' hsame
    cases hdirection : inner.direction with
    | download =>
      cases hdirection' : inner'.direction with
      | download =>
        rw [target_download hdirection, target_download hdirection'] at hsame
        have hpath : inner.filePath = inner'.filePath := Sum.inl.inj hsame
        have hurl : inner.url = inner'.url := by
          rw [← hhoused hdirection, ← hhoused' hdirection', hpath]
        simp only [InnerTask.dedupeKey, hdirection, hdirection', hurl]
      | upload =>
        rw [target_download hdirection, target_upload hdirection'] at hsame
        cases hsame
    | upload =>
      cases hdirection' : inner'.direction with
      | download =>
        rw [target_upload hdirection, target_download hdirection'] at hsame
        cases hsame
      | upload =>
        rw [target_upload hdirection, target_upload hdirection'] at hsame
        exact Sum.inr.inj hsame
  anchored := by
    intro inner inner' _ _ _ hrelies
    cases hdirection : inner.direction with
    | download =>
      rw [target_download hdirection] at hrelies
      exact hrelies.elim
    | upload =>
      rw [target_upload hdirection] at hrelies
      exact hrelies.elim

/-- **Downloads from end to end.** In every run in which each file is absent or a prefix of its resource at the
start, servers are honest, a file call that succeeds has taken effect when it returns, each file is for one url, and
a url is enqueued again only when its key is quiet: the file of a task is absent or a prefix of its resource; it has
at least as many bytes as any worker of the task has reported; and from the `Complete` record on it is the
resource. -/
theorem downloads_delivered {maxUpload maxDownload : Nat} {disks : PathBuf → Disk}
    {acts : List (FleetAct PrepareWorld ChunkWorld)} {fl : DeliveryFleet} {inner : InnerTask}
    (hdisks : ∀ path bs, (disks path).file = some bs → bs <+: remote (home path))
    (hrun : Lts.run (DeliveryFleet.step build) (.init maxUpload maxDownload disks) acts = some fl)
    (hterms : Lts.Meets (DeliveryFleet.step build) (Terms (HonestFor remote) (Housed home))
      (.init maxUpload maxDownload disks) acts)
    (hinner : inner ∈ fl.tasks) (hdown : inner.direction = .download) :
    (∀ bs, (fl.disk inner.filePath).file = some bs → bs <+: remote inner.url) ∧
      (∀ key n total, (inner.taskId, .progress key n total) ∈ fl.sys.pool.sent →
        n ≤ (fl.disk inner.filePath).content.length) ∧
      ∀ e ∈ fl.sys.loop.log, ∀ dto, e.record = some dto → dto.taskId = inner.taskId →
        dto.status = .complete → (fl.disk inner.filePath).file = some (remote inner.url) := by
  have hworlds (c : PathBuf ⊕ UniqueId) : (deliveryContract remote home c).sound
      (Sum.elim disks (fun _ => (⟨none, 0, [], false⟩ : Disk)) c) := by
    cases c with
    | inr key => exact trivial
    | inl path =>
      show (disks path).content <+: remote (home path)
      unfold Disk.content
      cases hfile : (disks path).file with
      | none => exact List.nil_prefix
      | some bs => exact hdisks path bs hfile
  have hsound := Fleet.Sound.run deliveries_admit hworlds hrun hterms
  have htold := hsound.told hinner
  rw [target_download hdown] at htold
  simp only [deliveryContract, hsound.admitted inner hinner hdown] at htold
  obtain ⟨hpre, hreached, hcomplete⟩ := htold
  refine ⟨fun bs hbs => ?_, hreached, fun e he dto hdto hid hstatus => ?_⟩
  · have hcontent : (fl.worlds (.inl inner.filePath)).content = bs := by
      rw [Disk.content, show (fl.worlds (.inl inner.filePath)).file = some bs from hbs, Option.getD_some]
    rw [← hcontent]
    exact hpre
  · obtain ⟨hcontent, hne⟩ := hcomplete e he dto hdto hid hstatus
    unfold Disk.content at hcontent
    unfold DeliveryFleet.disk
    cases hf : (fl.worlds (.inl inner.filePath)).file with
    | none => exact absurd (by rw [← hcontent, hf, Option.getD_none]) hne
    | some bs => rw [← hcontent, hf, Option.getD_some]

end

/-! ### A run -/

/-- The HEAD request finds four bytes. -/
def sampleHead : PrepareWorld := ⟨[], .ok ⟨⟨200, "200 OK"⟩, some "4"⟩, .ok ⟨0, 0⟩⟩

/-- A download that is paused before its first chunk, and resumed. -/
def sampleDelivery : List (FleetAct PrepareWorld ChunkWorld) :=
  [.sched (.cmd (.enqueue DownloadRun.sampleDownload ⟨some ⟨0⟩⟩)), .work 0 (.prepare sampleHead),
    .sched (.cmd (.pause ⟨1⟩)), .work 0 (.worker (.token true)), .work 0 (.worker .sent),
    .sched (.deliver 0), .sched (.cmd (.resume ⟨1⟩)), .work 1 (.prepare sampleHead),
    .work 1 (.worker (.token false)), .work 1 (.worker (.attempt (.token false))),
    .work 1 (.chunk ⟨[], fun _ => .ok DownloadRun.sampleRest, .ok ⟨0, 0, true⟩⟩),
    .work 1 (.worker .sent), .work 1 (.worker .sent), .sched (.deliver 1), .sched (.deliver 1)]

theorem sampleDelivery_fair :
    ∀ fa ∈ sampleDelivery, fa.Fair (HonestDelivery [1, 2, 3, 4]) (Housed fun _ => "http://cat") := by
  have hhead : HonestHead [1, 2, 3, 4] sampleHead.head := by
    intro resp hresp _ n hn
    cases hresp
    have hlen : totalSizeFromHead (some "4") = .ok 4 := by decide
    exact (Except.ok.inj (hlen.symm.trans hn)).symm
  have hrest : HonestServer [1, 2, 3, 4] fun _ => .ok DownloadRun.sampleRest := by
    intro spec resp hresp
    cases hresp
    exact DownloadRun.sampleRest_honest
  simp only [sampleDelivery, List.forall_mem_cons, FleetAct.Fair, HonestDelivery, Act.tasks, hhead, true_and,
    List.not_mem_nil, false_imp_iff, implies_true, and_true]
  exact ⟨fun _ => rfl, hrest⟩

theorem downloads_delivered_resumed : ∃ fl : DeliveryFleet,
    Lts.run (DeliveryFleet.step .debug) (.init 1 1 fun _ => ⟨some [1], 0, [], false⟩) sampleDelivery = some fl ∧
      statusesTo ⟨0⟩ fl.sys.loop.log =
        [.pending, .transmission, .paused, .pending, .transmission, .transmission, .complete] ∧
      (fl.disk ⟨"/tmp/cat", some "/tmp"⟩).file = some [1, 2, 3, 4] := by
  have hrun : Lts.run (DeliveryFleet.step .debug) (.init 1 1 fun _ => ⟨some [1], 0, [], false⟩) sampleDelivery =
    some _ := Lts.run_final (by decide)
  refine ⟨_, hrun, by decide, ?_⟩
  have hterms : Lts.Meets (DeliveryFleet.step .debug)
      (Terms (HonestFor fun _ => [1, 2, 3, 4]) (Housed fun _ => "http://cat"))
      (.init 1 1 fun _ => ⟨some [1], 0, [], false⟩) sampleDelivery :=
    Terms.of_actions (by decide) sampleDelivery_fair fun _ _ h _ => h
  obtain ⟨-, -, hcomplete⟩ := downloads_delivered (fun _ bs hbs => by cases hbs; decide) hrun hterms
    (show DownloadRun.sampleDownload ∈ _ by decide) rfl
  exact hcomplete (.invoke ⟨0⟩ (toRecordInner DownloadRun.sampleDownload .complete 4 4))
    (List.mem_of_getElem? (i := 11) rfl) _ rfl rfl rfl

end SpottedCat
