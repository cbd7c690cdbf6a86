import SpottedCat.Http.Depot
import SpottedCat.Http.UploadRun
import SpottedCat.Joint.Fleet

/-!
# Uploads from end to end

The counterpart of `Downloads`, with a server that keeps what it is sent (`Depot`): requests and answers get lost,
windows are sent again, workers are paused, fail and are started anew, tasks are cancelled and enqueued again.
`uploads_delivered` says that the server never holds anything but a prefix of the file, that it has every byte that
was reported as sent, and that after `Complete` it has the file.

Unlike `download_prepare`, `upload_prepare` relies on the offset that the scheduler remembers
(default_http_client.rs:191): the larger of it and of the server's own is where a run starts. That offset is stored
under the dedupe key and survives a cancel, so besides quiet keys the theorem needs that a file goes to one server
only: else a run would skip what another server has. The files do not change (`Depot.source` is what is read), and
what a server has of one to begin with is a prefix of it.
-/

namespace SpottedCat

/-- What happens in one call: the outcomes of the file calls, and the server; or what the call of a download
returns. -/
structure UploadWorld (α : Type) where
  faults : List Bool
  server : UploadForm → Bytes → Bool × Except String UploadResponse
  download : Ret α

def Local.facing {α : Type} (l : Local Depot Unit) (call : UploadWorld α) : Local Depot Unit :=
  { l with world := { l.world with faults := call.faults, server := call.server } }

/-- `DefaultHttpClient` (default_http_client.rs:700-744) as far as files are uploaded: downloads have no part in
it, and what their calls return is left open. -/
def submissions (build : Build) (decode : String → Except String DefaultUploadResp) (category : String) :
    TransferTrait (Local Depot Unit) (UploadWorld PrepareOutcome) (UploadWorld ChunkOutcome) where
  prepare task localOffset call := fun l =>
    match task.direction with
    | .upload => uploadPrepare Depot.ops decode category task localOffset (l.facing call)
    | .download => (call.download, l)
  transferChunk task offset chunkSize _ call := fun l =>
    match task.direction with
    | .upload => uploadOneChunk Depot.ops build decode category task offset chunkSize (l.facing call)
    | .download => (call.download, l)

/-- A file on its way to a server. A download has a resource of its own, which nothing is said of. -/
def shipment (inner : InnerTask) : (String × String) ⊕ UniqueId :=
  match inner.direction with
  | .upload => .inl (inner.url, inner.fileSign)
  | .download => .inr inner.dedupeKey

/-- A store that is to become `F`. -/
def uploadContract (F : Bytes) : Contract Depot Unit where
  sound w := w.source = F ∧ w.stored <+: F
  reached w n := n ≤ w.stored.length
  whole w := w.stored = F
  between offset knownTotal l := knownTotal = F.length ∧ offset ≤ l.world.stored.length
  relies := True
  reached_zero := fun _ _ => Nat.zero_le _
  between_reached := fun _ _ _ h => h.2

section
variable {F : Bytes} {build : Build} {decode : String → Except String DefaultUploadResp} {category : String}
  {inner : InnerTask}

def HonestUpload (decode : String → Except String DefaultUploadResp) (F : Bytes) :
    DriveAct (UploadWorld PrepareOutcome) (UploadWorld ChunkOutcome) → Prop
  | .prepare call => HonestDepot decode F call.server
  | .chunk call => HonestDepot decode F call.server
  | .worker _ => True

theorem AtDepot.facing {α : Type} {l l0 : Local Depot Unit} {call : UploadWorld α} (hF : l.world.source = F)
    (h : l0 = l) : AtDepot F l.world.stored call.server (l0.facing call) := by
  subst h
  exact ⟨hF, rfl, rfl⟩

theorem uploadContract_since {w w' : Depot} {stored : Bytes} {server} {slot : Option Unit}
    (h : AtDepot F stored server ⟨w', slot⟩) (hstored : stored <+: F) (hgrown : w.stored.length ≤ stored.length) :
    (uploadContract F).Since w w' where
  sound := ⟨h.source, h.stored ▸ hstored⟩
  reached := fun n hn => by
    show n ≤ w'.stored.length
    rw [show w'.stored = stored from h.stored]
    exact Nat.le_trans hn hgrown
  whole := fun hw => by
    show w'.stored = F
    rw [show w'.stored = stored from h.stored]
    exact hstored.eq_of_length_le (by rw [← hw]; exact hgrown)

/-- **Uploads keep their contract.** -/
theorem submissions_honour (hup : inner.direction = .upload) (htotal : inner.totalSize = F.length)
    (hF : F.length < u64Max) (hchunk : 1 ≤ inner.chunkSize) :
    Honours (submissions build decode category) (uploadContract F) (HonestUpload decode F) inner where
  prepare := by
    rintro call startOffset l hserver ⟨hsource, hstored⟩ - hstart
    have hcall : (submissions build decode category).prepare inner startOffset call =
        fun l => uploadPrepare Depot.ops decode category inner startOffset (l.facing call) := by
      funext l
      simp only [submissions, hup]
    rw [hcall]
    refine ((depotPrepare_spec category hserver hstored htotal (hstart trivial)).precomp
      fun l0 h => AtDepot.facing hsource h).mono (fun _ h => h) ?_ ?_
    · rintro outcome l' ⟨⟨hsize, hnext⟩, hl'⟩
      refine ⟨uploadContract_since hl' hstored (Nat.le_refl _), ?_, ?_⟩
      · rw [hsize, htotal, ite_self]
      · rw [hl'.stored]
        exact hnext
    · rintro e l' hl'
      exact uploadContract_since hl' hstored (Nat.le_refl _)
  chunk := by
    rintro call l offset knownTotal hserver ⟨hsource, hstored⟩ ⟨rfl, hoffset⟩
    have hcall : (submissions build decode category).transferChunk inner offset inner.chunkSize F.length call =
        fun l => uploadOneChunk Depot.ops build decode category inner offset inner.chunkSize (l.facing call) := by
      funext l
      simp only [submissions, hup]
    rw [hcall]
    refine ((depotChunk_spec build category hserver hstored htotal hF hoffset hchunk).precomp
      fun l0 h => AtDepot.facing hsource h).mono (fun _ h => h) ?_ ?_
    · rintro outcome l' ⟨stored', hl', hpre, hgrown, hsize, hnext, hdone⟩
      refine ⟨uploadContract_since hl' hpre hgrown, ⟨?_, ?_⟩, fun hd => ?_⟩
      · rw [hsize, ite_self]
      · rw [hl'.stored]
        exact hnext
      · show l'.world.stored = F
        rw [hl'.stored]
        exact hdone hd
    · rintro e l' ⟨stored', hl', hpre, hgrown⟩
      refine ⟨uploadContract_since hl' hpre hgrown, fun _ => ⟨rfl, ?_⟩⟩
      rw [hl'.stored]
      exact Nat.le_trans hoffset hgrown

end

/-! ## The system -/

abbrev UploadFleet := Fleet ((String × String) ⊕ UniqueId) Depot Unit

/-- A resource that nothing happens to. -/
def Depot.idle : Depot := ⟨[], 0, [], [], fun _ _ => (false, .error "not connected")⟩

/-- What the servers hold of each file; a file is named by the url it goes to and by its `file_sign`. -/
def UploadFleet.init (maxUpload maxDownload : Nat) (depots : String × String → Depot) : UploadFleet :=
  Fleet.init maxUpload maxDownload (Sum.elim depots fun _ => .idle)

def UploadFleet.step (build : Build) (decode : String → Except String DefaultUploadResp) (category : String)
    (fl : UploadFleet) :
    FleetAct (UploadWorld PrepareOutcome) (UploadWorld ChunkOutcome) → Option UploadFleet :=
  Fleet.step (submissions build decode category) shipment fl

def UploadFleet.depot (fl : UploadFleet) (inner : InnerTask) : Depot :=
  fl.worlds (.inl (inner.url, inner.fileSign))

/-- The file that `file_sign` names is `content`. -/
def shipmentContract (content : String → Bytes) : (String × String) ⊕ UniqueId → Contract Depot Unit
  | .inl (_, fileSign) => uploadContract (content fileSign)
  | .inr _ => .unsaid Depot Unit

/-- An upload as the builder and `from_pounce` make it (up_pounce_builder.rs:72, inner_task.rs:71), of a file that
does not change: its size is that of its file, which `file_sign` names by its content, and its chunks are not
empty. And each file goes to one server. -/
structure Shippable (content : String → Bytes) (site : String → String) (inner : InnerTask) : Prop where
  size : inner.totalSize = (content inner.fileSign).length
  bounded : (content inner.fileSign).length < u64Max
  chunk : 1 ≤ inner.chunkSize
  place : site inner.fileSign = inner.url

section
variable {build : Build} {decode : String → Except String DefaultUploadResp} {category : String}
  {content : String → Bytes} {site : String → String}

theorem shipment_upload {inner : InnerTask} (h : inner.direction = .upload) :
    shipment inner = .inl (inner.url, inner.fileSign) := by
  simp only [shipment, h]

theorem shipment_download {inner : InnerTask} (h : inner.direction = .download) :
    shipment inner = .inr inner.dedupeKey := by
  simp only [shipment, h]

theorem submissions_admit : Admits (submissions build decode category) shipment (shipmentContract content)
    (fun inner a => inner.direction = .upload → HonestUpload decode (content inner.fileSign) a)
    (fun inner => inner.direction = .upload → Shippable content site inner) where
  honours := by
    intro inner hship
    cases hdirection : inner.direction with
    | upload =>
      obtain ⟨hsize, hbounded, hchunk, -⟩ := hship hdirection
      rw [shipment_upload hdirection]
      have h : Honours (submissions build decode category) _ _ inner :=
        submissions_honour hdirection hsize hbounded hchunk
      exact ⟨fun a startOffset l hfair => h.prepare a startOffset l (hfair rfl),
        fun b l offset knownTotal hfair => h.chunk b l offset knownTotal (hfair rfl)⟩
    | download =>
      rw [shipment_download hdirection]
      exact .unsaid _ _ _
  exclusive := by
    intro inner inner' _ _ hsame
    cases hdirection : inner.direction with
    | upload =>
      cases hdirection' : inner'.direction with
      | upload =>
        rw [shipment_upload hdirection, shipment_upload hdirection'] at hsame
        have hsign : inner.fileSign = inner'.fileSign := congrArg Prod.snd (Sum.inl.inj hsame)
        simp only [InnerTask.dedupeKey, hdirection, hdirection', hsign]
      | download =>
        rw [shipment_upload hdirection, shipment_download hdirection'] at hsame
        cases hsame
    | download =>
      cases hdirection' : inner'.direction with
      | upload =>
        rw [shipment_download hdirection, shipment_upload hdirection'] at hsame
        cases hsame
      | download =>
        rw [shipment_download hdirection, shipment_download hdirection'] at hsame
        exact Sum.inr.inj hsame
  anchored := by
    intro inner inner' hship hship' hkey hrelies
    cases hdirection : inner.direction with
    | download =>
      rw [shipment_download hdirection] at hrelies
      exact hrelies.elim
    | upload =>
      cases hdirection' : inner'.direction with
      | download =>
        simp only [InnerTask.dedupeKey, hdirection, hdirection', Prod.mk.injEq, reduceCtorEq, false_and] at hkey
      | upload =>
        have hsign : inner.fileSign = inner'.fileSign := by
          simpa only [InnerTask.dedupeKey, hdirection, hdirection', Prod.mk.injEq, true_and] using hkey
        rw [shipment_upload hdirection, shipment_upload hdirection', ← hsign, ← (hship hdirection).place,
          ← (hship' hdirection').place, hsign]

/-- **Uploads from end to end.** In every run in which files do not change and servers have prefixes of them at the
start and are honest, each file goes to one server, and a file is enqueued again only when its key is quiet: what the
server has is a prefix of the file; it has every byte that any worker of the task has reported; and from the
`Complete` record on it has the file. -/
theorem uploads_delivered {maxUpload maxDownload : Nat} {depots : String × String → Depot}
    {acts : List (FleetAct (UploadWorld PrepareOutcome) (UploadWorld ChunkOutcome))} {fl : UploadFleet}
    {inner : InnerTask}
    (hdepots : ∀ url fileSign, (depots (url, fileSign)).source = content fileSign ∧
      (depots (url, fileSign)).stored <+: content fileSign)
    (hrun : Lts.run (UploadFleet.step build decode category) (.init maxUpload maxDownload depots) acts = some fl)
    (hterms : Lts.Meets (UploadFleet.step build decode category)
      (Terms (fun inner a => inner.direction = .upload → HonestUpload decode (content inner.fileSign) a)
        fun inner => inner.direction = .upload → Shippable content site inner)
      (.init maxUpload maxDownload depots) acts)
    (hinner : inner ∈ fl.tasks) (hup : inner.direction = .upload) :
    (fl.depot inner).stored <+: content inner.fileSign ∧
      (∀ key n total, (inner.taskId, .progress key n total) ∈ fl.sys.pool.sent →
        n ≤ (fl.depot inner).stored.length) ∧
      ∀ e ∈ fl.sys.loop.log, ∀ dto, e.record = some dto → dto.taskId = inner.taskId →
        dto.status = .complete → (fl.depot inner).stored = content inner.fileSign := by
  have hworlds (c : (String × String) ⊕ UniqueId) : (shipmentContract content c).sound
      (Sum.elim depots (fun _ => Depot.idle) c) := by
    cases c with
    | inr key => exact trivial
    | inl place => exact hdepots place.1 place.2
  have htold := (Fleet.Sound.run submissions_admit hworlds hrun hterms).told hinner
  rw [shipment_upload hup] at htold
  obtain ⟨⟨-, hpre⟩, hreached, hcomplete⟩ := htold
  exact ⟨hpre, hreached, hcomplete⟩

end

/-! ### A run -/

/-- Says of every request that it has nothing, keeps what leaves no gap, and loses answers as told. -/
def forgetful (lost : Bool) (form : UploadForm) (stored : Bytes) : Bool × Except String UploadResponse :=
  match form with
  | .prepare .. => (true, .ok sampleReply)
  | .chunk _ _ _ _ offset _ _ =>
    if lost then (true, .error "connection reset")
    else (true, if offset ≤ stored.length then .ok sampleReply else .error "gap")

/-- Two chunks; the answer to the first is lost, and the task is paused after the second attempt. -/
def sampleShipment : List (FleetAct (UploadWorld PrepareOutcome) (UploadWorld ChunkOutcome)) :=
  [.sched (.cmd (.enqueue { sampleUpload with chunkSize := 4 } ⟨some ⟨0⟩⟩)),
    .work 0 (.prepare ⟨[], forgetful false, .ok ⟨0, 0⟩⟩), .work 0 (.worker (.token false)),
    .work 0 (.worker (.attempt (.token false))), .work 0 (.chunk ⟨[], forgetful true, .ok ⟨0, 0, true⟩⟩),
    .work 0 (.worker (.attempt (.woken false))), .work 0 (.worker (.attempt (.token false))),
    .work 0 (.chunk ⟨[], forgetful false, .ok ⟨0, 0, true⟩⟩), .work 0 (.worker .sent),
    .sched (.cmd (.pause ⟨2⟩)), .work 0 (.worker (.token true)), .work 0 (.worker .sent), .sched (.deliver 0),
    .sched (.deliver 0), .sched (.cmd (.resume ⟨2⟩)),
    .work 1 (.prepare ⟨[], forgetful false, .ok ⟨0, 0⟩⟩), .work 1 (.worker (.token false)),
    .work 1 (.worker (.attempt (.token false))), .work 1 (.chunk ⟨[], forgetful false, .ok ⟨0, 0, true⟩⟩),
    .work 1 (.worker .sent), .work 1 (.worker .sent), .sched (.deliver 1), .sched (.deliver 1)]

def sampleDepots (_ : String × String) : Depot := ⟨[1, 2, 3, 4, 5, 6, 7, 8], 0, [], [], forgetful false⟩

theorem forgetful_honest (lost : Bool) (F : Bytes) : HonestDepot sampleDecode F (forgetful lost) := by
  intro form stored hstored info haccepted
  have hinfo (reply : Except String UploadResponse) (hreply : reply = .ok sampleReply)
      (h : Accepted sampleDecode reply info) : info = ⟨none, some 0⟩ := by
    subst hreply
    obtain ⟨resp, body, hresp, -, hbody, hparse⟩ := h
    cases hresp
    cases hbody
    have hbody : parseUploadResponse sampleDecode "\x7b\"nextByte\":0\x7d" = .ok ⟨none, some 0⟩ := by decide
    exact (Except.ok.inj (hbody.symm.trans hparse)).symm
  cases form with
  | prepare fileMd5 fileName category totalSize =>
    obtain rfl := hinfo _ rfl haccepted
    refine ⟨fun n hn => ?_, fun hid => by cases hid⟩
    cases hn
    exact Nat.zero_le _
  | chunk file fileMd5 fileName category offset partSize totalSize =>
    unfold forgetful at haccepted
    simp only at haccepted
    split at haccepted
    · obtain ⟨resp, -, hresp, -⟩ := haccepted
      cases hresp
    split at haccepted
    · rename_i hlost hgap
      obtain rfl := hinfo _ rfl haccepted
      refine ⟨?_, fun hid => by cases hid⟩
      simp only [UploadForm.Vouched, Depot.after, forgetful, if_neg hlost, UploadForm.storedIn, if_pos hgap, if_true]
      simp only [writeAt, List.length_append, List.length_take, List.length_replicate, List.length_drop]
      omega
    · obtain ⟨resp, -, hresp, -⟩ := haccepted
      cases hresp

theorem sampleShipment_fair :
    ∀ fa ∈ sampleShipment, fa.Fair (HonestUpload sampleDecode [1, 2, 3, 4, 5, 6, 7, 8]) fun inner =>
      inner.direction = .upload → Shippable (fun _ => [1, 2, 3, 4, 5, 6, 7, 8]) (fun _ => "http://cat") inner := by
  have hserver := fun lost => forgetful_honest lost [1, 2, 3, 4, 5, 6, 7, 8]
  simp only [sampleShipment, List.forall_mem_cons, FleetAct.Fair, HonestUpload, Act.tasks, hserver,
    List.not_mem_nil, false_imp_iff, implies_true, and_true]
  exact fun _ => ⟨rfl, by decide, by decide, rfl⟩

theorem uploads_delivered_resumed : ∃ fl : UploadFleet,
    Lts.run (UploadFleet.step .debug sampleDecode "") (.init 1 1 sampleDepots) sampleShipment = some fl ∧
      statusesTo ⟨0⟩ fl.sys.loop.log =
        [.pending, .transmission, .paused, .transmission, .pending, .transmission, .transmission, .complete] ∧
      (fl.depot sampleUpload).stored = [1, 2, 3, 4, 5, 6, 7, 8] := by
  have hrun : Lts.run (UploadFleet.step .debug sampleDecode "") (.init 1 1 sampleDepots) sampleShipment =
    some _ := Lts.run_final (by decide)
  refine ⟨_, hrun, by decide, ?_⟩
  have hterms : Lts.Meets (UploadFleet.step .debug sampleDecode "")
      (Terms (fun inner a => inner.direction = .upload → HonestUpload sampleDecode [1, 2, 3, 4, 5, 6, 7, 8] a)
        fun inner => inner.direction = .upload →
          Shippable (fun _ => [1, 2, 3, 4, 5, 6, 7, 8]) (fun _ => "http://cat") inner)
      (.init 1 1 sampleDepots) sampleShipment :=
    Terms.of_actions (by decide) sampleShipment_fair fun _ _ h _ => h
  obtain ⟨-, -, hcomplete⟩ := uploads_delivered (fun _ _ => ⟨rfl, List.nil_prefix⟩) hrun hterms
    (show { sampleUpload with chunkSize := 4 } ∈ _ by decide) rfl
  exact hcomplete (.invoke ⟨0⟩ (toRecordInner { sampleUpload with chunkSize := 4 } .complete 8 8))
    (List.mem_of_getElem? (i := 12) rfl) _ rfl rfl rfl

end SpottedCat
