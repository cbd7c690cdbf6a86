import SpottedCat.Http.Download
import SpottedCat.Http.RangeGrammar
import SpottedCat.Worker.Drive

/-!
# One chunk of a download (`default_http_client.rs:461-693`)

What `downloadOneChunk` does to the file, on the immediate file system and against a server that
never sends other bytes than the resource's. The file is described by its content alone: an absent file
and an empty one resume alike.

* `acceptBody_ok`: an accepted body fills its `Content-Range`, which starts at the offset;
* `storeChunk_spec`: a stored chunk is appended, and an error that leaves a part of it ends the run;
* `downloadOneChunk_spec`: the two, for a whole call;
* `downloadPrepare_spec`: a run starts at the length of the file.
-/

namespace SpottedCat

/-! ## Honest answers -/

/-- A HEAD answer that can be used reports the length of `R`. -/
def HonestHead (R : Bytes) (head : Except String HeadResponse) : Prop :=
  ∀ resp, head = .ok resp → resp.status.isSuccess →
    ∀ n, totalSizeFromHead resp.contentLength = .ok n → n = R.length

/-- A 206 whose body fills its `Content-Range` carries these bytes of `R`. Nothing is said of other
answers, or of the range asked for. -/
def HonestRange (R : Bytes) (resp : RangeResponse) : Prop :=
  resp.status.code = 206 → ∀ contentRange start last total data,
    resp.contentRange = some contentRange → parseContentRange contentRange = .ok (start, last, total) →
      resp.body = .ok data → data.length = last - start + 1 →
        last < R.length ∧ data = (R.drop start).take (last - start + 1)

def HonestServer (R : Bytes) (server : String → Except String RangeResponse) : Prop :=
  ∀ spec resp, server spec = .ok resp → HonestRange R resp

/-! ## Checks on a response -/

theorem mapReqwest_ok {α : Type*} {r : Except String α} {a : α} (h : mapReqwest r = .ok a) :
    r = .ok a := by
  cases r with
  | ok b => cases h; rfl
  | error e => cases h

/-- A parsed range is ordered and ends in `u64`. -/
theorem parseContentRange_ok {value : String} {start last : Nat} {total : Option Nat}
    (h : parseContentRange value = .ok (start, last, total)) : start ≤ last ∧ last < u64Max := by
  obtain ⟨_, _, _, _, _, hpieces⟩ := parseContentRange_iff.1 h
  exact ⟨hpieces.order, hpieces.lastText.lt⟩

/-- The length check adds 1 to a difference of two `u64`. The one sum out of range wraps to 0, which is
not the length of a body that is not empty. -/
theorem bodyLength_eq {build : Build} {offset last n : Nat} {data : Bytes} (hlast : last < u64Max)
    (h : u64Add build (last - offset) 1 = .ok n) (hn : data.length = n) (hne : data ≠ []) :
    data.length = last - offset + 1 := by
  have hmod := u64Add_ok h
  have hpos : 0 < data.length := List.length_pos_iff.2 hne
  rcases Nat.lt_or_ge (last - offset + 1) u64Max with hlt | hge
  · rw [hn, hmod, Nat.mod_eq_of_lt hlt]
  · have hwrap : last - offset + 1 = u64Max := by omega
    rw [hwrap, Nat.mod_self] at hmod
    omega

/-- The response passes every check before the length of its body: it offers `data` as the bytes from
`offset` to `last`. -/
structure Offered (offset total : Nat) (resp : RangeResponse) (last : Nat) (data : Bytes) : Prop where
  status : resp.status.code = 206
  range : ∃ contentRange rangeTotal, resp.contentRange = some contentRange ∧
    parseContentRange contentRange = .ok (offset, last, rangeTotal) ∧
      (rangeTotal = none ∨ rangeTotal = some total)
  body : resp.body = .ok data
  nonempty : data ≠ []

/-- **An accepted body** fills the `Content-Range`, which starts at the offset. -/
theorem acceptBody_ok {build : Build} {offset total : Nat} {resp : RangeResponse} {data : Bytes}
    (h : acceptBody build offset total resp = .ok data) :
    ∃ last, Offered offset total resp last data ∧ data.length = last - offset + 1 := by
  unfold acceptBody at h
  split at h
  · exact absurd h invalidRange_ne
  · rename_i hcode
    obtain ⟨contentRange, hcr, h⟩ := Except.bind_eq_ok.1 h
    obtain ⟨⟨start, last, rangeTotal⟩, hparse, h⟩ := Except.bind_eq_ok.1 h
    simp only at h
    split at h
    · exact absurd h invalidRange_ne
    · rename_i hstart
      rw [not_not.1 hstart] at hparse h
      split at h
      · exact absurd h invalidRange_ne
      · rename_i htotal
        obtain ⟨body, hbody, h⟩ := Except.bind_eq_ok.1 h
        split at h
        · exact absurd h invalidRange_ne
        · rename_i hne
          obtain ⟨expectedLen, hlen, h⟩ := Except.bind_eq_ok.1 h
          split at h
          · exact absurd h invalidRange_ne
          · rename_i heq
            cases h
            have hlast := (parseContentRange_ok hparse).2
            refine ⟨last, ⟨not_not.1 hcode, ⟨contentRange, rangeTotal, orElse_ok invalidRange_ne hcr, hparse, ?_⟩,
              mapReqwest_ok hbody, hne⟩, bodyLength_eq hlast hlen (not_not.1 heq) hne⟩
            rw [not_and_or, not_not, not_not] at htotal
            exact htotal

/-- **A fetched body** continues what the file holds of `R`. -/
theorem fetchChunk_ok {R bs : Bytes} {build : Build} {server : String → Except String RangeResponse}
    (hserver : HonestServer R server) {chunkSize total : Nat} (hbs : bs <+: R) {data : Bytes}
    (h : fetchChunk build server bs.length chunkSize total = .ok data) : bs ++ data <+: R := by
  unfold fetchChunk at h
  obtain ⟨spec, -, h⟩ := Except.bind_eq_ok.1 h
  obtain ⟨resp, hresp, h⟩ := Except.bind_eq_ok.1 h
  obtain ⟨last, hoffered, hlen⟩ := acceptBody_ok h
  obtain ⟨contentRange, rangeTotal, hcr, hparse, -⟩ := hoffered.range
  obtain ⟨-, hdata⟩ := hserver spec resp (mapReqwest_ok hresp) hoffered.status contentRange bs.length last
    rangeTotal data hcr hparse hoffered.body hlen
  obtain ⟨rest, rfl⟩ := hbs
  rw [List.drop_left] at hdata
  rw [hdata]
  exact (List.prefix_append_right_inj bs).2 (List.take_prefix _ _)

/-! ## Writing -/

/-- What the file holds, and, if `atomic`, that the planned writes are whole; the slot does not matter. -/
structure Holds (atomic : Prop) (bs : Bytes) (torn : Bool) (l : Local Disk Unit) : Prop where
  content : l.world.content = bs
  torn : l.world.torn = torn
  faults : atomic → WholeWrites l.world.faults

/-- How a store that fails leaves the file: with a part of the chunk appended, which the disk records,
and with an error that is not retried. -/
def Broken (atomic : Prop) (bs data : Bytes) (torn : Bool) (e : Failure) (l : Local Disk Unit) : Prop :=
  e.Final ∧ ∃ part, part <+: data ∧ l.world.content = bs ++ part ∧
    (l.world.torn = false → torn = false ∧ part = []) ∧
      (atomic → torn = false → l.world.torn = false)

theorem Broken.untouched {atomic : Prop} {bs data : Bytes} {torn : Bool} {e : Failure}
    {l : Local Disk Unit} (he : e.Final) (h : Holds atomic bs torn l) : Broken atomic bs data torn e l :=
  ⟨he, [], List.nil_prefix, by rw [h.content, List.append_nil], fun ht => ⟨h.torn ▸ ht, rfl⟩,
    fun _ ht => h.torn.trans ht⟩

theorem Holds.next {atomic : Prop} {bs : Bytes} {torn : Bool} {l : Local Disk Unit}
    (h : Holds atomic bs torn l) : Holds atomic bs torn { l with world := l.world.next } :=
  ⟨h.content, h.torn, fun hw => (h.faults hw).tail⟩

/-- A call that fails without a trace, reported as an I/O error. -/
theorem Holds.ioError {atomic : Prop} {bs data : Bytes} {torn : Bool} {msg : String} {l : Local Disk Unit}
    (h : Holds atomic bs torn l) :
    Broken atomic bs data torn (.err (.fromCode .ioError msg)) { l with world := l.world.next } :=
  .untouched (final_fromCode (by decide) (by decide)) h.next

variable {atomic : Prop} {bs data : Bytes} {torn : Bool} {task : InnerTask}

theorem createParent_spec {offset : Nat} :
    Triple (Holds atomic bs torn) (createParent Disk.ops task offset) (fun _ => Holds atomic bs torn)
      (Broken atomic bs data torn) := by
  unfold createParent
  split
  · split
    · exact Triple.orFail (fun _ h => h.next) (fun _ h => h.ioError)
    · exact Triple.pure fun _ h => h
  · exact Triple.pure fun _ h => h

/-- At offset 0 the truncation finds an empty file, or none; elsewhere the file is opened as it is. -/
theorem openSlot_spec :
    Triple (Holds atomic bs torn) (openSlot Disk.ops task bs.length) (fun _ => Holds atomic bs torn)
      (Broken atomic bs data torn) := by
  unfold openSlot
  split
  · rename_i hzero
    obtain rfl : bs = [] := List.length_eq_zero_iff.1 hzero
    refine Triple.bind
      (Triple.orFail (Q := fun _ => Holds atomic [] torn) (fun l h => ⟨rfl, h.torn, h.next.faults⟩)
        (fun _ h => h.ioError))
      fun created => ?_
    refine Triple.bind
      (Triple.modify (R := fun _ => Holds atomic [] torn) fun _ h => ⟨h.content, h.torn, h.faults⟩) fun _ => ?_
    exact Triple.pure fun _ h => h
  · refine Triple.bind (Triple.get (R := fun _ => Holds atomic bs torn) fun _ h => h) fun l0 => ?_
    split
    · exact Triple.pure fun _ h => h
    · refine Triple.bind
        (Triple.orFail (Q := fun _ => Holds atomic bs torn) (fun l h => ⟨h.content, h.torn, h.next.faults⟩)
          (fun _ h => h.ioError)) fun opened => ?_
      refine Triple.bind
        (Triple.orFail (Q := fun n l => n = bs.length ∧ Holds atomic bs torn l) (fun l h => ?_)
          (fun _ h => h.ioError)) fun localLen => ?_
      · exact ⟨congrArg List.length h.content, h.next⟩
      split
      · exact Triple.lift fun _ h => absurd h.1 (by assumption)
      · refine Triple.bind (Triple.modify (R := fun _ => Holds atomic bs torn) fun _ h =>
          ⟨h.2.content, h.2.torn, h.2.faults⟩) fun _ => ?_
        exact Triple.pure fun _ h => h

/-- **A stored chunk** is appended; if the write fails, a part of it may be. -/
theorem storeChunk_spec :
    Triple (Holds atomic bs torn) (storeChunk Disk.ops task bs.length data)
      (fun _ l => l.world.content = bs ++ data ∧ l.world.torn = false) (Broken atomic bs data torn) := by
  unfold storeChunk
  refine Triple.bind createParent_spec fun _ => ?_
  refine Triple.bind openSlot_spec fun f => ?_
  refine Triple.bind
    (Triple.orFail (Q := fun _ l => Holds atomic bs torn l ∧ l.world.cursor = bs.length)
      (fun l h => ⟨⟨h.content, h.torn, h.next.faults⟩, rfl⟩) (fun _ h => h.ioError)) fun _ => ?_
  refine Triple.fileCall fun l h => ?_
  obtain ⟨hold, hcursor⟩ := h
  have happend (part : Bytes) : writeAt l.world.content l.world.cursor part = bs ++ part := by
    rw [hcursor, hold.content, writeAt_length]
  simp only [Disk.ops]
  cases hfault : l.world.fault with
  | none => exact ⟨happend data, rfl⟩
  | some fault =>
    refine ⟨final_fromCode (by decide) (by decide), data.take fault.written, List.take_prefix _ _,
      happend _, fun ht => ?_, fun hw ht => ?_⟩
    · obtain ⟨ht, hpart⟩ := Bool.or_eq_false_iff.1 ht
      exact ⟨hold.torn ▸ ht, not_not.1 (of_decide_eq_false hpart)⟩
    · have hzero := (hold.faults hw).fault hfault
      simp [hold.torn, ht, hzero]

/-! ## Whole calls -/

theorem totalSizeFromHead_ok {contentLength : Option String} {n : Nat}
    (h : totalSizeFromHead contentLength = .ok n) : 0 < n ∧ n < u64Max := by
  unfold totalSizeFromHead at h
  split at h
  · rename_i m hparse
    split at h
    · rename_i hpos
      cases h
      obtain ⟨s, -, hs⟩ := Option.bind_eq_some_iff.1 hparse
      exact ⟨hpos, parseU64_lt hs⟩
    · cases h
  · cases h

/-- A plan resumes at the local length, also when that is the whole resource. -/
theorem planResume_ok {start : Nat} {head : Except String HeadResponse} {outcome : PrepareOutcome}
    (h : planResume start head = .ok outcome) :
    ∃ resp total, head = .ok resp ∧ resp.status.isSuccess ∧
      totalSizeFromHead resp.contentLength = .ok total ∧ outcome = ⟨start, total⟩ := by
  unfold planResume at h
  obtain ⟨resp, hresp, h⟩ := Except.bind_eq_ok.1 h
  split at h
  · cases h
  · rename_i hstatus
    obtain ⟨total, htotal, h⟩ := Except.bind_eq_ok.1 h
    refine ⟨resp, total, mapReqwest_ok hresp, not_not.1 hstatus, htotal, ?_⟩
    split at h
    · cases h
    · rename_i hle
      split at h
      · rename_i hge
        cases h
        rw [Nat.le_antisymm hge (Nat.not_lt.1 hle)]
      · cases h
        rfl

theorem localLen_spec :
    Triple (Holds atomic bs torn) (localLen Disk.ops task) (fun n l => n = bs.length ∧ Holds atomic bs torn l)
      (fun _ => Holds atomic bs torn) := by
  intro l h
  unfold localLen
  simp only [Disk.ops]
  cases l.world.fault with
  | some fault => exact h.next
  | none =>
    cases hfile : l.world.file with
    | some file =>
      have hfile' : l.world.content = file := by rw [Disk.content, hfile, Option.getD_some]
      exact ⟨by rw [← h.content, hfile'], h.next⟩
    | none =>
      have hfile' : l.world.content = [] := by rw [Disk.content, hfile, Option.getD_none]
      exact ⟨by rw [← h.content, hfile', List.length_nil], h.next⟩

/-- **Preparing.** The file stays as it is, and its length is where the run starts. -/
theorem downloadPrepare_spec (task : InnerTask) {R : Bytes} {head : Except String HeadResponse}
    (hhead : HonestHead R head) :
    Triple (Holds atomic bs torn) (downloadPrepare Disk.ops task head)
      (fun outcome l => (outcome = ⟨bs.length, R.length⟩ ∧ 0 < R.length ∧ R.length < u64Max) ∧
        Holds atomic bs torn l)
      (fun _ => Holds atomic bs torn) := by
  refine Triple.bind localLen_spec fun start => ?_
  refine Triple.assuming fun hstart => ?_
  refine Triple.lift fun l h => ?_
  cases hplan : planResume start head with
  | error e => exact h
  | ok outcome =>
    obtain ⟨resp, total, hresp, hstatus, htotal, rfl⟩ := planResume_ok hplan
    obtain rfl : total = R.length := hhead resp hresp hstatus total htotal
    exact ⟨⟨by rw [hstart], totalSizeFromHead_ok htotal⟩, h⟩

/-- A call that succeeds: the file has grown, still within `R`, and the outcome says how far. -/
def Grown (R bs : Bytes) (torn : Bool) (outcome : ChunkOutcome) (l : Local Disk Unit) : Prop :=
  ∃ data, bs ++ data <+: R ∧ l.world.content = bs ++ data ∧ (torn = false → l.world.torn = false) ∧
    outcome = ⟨(bs ++ data).length, R.length, decide ((bs ++ data).length ≥ R.length)⟩

/-- A call that fails: nothing, or a part of a chunk of `R`, was appended, and the latter is neither
unrecorded nor retried; atomic writes leave no part. -/
def Stopped (atomic : Prop) (R bs : Bytes) (torn : Bool) (e : Failure) (l : Local Disk Unit) : Prop :=
  ∃ part, bs ++ part <+: R ∧ l.world.content = bs ++ part ∧
    (l.world.torn = false → torn = false ∧ part = []) ∧ (atomic → torn = false → l.world.torn = false) ∧
      (¬ e.Final → part = [])

/-- **One chunk.** -/
theorem downloadOneChunk_spec (build : Build) (task : InnerTask) (chunkSize : Nat) {R : Bytes}
    {server : String → Except String RangeResponse} (hserver : HonestServer R server)
    (hbs : bs <+: R) (hR : R.length < u64Max) :
    Triple (Holds atomic bs torn)
      (downloadOneChunk Disk.ops build task server bs.length chunkSize R.length)
      (Grown R bs torn) (Stopped atomic R bs torn) := by
  unfold downloadOneChunk
  simp only
  split
  · rename_i hdone
    refine Triple.pure fun l h => ?_
    refine ⟨[], by rwa [List.append_nil], by rw [List.append_nil, h.content], fun ht => h.torn.trans ht, ?_⟩
    rw [List.append_nil, decide_eq_true hdone]
  · refine Triple.bind
      (Triple.lift (Q := fun data l => bs ++ data <+: R ∧ Holds atomic bs torn l) fun l h => ?_)
      fun data => ?_
    · cases hfetch : fetchChunk build server bs.length chunkSize R.length with
      | ok data => exact ⟨fetchChunk_ok hserver hbs hfetch, h⟩
      | error e =>
        refine ⟨[], by rwa [List.append_nil], by rw [List.append_nil, h.content], ?_, ?_, fun _ => rfl⟩
        · exact fun ht => ⟨h.torn ▸ ht, rfl⟩
        · exact fun _ ht => h.torn.trans ht
    · refine Triple.assuming fun hdata => ?_
      have hstore : Triple (Holds atomic bs torn) (storeChunk Disk.ops task bs.length data)
          (fun _ l => l.world.content = bs ++ data ∧ l.world.torn = false) (Stopped atomic R bs torn) := by
        refine storeChunk_spec.mono (fun _ h => h) (fun _ _ h => h) fun e l h => ?_
        obtain ⟨hfinal, part, hpart, hcontent, htorn, hatomic⟩ := h
        have hpre : bs ++ part <+: R := ((List.prefix_append_right_inj bs).2 hpart).trans hdata
        exact ⟨part, hpre, hcontent, htorn, hatomic, fun hn => absurd hfinal hn⟩
      refine Triple.bind hstore fun _ => ?_
      have hlen : bs.length + data.length ≤ R.length := by
        rw [← List.length_append]
        exact hdata.length_le
      rw [u64Add_of_lt (Nat.lt_of_le_of_lt hlen hR)]
      refine Triple.bind (Triple.lift (Q := fun next l =>
        next = bs.length + data.length ∧ l.world.content = bs ++ data ∧ l.world.torn = false)
          fun l h => ⟨rfl, h⟩) fun next => ?_
      refine Triple.assuming fun hnext => Triple.pure fun l h => ⟨data, hdata, h.1, fun _ => h.2, ?_⟩
      rw [hnext, List.length_append]

end SpottedCat
