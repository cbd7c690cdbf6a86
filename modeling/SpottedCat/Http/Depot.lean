import SpottedCat.Http.DownloadSpec
import SpottedCat.Http.Upload

/-!
# Uploads to a server that keeps what it is sent

`Depot` is one file on its way: the local source, and what the server has of it. A chunk is stored where its
offset says, over what is there already, unless that would leave a gap; and the world decides for each request
whether it arrives, and how it is answered. A request may be stored and its answer lost: the retry loop then
sends the same window again.

* `writeAt_window`: a window of the source that is stored twice, or over a longer prefix, does no harm;
* `depotPrepare_spec`: a run starts at or before the end of what is stored;
* `depotChunk_spec`: what a chunk says is through is stored, and the last one says so of the whole file.

The server has to be honest, not reliable: what a good answer says is so (`HonestDepot`).
-/

namespace SpottedCat

structure Depot where
  source : Bytes
  cursor : Nat
  /-- Which of the next file calls fail; further ones do not. -/
  faults : List Bool
  stored : Bytes
  /-- Whether a request arrives, and its answer, from what is stored before. -/
  server : UploadForm → Bytes → Bool × Except String UploadResponse

/-- What a request leaves in the store. -/
def UploadForm.storedIn (form : UploadForm) (stored : Bytes) : Bytes :=
  match form with
  | .prepare .. => stored
  | .chunk file _ _ _ offset _ _ => if offset ≤ stored.length then writeAt stored offset file else stored

namespace Depot

/-- What the request leaves in the store, if it arrives. -/
def after (server : UploadForm → Bytes → Bool × Except String UploadResponse) (form : UploadForm)
    (stored : Bytes) : Bytes :=
  if (server form stored).1 then form.storedIn stored else stored

/-- A file call: it fails as planned, or by itself. -/
def attempt {α : Type} (w : Depot) (f : Depot → Option (α × Depot)) : Option α × Depot :=
  let w' := { w with faults := w.faults.tail }
  if w.faults.head? = some true then (none, w')
  else
    match f w' with
    | some (a, w'') => (some a, w'')
    | none => (none, w')

def ops : UploadOps Depot Unit where
  openRead w := w.attempt fun w => some ((), { w with cursor := 0 })
  seek _ pos w := w.attempt fun w => some ((), { w with cursor := pos })
  readExact _ len w := w.attempt fun w =>
    if w.cursor + len ≤ w.source.length then
      some ((w.source.drop w.cursor).take len, { w with cursor := w.cursor + len })
    else none
  send form w := ((w.server form w.stored).2, { w with stored := after w.server form w.stored })

end Depot

/-! ## The store -/

/-- **A window of the source** on a prefix of it, without a gap. -/
theorem writeAt_window {F bs : Bytes} {offset len : Nat} (hbs : bs <+: F) (hoffset : offset ≤ bs.length) :
    writeAt bs offset ((F.drop offset).take len) <+: F ∧
      bs.length ≤ (writeAt bs offset ((F.drop offset).take len)).length ∧
      offset + ((F.drop offset).take len).length ≤ (writeAt bs offset ((F.drop offset).take len)).length := by
  generalize hdata : (F.drop offset).take len = data
  obtain ⟨rest, rfl⟩ := hbs
  have hgap : offset - bs.length = 0 := by omega
  have hsplit : (bs ++ rest).take (offset + data.length) = bs.take offset ++ data := by
    rw [List.take_add, List.take_append_of_le_length hoffset, ← hdata]
    congr 1
    rw [List.length_take]
    rcases Nat.le_total len ((bs ++ rest).drop offset).length with h | h
    · rw [Nat.min_eq_left h]
    · rw [Nat.min_eq_right h, List.take_of_length_le h, List.take_of_length_le (Nat.le_refl _)]
  have hwrite : writeAt bs offset data =
      (bs ++ rest).take (offset + data.length) ++ bs.drop (offset + data.length) := by
    rw [writeAt, hgap, hsplit]
    simp
  rw [hwrite]
  have hlen : ((bs ++ rest).take (offset + data.length)).length = offset + data.length := by
    rw [hsplit, List.length_append, List.length_take, Nat.min_eq_left hoffset]
  refine ⟨?_, ?_, ?_⟩
  · rcases Nat.le_total (offset + data.length) bs.length with h | h
    · rw [List.take_append_of_le_length h, List.take_append_drop]
      exact List.prefix_append _ _
    · rw [List.drop_eq_nil_of_le h, List.append_nil]
      exact List.take_prefix _ _
  · rw [List.length_append, hlen, List.length_drop]
    omega
  · rw [List.length_append, hlen]
    omega

/-- The request carries its window of the source. -/
def UploadForm.From (F : Bytes) : UploadForm → Prop
  | .prepare .. => True
  | .chunk file _ _ _ offset _ _ => ∃ len, file = (F.drop offset).take len

/-- Such a request leaves a prefix of the source, which is no shorter. -/
theorem Depot.after_prefix {server : UploadForm → Bytes → Bool × Except String UploadResponse} {form : UploadForm}
    {F stored : Bytes} (hform : form.From F) (hstored : stored <+: F) :
    Depot.after server form stored <+: F ∧ stored.length ≤ (Depot.after server form stored).length := by
  unfold Depot.after
  split
  · cases form with
    | prepare => exact ⟨hstored, Nat.le_refl _⟩
    | chunk file fileMd5 fileName category offset partSize total =>
      obtain ⟨len, rfl⟩ := hform
      unfold UploadForm.storedIn
      simp only
      split
      · rename_i hoffset
        obtain ⟨hpre, hlength, -⟩ := writeAt_window hstored hoffset
        exact ⟨hpre, hlength⟩
      · exact ⟨hstored, Nat.le_refl _⟩
  · exact ⟨hstored, Nat.le_refl _⟩

/-! ## Honest answers -/

section
variable (decode : String → Except String DefaultUploadResp)

/-- An answer that the client takes for a success, with what it reads in it. -/
def Accepted (reply : Except String UploadResponse) (info : UploadResumeInfo) : Prop :=
  ∃ resp body, reply = .ok resp ∧ resp.status.isSuccess ∧ resp.body = .ok body ∧
    parseUploadResponse decode body = .ok info

/-- What such an answer says of the store. -/
def UploadForm.Vouched (stored : Bytes) (info : UploadResumeInfo) : UploadForm → Prop
  | .prepare .. => ∀ n, info.nextByte = some n → n ≤ stored.length
  | .chunk file _ _ _ offset _ _ => offset + file.length ≤ stored.length

/-- **What the server says is so**: a chunk with a good answer is stored, a resume offset is not past the end,
and a file id means that the file is complete. -/
def HonestDepot (F : Bytes) (server : UploadForm → Bytes → Bool × Except String UploadResponse) : Prop :=
  ∀ form stored, stored <+: F → ∀ info, Accepted decode (server form stored).2 info →
    form.Vouched (Depot.after server form stored) info ∧
      (info.completedFileId.isSome → Depot.after server form stored = F)

variable {decode}

theorem uploadInfo_accepted {reply : Except String UploadResponse} {resp : UploadResponse}
    {info : UploadResumeInfo} {failure : String → Ret UploadResumeInfo} (hfailure : ∀ body, failure body ≠ .ok info)
    (hreply : reply = .ok resp) (h : uploadInfo decode resp failure = .ok info) : Accepted decode reply info := by
  unfold uploadInfo at h
  obtain ⟨body, hbody, h⟩ := Except.bind_eq_ok.1 h
  split at h
  · exact absurd h (hfailure body)
  · rename_i hstatus
    exact ⟨resp, body, hreply, not_not.1 hstatus, mapReqwest_ok hbody, h⟩

end

/-! ## One call -/

/-- Source, store and server of the moment. -/
structure AtDepot (F stored : Bytes) (server : UploadForm → Bytes → Bool × Except String UploadResponse)
    (l : Local Depot Unit) : Prop where
  source : l.world.source = F
  stored : l.world.stored = stored
  server : l.world.server = server

section
variable {F stored : Bytes} {server : UploadForm → Bytes → Bool × Except String UploadResponse}
  {decode : String → Except String DefaultUploadResp} {task : InnerTask}

/-- A file call leaves the store alone. -/
theorem Triple.attempt {α : Type} {P : Local Depot Unit → Prop} {Q : α → Local Depot Unit → Prop}
    {E : Failure → Local Depot Unit → Prop} {e : MeowError} {f : Depot → Option (α × Depot)}
    (hok : ∀ l, P l → ∀ a w, f { l.world with faults := l.world.faults.tail } = some (a, w) →
      Q a { l with world := w })
    (hfail : ∀ l, P l → E (.err e) { l with world := { l.world with faults := l.world.faults.tail } }) :
    Triple P (SpottedCat.fileCall (fun w : Depot => w.attempt f) e) Q E := by
  refine Triple.fileCall fun l hl => ?_
  unfold Depot.attempt
  simp only
  by_cases hfault : l.world.faults.head? = some true
  · rw [if_pos hfault]
    exact hfail l hl
  · rw [if_neg hfault]
    cases hf : f { l.world with faults := l.world.faults.tail } with
    | none => exact hfail l hl
    | some r => exact hok l hl r.1 r.2 hf

theorem AtDepot.tail {l : Local Depot Unit} (h : AtDepot F stored server l) :
    AtDepot F stored server { l with world := { l.world with faults := l.world.faults.tail } } :=
  ⟨h.source, h.stored, h.server⟩

theorem depotOpen_spec : Triple (AtDepot F stored server) (openSource Depot.ops task)
    (fun _ => AtDepot F stored server) (fun _ => AtDepot F stored server) := by
  unfold openSource
  refine Triple.bind (Triple.get (R := fun _ => AtDepot F stored server) fun _ h => h) fun l0 => ?_
  split
  · exact Triple.pure fun _ h => h
  · refine Triple.bind (Q := fun _ => AtDepot F stored server)
      (Triple.attempt (f := fun w => some ((), { w with cursor := 0 })) (fun l h a w hw => ?_)
        fun l h => h.tail) fun opened => ?_
    · cases hw
      exact ⟨h.source, h.stored, h.server⟩
    refine Triple.bind (Triple.modify (R := fun _ => AtDepot F stored server) fun l h => ?_) fun _ => ?_
    · exact ⟨h.source, h.stored, h.server⟩
    exact Triple.pure fun _ h => h

/-- What is read is the window, in full. -/
theorem depotRead_spec {offset readLen : Nat} :
    Triple (AtDepot F stored server) (readSource Depot.ops task offset readLen)
      (fun buf l => (buf = (F.drop offset).take readLen ∧ buf.length = readLen) ∧ AtDepot F stored server l)
      (fun _ => AtDepot F stored server) := by
  unfold readSource
  refine Triple.bind depotOpen_spec fun file => ?_
  refine Triple.bind (Q := fun _ l => AtDepot F stored server l ∧ l.world.cursor = offset)
    (Triple.attempt (f := fun w => some ((), { w with cursor := offset })) (fun l h a w hw => ?_)
      fun l h => h.tail) fun _ => ?_
  · cases hw
    exact ⟨⟨h.source, h.stored, h.server⟩, rfl⟩
  refine Triple.attempt (f := fun w => if w.cursor + readLen ≤ w.source.length then
    some ((w.source.drop w.cursor).take readLen, { w with cursor := w.cursor + readLen }) else none)
    (fun l h buf w hw => ?_) fun l h => h.1.tail
  split at hw
  · rename_i hlen
    cases hw
    simp only at hlen
    rw [h.2, h.1.source] at hlen
    refine ⟨⟨by rw [h.2, h.1.source], ?_⟩, ⟨h.1.source, h.1.stored, h.1.server⟩⟩
    rw [h.2, h.1.source, List.length_take, List.length_drop]
    omega
  · cases hw

/-- A request, and what is stored after it. -/
theorem depotRequest_spec {form : UploadForm} :
    Triple (AtDepot F stored server) (request Depot.ops form)
      (fun resp l => (server form stored).2 = .ok resp ∧ AtDepot F (Depot.after server form stored) server l)
      (fun _ => AtDepot F (Depot.after server form stored) server) := by
  intro l h
  obtain ⟨⟨source, cursor, faults, kept, behaviour⟩, slot⟩ := l
  obtain ⟨rfl, rfl, rfl⟩ := h
  unfold request
  simp only [Depot.ops]
  cases hreply : (behaviour form kept).2 with
  | ok resp => exact ⟨rfl, rfl, rfl, rfl⟩
  | error e => exact ⟨rfl, rfl, rfl⟩

/-- **Preparing.** Nothing is stored, and the run starts within what is. -/
theorem depotPrepare_spec (category : String) (hserver : HonestDepot decode F server) (hstored : stored <+: F)
    (htotal : task.totalSize = F.length) {localOffset : Nat} (hlocal : localOffset ≤ stored.length) :
    Triple (AtDepot F stored server) (uploadPrepare Depot.ops decode category task localOffset)
      (fun outcome l => (outcome.totalSize = F.length ∧ outcome.nextOffset ≤ stored.length) ∧
        AtDepot F stored server l)
      (fun _ => AtDepot F stored server) := by
  unfold uploadPrepare
  generalize hform : UploadForm.prepare task.fileSign task.fileName category task.totalSize = form
  have hafter : Depot.after server form stored = stored := by
    subst hform
    unfold Depot.after UploadForm.storedIn
    simp
  have hrequest : Triple (AtDepot F stored server) (request Depot.ops form) _ _ := depotRequest_spec
  rw [hafter] at hrequest
  refine Triple.bind hrequest fun resp => Triple.assuming fun hreply => ?_
  refine Triple.bind (Triple.lift (Q := fun info l => Accepted decode (server form stored).2 info ∧
    AtDepot F stored server l) fun l h => ?_) fun info => Triple.assuming fun haccepted => ?_
  · cases hinfo : uploadInfo decode resp fun body =>
        failWith .responseStatusError s!"upload prepare HTTP {resp.status.text}: {body}" with
    | ok info => exact ⟨uploadInfo_accepted (fun _ hbad => by cases hbad) hreply hinfo, h⟩
    | error e => exact h
  · obtain ⟨hvouched, hwhole⟩ := hserver form stored hstored info haccepted
    rw [hafter] at hvouched hwhole
    split
    · rename_i hid
      refine Triple.pure fun l h => ⟨⟨htotal, ?_⟩, h⟩
      rw [htotal, hwhole hid]
    · subst hform
      refine Triple.pure fun l h => ⟨⟨htotal, ?_⟩, h⟩
      have hserverOff : info.nextByte.getD 0 ≤ stored.length := by
        cases hnext : info.nextByte with
        | none => exact Nat.zero_le _
        | some n => exact hvouched n hnext
      show min (max localOffset (info.nextByte.getD 0)) task.totalSize ≤ stored.length
      omega

/-- **One chunk**, from an offset within what is stored: nothing is lost, and what it says is through is. -/
theorem depotChunk_spec (build : Build) (category : String) (hserver : HonestDepot decode F server)
    (hstored : stored <+: F) (htotal : task.totalSize = F.length) (hF : F.length < u64Max) {offset : Nat}
    (hoffset : offset ≤ stored.length) {chunkSize : Nat} (hchunk : 1 ≤ chunkSize) :
    Triple (AtDepot F stored server) (uploadOneChunk Depot.ops build decode category task offset chunkSize)
      (fun outcome l => ∃ stored', AtDepot F stored' server l ∧ stored' <+: F ∧ stored.length ≤ stored'.length ∧
        outcome.totalSize = F.length ∧ outcome.nextOffset ≤ stored'.length ∧
          (outcome.done = true → stored' = F))
      (fun _ l => ∃ stored', AtDepot F stored' server l ∧ stored' <+: F ∧ stored.length ≤ stored'.length) := by
  have hfull (bs : Bytes) (hbs : bs <+: F) (hlen : F.length ≤ bs.length) : bs = F := hbs.eq_of_length_le hlen
  unfold uploadOneChunk
  simp only
  split
  · rename_i hend
    refine Triple.pure fun l h => ⟨stored, h, hstored, Nat.le_refl _, htotal, hoffset, fun _ => ?_⟩
    exact hfull stored hstored (by omega)
  rename_i hmore
  rw [if_neg (by omega)]
  generalize hlen : min chunkSize (task.totalSize - offset) = readLen
  refine Triple.bind (depotRead_spec.mono (fun _ h => h) (fun _ _ h => h) fun e l h =>
    ⟨stored, h, hstored, Nat.le_refl _⟩) fun buf => Triple.assuming fun hbuf => ?_
  generalize hform : UploadForm.chunk buf task.fileSign task.fileName category offset buf.length task.totalSize =
    form
  have hfrom : form.From F := by
    subst hform
    exact ⟨readLen, hbuf.1⟩
  obtain ⟨hpre, hgrown⟩ : Depot.after server form stored <+: F ∧
      stored.length ≤ (Depot.after server form stored).length := Depot.after_prefix hfrom hstored
  refine Triple.bind (depotRequest_spec.mono (fun _ h => h) (fun _ _ h => h) fun e l h =>
    ⟨_, h, hpre, hgrown⟩) fun resp => Triple.assuming fun hreply => ?_
  refine Triple.bind (Triple.lift (Q := fun info l => Accepted decode (server form stored).2 info ∧
    AtDepot F (Depot.after server form stored) server l) fun l h => ?_) fun info =>
      Triple.assuming fun haccepted => ?_
  · cases hinfo : uploadInfo decode resp fun body =>
        failWith .httpError s!"upload chunk HTTP {resp.status.text}: {body}" with
    | ok info => exact ⟨uploadInfo_accepted (fun _ hbad => by cases hbad) hreply hinfo, h⟩
    | error e => exact ⟨_, h, hpre, hgrown⟩
  obtain ⟨hvouched, hwhole⟩ := hserver form stored hstored info haccepted
  split
  · rename_i hid
    have hall := hwhole hid
    refine Triple.pure fun l h => ⟨_, h, hpre, hgrown, htotal, ?_, fun _ => hall⟩
    rw [hall, htotal]
  · subst hform
    have hsum : offset + buf.length ≤ F.length := Nat.le_trans hvouched hpre.length_le
    rw [u64Add_of_lt (Nat.lt_of_le_of_lt hsum hF)]
    refine Triple.bind (Triple.lift (Q := fun next l => next = offset + buf.length ∧
      AtDepot F (Depot.after server _ stored) server l) fun l h => ⟨rfl, h⟩) fun next =>
        Triple.assuming fun hnext => ?_
    subst hnext
    refine Triple.pure fun l h => ⟨_, h, hpre, hgrown, htotal, hvouched, fun hdone => ?_⟩
    have hreached := of_decide_eq_true hdone
    exact hfull _ hpre (by rw [htotal] at hreached; exact Nat.le_trans hreached hvouched)

end

end SpottedCat
