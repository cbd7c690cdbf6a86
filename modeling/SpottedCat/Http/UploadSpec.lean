import SpottedCat.Http.Upload

/-!
# One chunk of an upload, against a server that always answers

`Uplink` is the world of an upload: the source file, whose calls may fail as planned, and a server that
answers request number `k` with `replies k`. The responses are good ones, and number `k` carries the
`nextByte` `n k`.

* `uploadPrepare_spec`: the run starts at the larger of the remembered offset and `n 0`;
* `uploadOneChunk_spec`: a chunk is sent from the offset it was called with, and the next offset
  follows from that alone.
-/

namespace SpottedCat

structure Uplink where
  source : Bytes
  cursor : Nat
  /-- Which of the next file calls fail; further ones do not. -/
  faults : List Bool
  replies : ℕ → UploadResponse
  /-- Requests so far. -/
  sent : List UploadForm

namespace Uplink

def next (w : Uplink) : Uplink := { w with faults := w.faults.tail }

/-- A file call: it fails as planned, or by itself (`ok` is `none`). -/
def fileOp {α : Type} (w : Uplink) (ok : Option α) (after : Uplink) : Option α × Uplink :=
  if w.faults.head? = some true then (none, w.next)
  else
    match ok with
    | some a => (some a, after)
    | none => (none, w.next)

def ops : UploadOps Uplink Unit where
  openRead w := w.fileOp (some ()) { w.next with cursor := 0 }
  seek _ pos w := w.fileOp (some ()) { w.next with cursor := pos }
  readExact _ len w :=
    w.fileOp (if w.cursor + len ≤ w.source.length then some ((w.source.drop w.cursor).take len) else none)
      { w.next with cursor := w.cursor + len }
  send form w := (.ok (w.replies w.sent.length), { w with sent := w.sent ++ [form] })

end Uplink

/-- File, server and requests of the world; if `clean`, no call is planned to fail. -/
structure Link (source : Bytes) (replies : ℕ → UploadResponse) (clean : Prop) (sent : List UploadForm)
    (l : Local Uplink Unit) : Prop where
  source : l.world.source = source
  replies : l.world.replies = replies
  clean : clean → l.world.faults = []
  sent : l.world.sent = sent

section
variable {source : Bytes} {replies : ℕ → UploadResponse} {clean : Prop} {sent : List UploadForm}
  {l : Local Uplink Unit}

theorem Link.next (h : Link source replies clean sent l) :
    Link source replies clean sent { l with world := l.world.next } where
  source := h.source
  replies := h.replies
  clean hc := by
    change l.world.faults.tail = []
    rw [h.clean hc, List.tail_nil]
  sent := h.sent

/-- A planned failure. -/
theorem Link.not_clean (h : Link source replies clean sent l) (hfault : l.world.faults.head? = some true) :
    ¬ clean := by
  intro hc
  rw [h.clean hc] at hfault
  cases hfault

theorem Triple.fileOp {α : Type} {P : Local Uplink Unit → Prop} {Q : α → Local Uplink Unit → Prop}
    {E : Failure → Local Uplink Unit → Prop} {e : MeowError} {f : Uplink → Option α}
    {g : Uplink → Uplink}
    (hok : ∀ l, P l → ∀ a, f l.world = some a → Q a { l with world := g l.world })
    (hfail : ∀ l, P l → l.world.faults.head? = some true ∨ f l.world = none →
      E (.err e) { l with world := l.world.next }) :
    Triple P (SpottedCat.fileCall (fun w : Uplink => w.fileOp (f w) (g w)) e) Q E := by
  refine Triple.fileCall fun l hl => ?_
  unfold Uplink.fileOp
  by_cases hfault : l.world.faults.head? = some true
  · rw [if_pos hfault]
    exact hfail l hl (.inl hfault)
  · rw [if_neg hfault]
    cases ha : f l.world with
    | some a => exact hok l hl a ha
    | none => exact hfail l hl (.inr ha)

variable {decode : String → Except String DefaultUploadResp} {task : InnerTask}

/-! ## Reading -/

theorem openSource_spec :
    Triple (Link source replies clean sent) (openSource Uplink.ops task)
      (fun _ => Link source replies clean sent)
      (fun _ l => Link source replies clean sent l ∧ ¬ clean) := by
  unfold openSource
  refine Triple.bind (Triple.get (R := fun _ => Link source replies clean sent) fun _ h => h) fun l0 => ?_
  split
  · exact Triple.pure fun _ h => h
  · refine Triple.bind
      (Triple.fileOp (f := fun _ => some ()) (Q := fun _ => Link source replies clean sent)
        (fun l h _ _ => ?_) fun l h hfail => ?_) fun opened => ?_
    · exact ⟨h.next.source, h.next.replies, h.next.clean, h.next.sent⟩
    · exact ⟨h.next, h.not_clean (hfail.resolve_right (by simp))⟩
    refine Triple.bind (Triple.modify (R := fun _ => Link source replies clean sent) fun l h => ?_) fun _ => ?_
    · exact ⟨h.source, h.replies, h.clean, h.sent⟩
    exact Triple.pure fun _ h => h

/-- The buffer is full, or some call has failed: as planned, or because the file is too short. -/
theorem readSource_spec {offset readLen : Nat} :
    Triple (Link source replies clean sent) (readSource Uplink.ops task offset readLen)
      (fun buf l => buf.length = readLen ∧ Link source replies clean sent l)
      (fun _ l => Link source replies clean sent l ∧ ¬ (clean ∧ offset + readLen ≤ source.length)) := by
  unfold readSource
  refine Triple.bind (openSource_spec.mono (fun _ h => h) (fun _ _ h => h) fun e l h => ?_) fun file => ?_
  · exact ⟨h.1, fun hc => h.2 hc.1⟩
  refine Triple.bind
    (Triple.fileOp (f := fun _ => some ())
      (Q := fun _ l => Link source replies clean sent l ∧ l.world.cursor = offset)
      (fun l h _ _ => ?_) fun l h hfail => ?_) fun _ => ?_
  · exact ⟨⟨h.next.source, h.next.replies, h.next.clean, h.next.sent⟩, rfl⟩
  · exact ⟨h.next, fun hc => h.not_clean (hfail.resolve_right (by simp)) hc.1⟩
  refine Triple.fileOp (fun l h buf hbuf => ?_) fun l h hfail => ?_
  · split at hbuf
    · rename_i hlen
      cases hbuf
      refine ⟨?_, ⟨h.1.next.source, h.1.next.replies, h.1.next.clean, h.1.next.sent⟩⟩
      rw [List.length_take, List.length_drop]
      omega
    · cases hbuf
  · refine ⟨h.1.next, fun hc => ?_⟩
    rcases hfail with hfault | hshort
    · exact h.1.not_clean hfault hc.1
    · split at hshort
      · cases hshort
      · rename_i hlen
        rw [h.2, h.1.source] at hlen
        exact hlen hc.2

/-! ## Calls -/

theorem request_spec {form : UploadForm} {E : Failure → Local Uplink Unit → Prop} :
    Triple (Link source replies clean sent) (request Uplink.ops form)
      (fun resp l => resp = replies sent.length ∧ Link source replies clean (sent ++ [form]) l) E := by
  intro l h
  refine ⟨?_, h.source, h.replies, h.clean, ?_⟩
  · rw [← h.replies, ← h.sent]
  · rw [← h.sent]

variable {n : ℕ → ℕ}

/-- **Preparing**: one request, and the larger of the two offsets. -/
theorem uploadPrepare_spec (category : String) (task : InnerTask) (localOffset : Nat)
    (hreplies : ∀ k, Carries decode (replies k) (n k)) :
    Triple (Link source replies clean []) (uploadPrepare Uplink.ops decode category task localOffset)
      (fun outcome l =>
        outcome = ⟨min (max localOffset (n 0)) task.totalSize, task.totalSize⟩ ∧
          Link source replies clean
            [.prepare task.fileSign task.fileName category task.totalSize] l)
      (fun _ _ => False) := by
  unfold uploadPrepare
  refine Triple.bind request_spec fun resp => ?_
  refine Triple.assuming fun hresp => ?_
  subst hresp
  rw [uploadInfo_carries (hreplies _)]
  refine Triple.bind (Triple.lift (Q := fun info l => info = ⟨none, some (n 0)⟩ ∧ Link source replies clean
    [.prepare task.fileSign task.fileName category task.totalSize] l) fun l h => ⟨rfl, h⟩) fun info => ?_
  refine Triple.assuming fun hinfo => ?_
  subst hinfo
  exact Triple.pure fun l h => ⟨rfl, h⟩

/-- What is left to send is sent from the offset, or there is nothing left. -/
def Uploaded (source : Bytes) (replies : ℕ → UploadResponse) (clean : Prop) (sent : List UploadForm)
    (total offset chunkSize : Nat) (outcome : ChunkOutcome) (l : Local Uplink Unit) : Prop :=
  ((total ≤ offset ∨ chunkSize = 0) ∧ outcome = ⟨offset, total, true⟩ ∧ Link source replies clean sent l) ∨
    offset < total ∧
      outcome = ⟨min (offset + chunkSize) total, total, decide (min (offset + chunkSize) total ≥ total)⟩ ∧
      ∃ file fileMd5 fileName category partSize, offset + file.length = min (offset + chunkSize) total ∧
        Link source replies clean (sent ++ [.chunk file fileMd5 fileName category offset partSize total]) l

/-- **One chunk.** -/
theorem uploadOneChunk_spec (build : Build) (category : String) (task : InnerTask) (offset chunkSize : Nat)
    (hreplies : ∀ k, Carries decode (replies k) (n k)) (hT : task.totalSize < u64Max) :
    Triple (Link source replies clean sent)
      (uploadOneChunk Uplink.ops build decode category task offset chunkSize)
      (Uploaded source replies clean sent task.totalSize offset chunkSize)
      (fun _ l => Link source replies clean sent l ∧ ¬ (clean ∧ task.totalSize ≤ source.length)) := by
  unfold uploadOneChunk
  simp only
  split
  · rename_i hdone
    exact Triple.pure fun l h => .inl ⟨.inl hdone, rfl, h⟩
  · rename_i hoffset
    have hlt : offset < task.totalSize := Nat.not_le.1 hoffset
    split
    · rename_i hzero
      have hchunk : chunkSize = 0 := by omega
      exact Triple.pure fun l h => .inl ⟨.inr hchunk, rfl, h⟩
    · refine Triple.bind (readSource_spec.mono (fun _ h => h) (fun _ _ h => h) fun e l h => ?_) fun buf => ?_
      · exact ⟨h.1, fun hc => h.2 ⟨hc.1, by omega⟩⟩
      refine Triple.assuming fun hbuf => ?_
      refine Triple.bind request_spec fun resp => ?_
      refine Triple.assuming fun hresp => ?_
      subst hresp
      rw [uploadInfo_carries (hreplies _)]
      refine Triple.bind (Triple.lift (Q := fun info l => info = ⟨none, some (n sent.length)⟩ ∧
        Link source replies clean (sent ++ [.chunk buf task.fileSign task.fileName category offset buf.length
          task.totalSize]) l) fun l h => ⟨rfl, h⟩) fun info => ?_
      refine Triple.assuming fun hinfo => ?_
      subst hinfo
      have hnext : offset + buf.length = min (offset + chunkSize) task.totalSize := by omega
      rw [u64Add_of_lt (by omega), hnext]
      refine Triple.bind (Triple.lift (Q := fun next l => next = min (offset + chunkSize) task.totalSize ∧
        Link source replies clean (sent ++ [.chunk buf task.fileSign task.fileName category offset buf.length
          task.totalSize]) l) fun l h => ⟨rfl, h⟩) fun next => ?_
      refine Triple.assuming fun hsum => Triple.pure fun l h => .inr ⟨hlt, ?_, ?_⟩
      · rw [hsum]
      · exact ⟨buf, task.fileSign, task.fileName, category, buf.length, hnext, h⟩

end

end SpottedCat
