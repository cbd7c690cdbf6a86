import SpottedCat.Http.UploadSpec
import SpottedCat.Worker.Drive

/-!
# Gaps in an upload

A run of `run_group` over the upload functions, against a server that answers every request and reports
a `nextByte` each time: `n 0` to the prepare request, `n (k + 1)` to chunk request number `k`. An upload
has no gap when every chunk starts at or before the `nextByte` of the response before it, and when
`Completed` is only reported after every byte that a response has called missing was sent again
(`Gapless`).

The code looks at `n 0` only, and at that through the larger of it and the remembered offset. `Stays`
says which offsets and responses that suits, and `upload_no_gap_iff` that it suits no others.
-/

namespace SpottedCat

/-- The uploads of `DefaultHttpClient` (default_http_client.rs:700-744); in each `transfer_chunk`, the
file calls fail as planned. -/
def uploads (build : Build) (decode : String → Except String DefaultUploadResp) (category : String) :
    TransferTrait (Local Uplink Unit) Unit (List Bool) where
  prepare task localOffset _ := uploadPrepare Uplink.ops decode category task localOffset
  transferChunk task offset chunkSize _ faults := fun l =>
    uploadOneChunk Uplink.ops build decode category task offset chunkSize
      { l with world := { l.world with faults := faults } }

abbrev UploadRun := Drive (Local Uplink Unit)

def UploadRun.init (inner : InnerTask) (startOffset : Nat) (source : Bytes)
    (replies : ℕ → UploadResponse) : UploadRun where
  inner := inner
  startOffset := startOffset
  pc := .preparing
  loc := ⟨⟨source, 0, [], replies, []⟩, none⟩
  last := startOffset
  sent := []

/-- The offset of a chunk request. -/
def UploadForm.offset? : UploadForm → Option Nat
  | .prepare .. => none
  | .chunk _ _ _ _ offset _ _ => some offset

/-- Every chunk request starts at or before the `nextByte` of the response before it. -/
def NoGap (n : ℕ → ℕ) (sent : List UploadForm) : Prop :=
  ∀ k form offset, sent[k + 1]? = some form → form.offset? = some offset → offset ≤ n k

/-- The bytes of a request include byte `b` of the file. -/
def UploadForm.Covers (form : UploadForm) (b : Nat) : Prop :=
  match form with
  | .prepare .. => False
  | .chunk file _ _ _ offset _ _ => offset ≤ b ∧ b < offset + file.length

/-- Whatever byte a response calls missing, some later request carries. -/
def NoneSkipped (n : ℕ → ℕ) (total : Nat) (sent : List UploadForm) : Prop :=
  ∀ k < sent.length, ∀ b, n k ≤ b → b < total → ∃ (j : ℕ) (form : UploadForm),
    k < j ∧ sent[j]? = some form ∧ form.Covers b

/-- No request leaves a gap, and neither does the report that the upload is complete. -/
structure Gapless (n : ℕ → ℕ) (r : UploadRun) : Prop where
  requests : NoGap n r.loc.world.sent
  completed : ∀ key total, WorkerEvent.completed key total ∈ r.sent →
    NoneSkipped n r.inner.totalSize r.loc.world.sent

/-- Either the server has everything from the start; or the remembered offset is not ahead of the server's,
and no response falls behind the chunk that it answers. -/
def Stays (total chunkSize startOffset : ℕ) (n : ℕ → ℕ) : Prop :=
  total ≤ n 0 ∨
    startOffset ≤ n 0 ∧ ∀ k, n 0 + k * chunkSize < total → min (n 0 + (k + 1) * chunkSize) total ≤ n (k + 1)

theorem NoGap.nil {n : ℕ → ℕ} : NoGap n [] := fun _ _ _ h => nomatch h

theorem NoGap.snoc {n : ℕ → ℕ} {sent : List UploadForm} {form : UploadForm} (h : NoGap n sent)
    (hform : ∀ k offset, sent.length = k + 1 → form.offset? = some offset → offset ≤ n k) :
    NoGap n (sent ++ [form]) := by
  intro k form' offset hget hoffset
  rcases Nat.lt_trichotomy (k + 1) sent.length with hlt | heq | hgt
  · rw [List.getElem?_append_left hlt] at hget
    exact h k form' offset hget hoffset
  · rw [List.getElem?_append_right (by omega), heq, Nat.sub_self, List.getElem?_cons_zero] at hget
    cases hget
    exact hform k offset heq.symm hoffset
  · rw [List.getElem?_eq_none (by rw [List.length_append, List.length_singleton]; omega)] at hget
    cases hget

/-! ## Where the condition holds -/

/-- After `k` chunks the offset is `k` chunks past the first one, or the end. -/
def chunkOffset (total chunkSize start k : ℕ) : ℕ := min (start + k * chunkSize) total

theorem chunkOffset_succ (total chunkSize start k : ℕ) :
    min (chunkOffset total chunkSize start k + chunkSize) total = chunkOffset total chunkSize start (k + 1) := by
  unfold chunkOffset
  rw [Nat.succ_mul]
  omega

/-- Where the condition holds, no chunk starts past the response before it, and the last response is not
before the end of the file. -/
theorem Stays.le {total chunkSize startOffset k : ℕ} {n : ℕ → ℕ} (h : Stays total chunkSize startOffset n)
    (hk : k = 0 ∨ ∃ j, k = j + 1 ∧ chunkOffset total chunkSize (max startOffset (n 0)) j < total) :
    chunkOffset total chunkSize (max startOffset (n 0)) k ≤ n k := by
  unfold chunkOffset at hk ⊢
  rcases h with hend | ⟨hstart, hkeep⟩
  · rcases hk with rfl | ⟨j, rfl, hj⟩
    · omega
    · omega
  · rw [Nat.max_eq_right hstart] at hk ⊢
    rcases hk with rfl | ⟨j, rfl, hj⟩
    · omega
    · exact hkeep j (by omega)

/-- Between two offsets lies a chunk for every byte. -/
theorem exists_chunk {o : ℕ → ℕ} {k b : ℕ} (hlow : o k ≤ b) : ∀ m, b < o m → k ≤ m →
    ∃ j, k ≤ j ∧ j < m ∧ o j ≤ b ∧ b < o (j + 1)
  | 0, hb, hm => by
    obtain rfl : k = 0 := Nat.le_zero.1 hm
    omega
  | m + 1, hb, hm => by
    by_cases hlast : o m ≤ b
    · have hne : k ≠ m + 1 := by
        rintro rfl
        omega
      exact ⟨m, by omega, Nat.lt_succ_self m, hlast, hb⟩
    · have hne : k ≠ m + 1 := by
        rintro rfl
        omega
      obtain ⟨j, hkj, hjm, hj⟩ := exists_chunk hlow m (by omega) (by omega)
      exact ⟨j, hkj, by omega, hj⟩

/-- The prepare request and the first `k` chunks were sent. -/
structure SentChunks (total chunkSize start k : ℕ) (sent : List UploadForm) : Prop where
  length : sent.length = k + 1
  chunk : ∀ (j : ℕ) form, sent[j + 1]? = some form →
    chunkOffset total chunkSize start j < total ∧
      ∀ b, chunkOffset total chunkSize start j ≤ b → b < chunkOffset total chunkSize start (j + 1) →
        form.Covers b

theorem SentChunks.snoc {total chunkSize start k : ℕ} {sent : List UploadForm} {form : UploadForm}
    (h : SentChunks total chunkSize start k sent) (hlt : chunkOffset total chunkSize start k < total)
    (hform : ∀ b, chunkOffset total chunkSize start k ≤ b → b < chunkOffset total chunkSize start (k + 1) →
      form.Covers b) :
    SentChunks total chunkSize start (k + 1) (sent ++ [form]) := by
  refine ⟨by rw [List.length_append, h.length, List.length_singleton], fun j form' hget => ?_⟩
  rcases Nat.lt_trichotomy (j + 1) sent.length with hold | heq | hgt
  · rw [List.getElem?_append_left hold] at hget
    exact h.chunk j form' hget
  · rw [List.getElem?_append_right (by omega), heq, Nat.sub_self, List.getElem?_cons_zero] at hget
    cases hget
    obtain rfl : j = k := by
      have := h.length
      omega
    exact ⟨hlt, hform⟩
  · rw [List.getElem?_eq_none (by rw [List.length_append, List.length_singleton]; omega)] at hget
    cases hget

/-- All chunks were sent, and so nothing is skipped. -/
theorem SentChunks.noneSkipped {total chunkSize startOffset k : ℕ} {n : ℕ → ℕ} {sent : List UploadForm}
    (h : SentChunks total chunkSize (max startOffset (n 0)) k sent) (hstays : Stays total chunkSize startOffset n)
    (hend : total ≤ chunkOffset total chunkSize (max startOffset (n 0)) k) : NoneSkipped n total sent := by
  intro i hi b hlow hhigh
  have hle : chunkOffset total chunkSize (max startOffset (n 0)) i ≤ n i := by
    apply hstays.le
    cases i with
    | zero => exact .inl rfl
    | succ i => exact .inr ⟨i, rfl, (h.chunk i _ (List.getElem?_eq_getElem hi)).1⟩
  have hik : i ≤ k := by
    have := h.length
    omega
  obtain ⟨j, hij, hjk, hfrom, hto⟩ := exists_chunk (hle.trans hlow) k (by omega) hik
  have hj : j + 1 < sent.length := by
    rw [h.length]
    omega
  exact ⟨j + 1, sent[j + 1], by omega, List.getElem?_eq_getElem hj,
    (h.chunk j _ (List.getElem?_eq_getElem hj)).2 b hfrom hto⟩

def uploadInv (n : ℕ → ℕ) (replies : ℕ → UploadResponse) (inner : InnerTask) (startOffset : Nat) :
    CallInv (Local Uplink Unit) where
  always l _ := l.world.replies = replies ∧ NoGap n l.world.sent
  ready l := l.world.sent = []
  between offset _ l := ∃ k,
    SentChunks inner.totalSize inner.chunkSize (max startOffset (n 0)) k l.world.sent ∧
      offset = chunkOffset inner.totalSize inner.chunkSize (max startOffset (n 0)) k
  whole l := ∃ k, SentChunks inner.totalSize inner.chunkSize (max startOffset (n 0)) k l.world.sent ∧
    inner.totalSize ≤ chunkOffset inner.totalSize inner.chunkSize (max startOffset (n 0)) k

section
variable {build : Build} {decode : String → Except String DefaultUploadResp} {category : String}
  {n : ℕ → ℕ} {replies : ℕ → UploadResponse} {inner : InnerTask} {startOffset : Nat}

theorem uploads_keeps (hreplies : ∀ k, Carries decode (replies k) (n k)) (hT : inner.totalSize < u64Max)
    (hc : 0 < inner.chunkSize) (hstays : Stays inner.totalSize inner.chunkSize startOffset n) :
    Keeps (uploads build decode category) (uploadInv n replies inner startOffset) (fun _ => True) inner
      startOffset where
  prepare := by
    rintro _ l last - ⟨hrep, -⟩ hready
    have hlink : ∀ l0, l0 = l → Link l.world.source replies False [] l0 := by
      rintro l0 rfl
      exact ⟨rfl, hrep, nofun, hready⟩
    refine (uploadPrepare_spec category inner startOffset hreplies).mono hlink ?_ fun _ _ h => h.elim
    rintro outcome l' ⟨rfl, hlink⟩
    refine ⟨⟨hlink.replies, ?_⟩, ?_, 0, ?_, ?_⟩
    · rw [hlink.sent]
      exact NoGap.nil.snoc fun _ _ _ h => nomatch h
    · rintro ⟨k, hsent, -⟩
      have hlength := hsent.length
      rw [hready] at hlength
      cases hlength
    · rw [hlink.sent]
      exact ⟨rfl, fun j form h => nomatch h⟩
    · rw [chunkOffset, Nat.zero_mul, Nat.add_zero]
  chunk := by
    rintro faults l last offset knownTotal - ⟨hrep, hgap⟩ ⟨k, hsent, hoffset⟩
    have hlink : ∀ l0, l0 = l → Link l.world.source replies False l.world.sent
        { l0 with world := { l0.world with faults := faults } } := by
      rintro l0 rfl
      exact ⟨rfl, hrep, nofun, rfl⟩
    refine ((uploadOneChunk_spec build category inner offset inner.chunkSize hreplies hT).precomp
      hlink).mono (fun _ h => h) ?_ ?_
    · rintro outcome l' (⟨hdone, rfl, hl'⟩ | ⟨hlt, rfl, file, fileMd5, fileName, category', partSize, hlen, hl'⟩)
      · -- nothing was left to send
        have hend : inner.totalSize ≤ offset := hdone.resolve_right (by omega)
        have hwhole : (uploadInv n replies inner startOffset).whole l' := ⟨k, hl'.sent ▸ hsent, hoffset ▸ hend⟩
        exact ⟨⟨hl'.replies, hl'.sent ▸ hgap⟩, fun _ => hwhole, ⟨k, hl'.sent ▸ hsent, hoffset⟩, fun _ => hwhole⟩
      · have hlt' := hlt
        rw [hoffset] at hlt'
        have hle : offset ≤ n k := by
          rw [hoffset]
          apply hstays.le
          cases k with
          | zero => exact .inl rfl
          | succ j => exact .inr ⟨j, rfl, by unfold chunkOffset at hlt' ⊢; rw [Nat.succ_mul] at hlt'; omega⟩
        have hnext : min (offset + inner.chunkSize) inner.totalSize =
            chunkOffset inner.totalSize inner.chunkSize (max startOffset (n 0)) (k + 1) := by
          rw [← chunkOffset_succ, ← hoffset]
        have hsent' : SentChunks inner.totalSize inner.chunkSize (max startOffset (n 0)) (k + 1) l'.world.sent := by
          rw [hl'.sent]
          refine hsent.snoc hlt' fun b hfrom hto => ⟨hoffset ▸ hfrom, ?_⟩
          rw [hlen, hnext]
          exact hto
        refine ⟨⟨hl'.replies, ?_⟩, ?_, ⟨k + 1, hsent', hnext⟩, fun hdone => ?_⟩
        · rw [hl'.sent]
          refine hgap.snoc fun k' offset' hk' ho => ?_
          obtain rfl : k = k' := by
            have := hsent.length
            omega
          cases ho
          exact hle
        · rintro ⟨k', hall, hend⟩
          obtain rfl : k' = k := by
            have hlength := hall.length
            rw [hsent.length] at hlength
            omega
          omega
        · exact ⟨k + 1, hsent', hnext ▸ of_decide_eq_true hdone⟩
    · rintro e l' ⟨hl', -⟩
      refine ⟨⟨hl'.replies, hl'.sent ▸ hgap⟩, ?_, fun _ => ⟨k, hl'.sent ▸ hsent, hoffset⟩⟩
      rintro ⟨k', hall, hend⟩
      exact ⟨k', hl'.sent ▸ hall, hend⟩

/-! ## Where it does not -/

/-- About to send chunk number `k`, with nothing in the way. -/
structure AtChunk (replies : ℕ → UploadResponse) (start k : ℕ) (r : UploadRun) : Prop where
  pc : r.pc = .loopHead (start + k * r.inner.chunkSize) r.inner.totalSize
  link : ∃ source sent, r.inner.totalSize ≤ source.length ∧ sent.length = k + 1 ∧
    Link source replies True sent r.loc

/-- Chunk number `k` was sent. -/
structure SentChunk (replies : ℕ → UploadResponse) (start k : ℕ) (r : UploadRun) : Prop where
  pc : ∃ done, r.pc = .report (chunkOffset r.inner.totalSize r.inner.chunkSize start (k + 1)) r.inner.totalSize
    done ∧ done = decide (chunkOffset r.inner.totalSize r.inner.chunkSize start (k + 1) ≥ r.inner.totalSize)
  link : ∃ source sent form, r.inner.totalSize ≤ source.length ∧ sent.length = k + 1 ∧
    form.offset? = some (start + k * r.inner.chunkSize) ∧ Link source replies True (sent ++ [form]) r.loc

variable {r : UploadRun} {start k : ℕ}

theorem AtChunk.send (build : Build) (category : String)
    (hreplies : ∀ k, Carries decode (replies k) (n k)) (hT : r.inner.totalSize < u64Max)
    (hc : 0 < r.inner.chunkSize) (h : AtChunk replies start k r)
    (hk : start + k * r.inner.chunkSize < r.inner.totalSize) :
    ∃ acts r', Lts.run (Drive.step (uploads build decode category)) r acts = some r' ∧
      r'.inner = r.inner ∧ SentChunk replies start k r' := by
  obtain ⟨hpc, source, sent, hsource, hsent, hlink⟩ := h
  rcases hcall : (uploads build decode category).transferChunk r.inner (start + k * r.inner.chunkSize)
    r.inner.chunkSize r.inner.totalSize [] r.loc with ⟨ret, loc⟩
  have hlink0 : Link source replies True sent { r.loc with world := { r.loc.world with faults := [] } } :=
    ⟨hlink.source, hlink.replies, fun _ => rfl, hlink.sent⟩
  have hspec := (uploadOneChunk_spec build category r.inner (start + k * r.inner.chunkSize)
    r.inner.chunkSize hreplies hT).run hlink0
  rw [show uploadOneChunk Uplink.ops build decode category r.inner (start + k * r.inner.chunkSize)
    r.inner.chunkSize { r.loc with world := { r.loc.world with faults := [] } } = (ret, loc) from hcall] at hspec
  obtain ⟨outcome, hret, ⟨hend, -, -⟩ | ⟨-, rfl, file, fileMd5, fileName, category', partSize, -, hlink'⟩⟩ |
    ⟨e, -, -, hclean⟩ := hspec
  · omega
  · obtain rfl : ret = .ok _ := hret
    refine ⟨_, _, Drive.run_chunk hpc hcall, rfl, ⟨_, ?_, rfl⟩, source, sent, _, hsource, hsent, ?_, hlink'⟩
    · have hnext : min (start + k * r.inner.chunkSize + r.inner.chunkSize) r.inner.totalSize =
          chunkOffset r.inner.totalSize r.inner.chunkSize start (k + 1) := by
        rw [chunkOffset, Nat.succ_mul, Nat.add_assoc]
      simp only [hnext, ite_self]
    · rfl
  · exact absurd ⟨trivial, hsource⟩ hclean

/-- If that was not the last chunk, the next one follows. -/
theorem SentChunk.next (build : Build) (decode : String → Except String DefaultUploadResp)
    (category : String) (h : SentChunk replies start k r)
    (hk : start + (k + 1) * r.inner.chunkSize < r.inner.totalSize) :
    ∃ acts r', Lts.run (Drive.step (uploads build decode category)) r acts = some r' ∧
      r'.inner = r.inner ∧ AtChunk replies start (k + 1) r' := by
  obtain ⟨⟨done, hpc, hdone⟩, source, sent, form, hsource, hsent, -, hlink⟩ := h
  have hoffset : chunkOffset r.inner.totalSize r.inner.chunkSize start (k + 1) =
      start + (k + 1) * r.inner.chunkSize := Nat.min_eq_left hk.le
  have hmore : done = false := by
    rw [hdone, hoffset]
    exact decide_eq_false (Nat.not_le.2 hk)
  rw [hmore, hoffset] at hpc
  refine ⟨[.worker .sent], _, Lts.run_cons.2 ⟨_, Drive.step_report hpc, rfl⟩, rfl, rfl, source, _, hsource,
    ?_, hlink⟩
  rw [List.length_append, hsent, List.length_singleton]

theorem SentChunk.le (h : SentChunk replies start k r) (hgap : NoGap n r.loc.world.sent) :
    start + k * r.inner.chunkSize ≤ n k := by
  obtain ⟨-, source, sent, form, -, hsent, hform, hlink⟩ := h
  rw [hlink.sent] at hgap
  refine hgap k form _ ?_ hform
  rw [← hsent, List.getElem?_append_right le_rfl, Nat.sub_self, List.getElem?_cons_zero]

/-- After the report of the last chunk the run ends. -/
theorem run_completed {offset knownTotal : Nat} (build : Build) (decode : String → Except String DefaultUploadResp)
    (category : String) (hpc : r.pc = .report offset knownTotal true) :
    ∃ acts r', Lts.run (Drive.step (uploads build decode category)) r acts = some r' ∧ r'.inner = r.inner ∧
      r'.loc = r.loc ∧ .completed r.inner.dedupeKey knownTotal ∈ r'.sent := by
  obtain ⟨inner, startOffset, pc, loc, last, sent⟩ := r
  obtain rfl : pc = _ := hpc
  exact ⟨[.worker .sent, .worker .sent], _, rfl, rfl, rfl, List.mem_append_right _ (List.mem_singleton.2 rfl)⟩

/-- The last chunk was sent. -/
theorem SentChunk.completes (build : Build) (decode : String → Except String DefaultUploadResp) (category : String)
    (h : SentChunk replies start k r) (hk : r.inner.totalSize ≤ start + (k + 1) * r.inner.chunkSize) :
    ∃ acts r', Lts.run (Drive.step (uploads build decode category)) r acts = some r' ∧ r'.inner = r.inner ∧
      r'.loc.world.sent.length = k + 2 ∧ .completed r.inner.dedupeKey r.inner.totalSize ∈ r'.sent := by
  obtain ⟨⟨done, hpc, hdone⟩, source, sent, form, -, hsent, -, hlink⟩ := h
  have hoffset : chunkOffset r.inner.totalSize r.inner.chunkSize start (k + 1) = r.inner.totalSize :=
    Nat.min_eq_right hk
  rw [hoffset, decide_eq_true le_rfl] at hdone
  rw [hdone] at hpc
  obtain ⟨acts, r', hrun, hinner, hloc, hcompleted⟩ := run_completed build decode category hpc
  refine ⟨acts, r', hrun, hinner, ?_, hcompleted⟩
  rw [hloc, hlink.sent, List.length_append, hsent, List.length_singleton]

/-- Nobody sends after the last response, so that one calls nothing missing. -/
theorem NoneSkipped.last {total : ℕ} {sent : List UploadForm} (h : NoneSkipped n total sent)
    (hlength : sent.length = k + 1) : total ≤ n k := by
  by_contra hlt
  obtain ⟨j, form, hj, hget, -⟩ := h k (by omega) (n k) le_rfl (by omega)
  have := (List.getElem?_eq_some_iff.1 hget).1
  omega

variable {source : Bytes}

theorem init_prepared (build : Build) (category : String) (inner : InnerTask) (startOffset : Nat) (source : Bytes)
    (hreplies : ∀ k, Carries decode (replies k) (n k)) :
    ∃ acts r, Lts.run (Drive.step (uploads build decode category))
        (UploadRun.init inner startOffset source replies) acts = some r ∧ r.inner = inner ∧
      r.pc = .loopHead (min (max startOffset (n 0)) inner.totalSize) inner.totalSize ∧
      ∃ sent, sent.length = 1 ∧ Link source replies True sent r.loc := by
  rcases hcall : (uploads build decode category).prepare inner startOffset ()
    (UploadRun.init inner startOffset source replies).loc with ⟨ret, loc⟩
  have hlink0 : Link source replies True [] (UploadRun.init inner startOffset source replies).loc :=
    ⟨rfl, rfl, fun _ => rfl, rfl⟩
  have hspec := (uploadPrepare_spec category inner startOffset hreplies).run hlink0
  rw [show uploadPrepare Uplink.ops decode category inner startOffset
    (UploadRun.init inner startOffset source replies).loc = (ret, loc) from hcall] at hspec
  obtain ⟨outcome, hret, rfl, hlink⟩ | ⟨_, _, hfalse⟩ := hspec
  · obtain rfl : ret = .ok _ := hret
    have hstep := Drive.step_prepare (r := UploadRun.init inner startOffset source replies) rfl hcall
    refine ⟨[.prepare ()], _, Lts.run_cons.2 ⟨_, hstep, rfl⟩, rfl, ?_, _, rfl, hlink⟩
    simp only
    rw [show (UploadRun.init inner startOffset source replies).inner = inner from rfl, ite_self]
  · exact hfalse.elim

theorem init_atChunk (hreplies : ∀ k, Carries decode (replies k) (n k))
    (hsource : inner.totalSize ≤ source.length) (hstart : max startOffset (n 0) ≤ inner.totalSize) :
    ∃ acts r, Lts.run (Drive.step (uploads build decode category))
        (UploadRun.init inner startOffset source replies) acts = some r ∧
      r.inner = inner ∧ AtChunk replies (max startOffset (n 0)) 0 r := by
  obtain ⟨acts, r, hrun, rfl, hpc, sent, hsent, hlink⟩ :=
    init_prepared build category inner startOffset source hreplies
  refine ⟨acts, r, hrun, rfl, ?_, source, sent, hsource, hsent, hlink⟩
  rw [hpc, Nat.min_eq_left hstart, Nat.zero_mul, Nat.add_zero]

/-- With nothing left to send, the run completes after the prepare request. -/
theorem init_completes (build : Build) (category : String) (source : Bytes)
    (hreplies : ∀ k, Carries decode (replies k) (n k)) (hend : inner.totalSize ≤ max startOffset (n 0)) :
    ∃ acts r, Lts.run (Drive.step (uploads build decode category))
        (UploadRun.init inner startOffset source replies) acts = some r ∧ r.inner = inner ∧
      r.loc.world.sent.length = 1 ∧ .completed inner.dedupeKey inner.totalSize ∈ r.sent := by
  obtain ⟨acts, r, hrun, rfl, hpc, sent, hsent, hlink⟩ :=
    init_prepared build category inner startOffset source hreplies
  rw [Nat.min_eq_right hend] at hpc
  have hcall : (uploads build decode category).transferChunk r.inner r.inner.totalSize r.inner.chunkSize
      r.inner.totalSize [] r.loc =
        (.ok ⟨r.inner.totalSize, r.inner.totalSize, true⟩,
          { r.loc with world := { r.loc.world with faults := [] } }) := by
    simp only [uploads, uploadOneChunk, ge_iff_le, le_refl, if_true]
    rfl
  have hchunk := Drive.run_chunk hpc hcall
  rw [ite_self] at hchunk
  obtain ⟨acts', r', hrun', hinner', hloc', hcompleted⟩ := run_completed (r := { r with
    pc := .report r.inner.totalSize r.inner.totalSize true
    loc := { r.loc with world := { r.loc.world with faults := [] } }
    last := r.inner.totalSize }) build decode category rfl
  refine ⟨_, r', Lts.run_append.2 ⟨r, hrun, Lts.run_append.2 ⟨_, hchunk, hrun'⟩⟩, hinner', ?_, hcompleted⟩
  rw [hloc']
  exact (congrArg List.length hlink.sent).trans hsent

/-- Every chunk gets its turn. -/
theorem reaches_atChunk (build : Build) (category : String) (source : Bytes)
    (hreplies : ∀ k, Carries decode (replies k) (n k))
    (hT : inner.totalSize < u64Max) (hc : 0 < inner.chunkSize) (hsource : inner.totalSize ≤ source.length) :
    ∀ k, max startOffset (n 0) + k * inner.chunkSize < inner.totalSize →
      ∃ acts r, Lts.run (Drive.step (uploads build decode category))
          (UploadRun.init inner startOffset source replies) acts = some r ∧
        r.inner = inner ∧ AtChunk replies (max startOffset (n 0)) k r
  | 0, hk => init_atChunk hreplies hsource (by omega)
  | k + 1, hk => by
    rw [Nat.succ_mul] at hk
    obtain ⟨acts1, r1, hrun1, rfl, h1⟩ :=
      reaches_atChunk build category source hreplies hT hc hsource k (by omega)
    obtain ⟨acts2, r2, hrun2, hinner2, h2⟩ := h1.send build category hreplies hT hc (by omega)
    rw [← hinner2] at hk
    obtain ⟨acts3, r3, hrun3, hinner3, h3⟩ := h2.next build decode category (by rw [Nat.succ_mul]; exact hk)
    have hrun := Lts.run_append.2 ⟨r1, hrun1, Lts.run_append.2 ⟨r2, hrun2, hrun3⟩⟩
    exact ⟨_, r3, hrun, hinner3.trans hinner2, h3⟩

/-- **When an upload has no gap.** Whatever file is read, however its calls fail and whenever the worker
is cancelled: exactly under `Stays`. -/
theorem upload_no_gap_iff (hreplies : ∀ k, Carries decode (replies k) (n k))
    (hT : inner.totalSize < u64Max) (hc : 0 < inner.chunkSize) :
    (∀ source acts r, Lts.run (Drive.step (uploads build decode category))
        (UploadRun.init inner startOffset source replies) acts = some r → Gapless n r) ↔
      Stays inner.totalSize inner.chunkSize startOffset n := by
  constructor
  · intro hall
    by_cases hend : inner.totalSize ≤ n 0
    · exact .inl hend
    -- a run that sends nothing would complete with bytes missing
    have hstart : max startOffset (n 0) < inner.totalSize := by
      by_contra hnone
      obtain ⟨acts, r, hrun, rfl, hlength, hcompleted⟩ := init_completes build category [] hreplies
        (Nat.not_lt.1 hnone)
      exact hend (((hall _ _ r hrun).completed _ _ hcompleted).last hlength)
    -- against a file that is long enough, every chunk that is due is sent
    have hsent : ∀ k, max startOffset (n 0) + k * inner.chunkSize < inner.totalSize →
        max startOffset (n 0) + k * inner.chunkSize ≤ n k ∧
          (inner.totalSize ≤ max startOffset (n 0) + (k + 1) * inner.chunkSize → inner.totalSize ≤ n (k + 1)) := by
      intro k hk
      obtain ⟨acts1, r1, hrun1, rfl, h1⟩ := reaches_atChunk build category
        (List.replicate inner.totalSize 0) hreplies hT hc (List.length_replicate.symm.le) k hk
      obtain ⟨acts2, r2, hrun2, hinner2, h2⟩ := h1.send build category hreplies hT hc hk
      have hrun := Lts.run_append.2 ⟨r1, hrun1, hrun2⟩
      refine ⟨?_, fun hlast => ?_⟩
      · rw [← hinner2]
        exact h2.le (hall _ _ r2 hrun).requests
      · rw [← hinner2] at hlast ⊢
        obtain ⟨acts3, r3, hrun3, hinner3, hlength, hcompleted⟩ := h2.completes build decode category hlast
        have hgap := hall _ _ r3 (Lts.run_append.2 ⟨r2, hrun, hrun3⟩)
        rw [← hinner3]
        exact (hgap.completed _ _ hcompleted).last hlength
    have h0 := (hsent 0 (by omega)).1
    have hle : startOffset ≤ n 0 := by omega
    rw [Nat.max_eq_right hle] at hsent
    refine .inr ⟨hle, fun k hk => ?_⟩
    rcases Nat.lt_or_ge (n 0 + (k + 1) * inner.chunkSize) inner.totalSize with hmore | hlast
    · rw [Nat.min_eq_left hmore.le]
      exact (hsent (k + 1) hmore).1
    · rw [Nat.min_eq_right hlast]
      exact (hsent k hk).2 hlast
  · intro hstays source acts r hrun
    have hinit : (UploadRun.init inner startOffset source replies).Good
        (uploadInv n replies inner startOffset) :=
      ⟨⟨rfl, NoGap.nil⟩, rfl, fun _ _ hmem => nomatch hmem⟩
    have hkeeps : Keeps (uploads build decode category) (uploadInv n replies inner startOffset)
        (fun _ => True) inner startOffset := uploads_keeps hreplies hT hc hstays
    have hgood := hinit.run hkeeps (fun _ _ => trivial) hrun
    have hinner : r.inner = inner := Lts.run_invariant (I := fun s : UploadRun => s.inner = inner)
      (fun _ _ _ hs hstep => (Drive.step_inner hstep).trans hs) rfl hrun
    refine ⟨hgood.always.2, fun key total hmem => ?_⟩
    obtain ⟨k, hsent, hend⟩ := hgood.completed key total hmem
    rw [hinner]
    exact hsent.noneSkipped hstays hend

end

/-! ### A server that has nothing -/

/-- Eight bytes in one chunk. -/
def sampleUpload : InnerTask where
  taskId := ⟨2⟩
  fileSign := "sign"
  fileName := "cat"
  filePath := ⟨"/tmp/cat", some "/tmp"⟩
  direction := .upload
  totalSize := 8
  chunkSize := 8
  url := "http://cat"
  maxChunkRetries := 3

/-- `serde_json` on the one body below. -/
def sampleDecode (body : String) : Except String DefaultUploadResp :=
  if body = "\x7b\"nextByte\":0\x7d" then .ok ⟨none, some 0⟩
  else .error "expected value at line 1 column 1"

def sampleReply : UploadResponse := ⟨⟨200, "200 OK"⟩, .ok "\x7b\"nextByte\":0\x7d"⟩

theorem sampleReply_carries : Carries sampleDecode sampleReply 0 :=
  ⟨by decide, _, rfl, by decide, by decide⟩

def sampleUploadRun (startOffset : Nat) : UploadRun :=
  UploadRun.init sampleUpload startOffset [1, 2, 3, 4, 5, 6, 7, 8] fun _ => sampleReply

def sampleUploadActs : List (DriveAct Unit (List Bool)) :=
  [.prepare (), .worker (.token false), .worker (.attempt (.token false)), .chunk [], .worker .sent,
    .worker .sent]

/-- `serde_json` on the two bodies below. -/
def keepingDecode (body : String) : Except String DefaultUploadResp :=
  if body = "\x7b\"nextByte\":8\x7d" then .ok ⟨none, some 8⟩ else sampleDecode body

/-- Nothing is there at first, and all eight bytes after the first chunk. -/
def keepingReply (k : ℕ) : UploadResponse :=
  if k = 0 then sampleReply else ⟨⟨200, "200 OK"⟩, .ok "\x7b\"nextByte\":8\x7d"⟩

/-- From the start, the one chunk is sent whole. -/
theorem upload_no_gap_iff_fresh :
    Gapless (fun k => if k = 0 then 0 else 8) (Lts.final (Drive.step (uploads .release keepingDecode ""))
      (UploadRun.init sampleUpload 0 [1, 2, 3, 4, 5, 6, 7, 8] keepingReply) sampleUploadActs) := by
  have hcarries : ∀ k, Carries keepingDecode (keepingReply k) (if k = 0 then 0 else 8) := by
    intro k
    by_cases hk : k = 0
    · simp only [keepingReply, if_pos hk]
      exact ⟨by decide, _, rfl, by decide, by decide⟩
    · simp only [keepingReply, if_neg hk]
      exact ⟨by decide, _, rfl, by decide, by decide⟩
  have hstays : Stays sampleUpload.totalSize sampleUpload.chunkSize 0 fun k => if k = 0 then 0 else 8 :=
    .inr ⟨le_rfl, fun k _ => Nat.min_le_right _ _⟩
  exact (upload_no_gap_iff hcarries (by decide) (by decide)).2 hstays _ sampleUploadActs _ (Lts.run_final (by decide))

/-- From a remembered offset 4: the server has lost the first four bytes and says so, the only chunk
starts at 4, and the upload is reported as completed. -/
theorem upload_skips_lost_bytes :
    Carries sampleDecode sampleReply 0 ∧
      ¬ Gapless (fun _ => 0) (Lts.final (Drive.step (uploads .release sampleDecode "")) (sampleUploadRun 4)
        sampleUploadActs) ∧
      .completed sampleUpload.dedupeKey 8 ∈ (Lts.final (Drive.step (uploads .release sampleDecode ""))
        (sampleUploadRun 4) sampleUploadActs).sent := by
  refine ⟨sampleReply_carries, fun hgap => ?_, by decide⟩
  have h := hgap.requests 0 (.chunk [5, 6, 7, 8] "sign" "cat" "" 4 4 8) 4 (by decide) rfl
  exact absurd h (by decide)

end SpottedCat
