import SpottedCat.Http.WorkerEnds

/-!
# The chunks of an upload (`exec.rs:177-263`, `default_http_client.rs:288-383`)

A worker that nobody cancels uploads a file that does not change, from a prepared offset. The server accepts
each chunk, without a file id before the last one, after some failures that may be tried again.

* `InOrder`: a log of requests in which each is for the first window that has not been acknowledged;
* `Sending`: where such a run stands; `Sending.step` is one of its steps;
* `file_is_tiled`: the acknowledged requests are the windows of the rest of the file, in order.
-/

namespace SpottedCat

abbrev WireLog := List (UploadForm × Except String UploadResponse)

/-- A good status, and a body that can be read. -/
def acknowledges : Except String UploadResponse → Bool
  | .ok ⟨status, .ok _⟩ => status.isSuccess
  | _ => false

/-- The requests that were acknowledged. -/
def acknowledged (log : WireLog) : List UploadForm :=
  (log.filter fun entry => acknowledges entry.2).map Prod.fst

def UploadForm.isChunk : UploadForm → Bool
  | .chunk .. => true
  | .prepare .. => false

/-- The requests for chunks. -/
def chunkRequests (log : WireLog) : WireLog := log.filter fun entry => entry.1.isChunk

theorem Retried.not_acknowledged {reply : Except String UploadResponse} (h : Retried reply) :
    acknowledges reply = false := by
  cases h with
  | lost e => rfl
  | @unread resp e hbody =>
    obtain ⟨status, body⟩ := resp
    obtain rfl : body = _ := hbody
    rfl
  | @status resp hstatus =>
    obtain ⟨status, body⟩ := resp
    cases body with
    | error e => rfl
    | ok body => exact hstatus

/-- The server accepts a chunk. It may answer with a file id only where `last`. -/
def Accepts (decode : String → Except String DefaultUploadResp) (last : Prop)
    (reply : Except String UploadResponse) : Prop :=
  ∃ resp body info, reply = .ok resp ∧ resp.status.isSuccess = true ∧ resp.body = .ok body ∧
    parseUploadResponse decode body = .ok info ∧ (info.completedFileId = none ∨ last)

section
variable {decode : String → Except String DefaultUploadResp} {last : Prop}
  {reply : Except String UploadResponse}

theorem Accepts.acknowledged (h : Accepts decode last reply) : acknowledges reply = true := by
  obtain ⟨⟨status, body⟩, text, info, rfl, hstatus, rfl, -⟩ := h
  exact hstatus

theorem uploadAnswer_accepted (build : Build) {total offset len : Nat}
    (h : Accepts decode (offset + len = total) reply) (hle : offset + len ≤ total) (hT : total < u64Max) :
    uploadAnswer build decode total offset len reply =
      .ok ⟨offset + len, total, decide (offset + len ≥ total)⟩ := by
  obtain ⟨resp, body, info, rfl, hstatus, hbody, hparse, hid⟩ := h
  have hinfo (failure : String → Ret UploadResumeInfo) : uploadInfo decode resp failure = .ok info := by
    unfold uploadInfo
    rw [hbody]
    exact (if_neg (not_not.2 hstatus)).trans hparse
  simp only [uploadAnswer, mapReqwest, bind, Except.bind, hinfo]
  split
  · rename_i hsome
    have hlast : offset + len = total := by
      rcases hid with hnone | hlast
      · rw [hnone] at hsome
        cases hsome
      · exact hlast
    rw [hlast, decide_eq_true le_rfl]
    rfl
  · rw [u64Add_of_lt (by omega)]
    rfl

theorem Accepts.mono {last' : Prop} (h : Accepts decode last reply) (hlast : last → last') :
    Accepts decode last' reply := by
  obtain ⟨resp, body, info, hreply, hstatus, hbody, hparse, hid⟩ := h
  exact ⟨resp, body, info, hreply, hstatus, hbody, hparse, hid.imp_right hlast⟩

/-- An empty body is accepted, whatever the decoder. -/
def emptyReply : Except String UploadResponse := .ok ⟨⟨200, "200 OK"⟩, .ok ""⟩

theorem emptyReply_accepted (decode : String → Except String DefaultUploadResp) (last : Prop) :
    Accepts decode last emptyReply :=
  ⟨_, _, ⟨none, none⟩, rfl, rfl, rfl, rfl, .inl rfl⟩

end

/-! ## Requests in order -/

/-- The first `k` windows were acknowledged in order, and each request was for the window after those that had
been acknowledged before it. -/
structure InOrder (window : Nat → UploadForm) (k : Nat) (log : WireLog) : Prop where
  acked : acknowledged log = (List.range k).map window
  resent : ∀ before entry, before ++ [entry] <+: log → entry.1 = window (acknowledged before).length

section
variable {window : Nat → UploadForm} {k : Nat} {log : WireLog} {reply : Except String UploadResponse}

theorem InOrder.nil : InOrder window 0 [] := by
  refine ⟨rfl, fun before entry h => ?_⟩
  rw [List.prefix_nil] at h
  simp at h

theorem acknowledged_snoc (log : WireLog) (form : UploadForm) (reply : Except String UploadResponse) :
    acknowledged (log ++ [(form, reply)]) =
      acknowledged log ++ (if acknowledges reply = true then [form] else []) := by
  simp only [acknowledged, List.filter_append, List.map_append, List.filter_cons, List.filter_nil]
  split <;> rfl

theorem InOrder.request (h : InOrder window k log) (reply : Except String UploadResponse) :
    ∀ before entry, before ++ [entry] <+: log ++ [(window k, reply)] →
      entry.1 = window (acknowledged before).length := by
  intro before entry hprefix
  rcases List.prefix_concat_iff.1 hprefix with heq | hold
  · obtain ⟨rfl, hentry⟩ := List.append_inj' heq rfl
    rw [List.cons.inj hentry |>.1, h.acked, List.length_map, List.length_range]
  · exact h.resent before entry hold

theorem InOrder.failed (h : InOrder window k log) (hreply : acknowledges reply = false) :
    InOrder window k (log ++ [(window k, reply)]) := by
  refine ⟨?_, h.request reply⟩
  rw [acknowledged_snoc, hreply, h.acked]
  simp

theorem InOrder.accepted (h : InOrder window k log) (hreply : acknowledges reply = true) :
    InOrder window (k + 1) (log ++ [(window k, reply)]) := by
  refine ⟨?_, h.request reply⟩
  rw [acknowledged_snoc, hreply, h.acked, List.range_succ, List.map_append]
  simp

end

/-! ## Windows -/

/-- How many windows of `size` it takes from `start` to `total`. -/
def chunkCount (total size start : Nat) : Nat := (total - start + size - 1) / size

theorem lt_chunkCount_iff {total size start k : Nat} (hsize : 1 ≤ size) :
    k < chunkCount total size start ↔ start + k * size < total := by
  rw [chunkCount, ← Nat.succ_le_iff, Nat.le_div_iff_mul_le hsize, Nat.succ_mul]
  omega

/-- The request for window number `k`, cut at the end of the file. -/
def windowForm (task : InnerTask) (category : String) (source : Bytes) (start k : Nat) : UploadForm :=
  chunkForm task category source (start + k * task.chunkSize)
    (min task.chunkSize (task.totalSize - (start + k * task.chunkSize)))

/-! ## One step of the run -/

/-- Nobody cancels, `prepare` is answered with `first`, and in the call of an attempt the server accepts the
chunk, or it fails so that it may be tried again and an attempt is left. -/
def Willing (decode : String → Except String DefaultUploadResp) (first : Except String UploadResponse)
    (r : Drive (Local Wire Unit)) : DriveAct (PrepareCall Wire) (TransferCall Wire) → Prop
  | .prepare call => call = .answered first
  | .chunk call => ∃ reply, call = .answered reply ∧
      match r.pc with
      | .retry offset _ (.calling attempt) =>
        Accepts decode (r.inner.totalSize ≤ offset + r.inner.chunkSize) reply ∨
          Retried reply ∧ attempt < r.inner.maxChunkRetries
      | _ => True
  | .worker input => input.Sees false

/-- The first `k` windows are there. -/
structure SentSoFar (task : InnerTask) (category : String) (source : Bytes) (start k : Nat) (w : Wire) : Prop where
  file : w.source = source
  requests : InOrder (windowForm task category source start) k (chunkRequests w.log)

/-- The next window is number `k`; there is none only at the end from the beginning. -/
structure BeforeChunk (task : InnerTask) (category : String) (source : Bytes) (start offset knownTotal : Nat)
    (w : Wire) (k : Nat) : Prop where
  sent : SentSoFar task category source start k w
  offset : offset = start + k * task.chunkSize
  total : knownTotal = task.totalSize
  more : k < chunkCount task.totalSize task.chunkSize start ∨ start = task.totalSize ∧ k = 0

/-- Where the worker stands, from a prepared offset `start`. -/
def Sending (fs : FileOps Wire Unit) (build : Build) (decode : String → Except String DefaultUploadResp)
    (category : String) (first : Except String UploadResponse) (source : Bytes) (start : Nat)
    (r : Drive (Local Wire Unit)) : Prop :=
  ∃ k ≤ chunkCount r.inner.totalSize r.inner.chunkSize start, match r.pc with
    | .preparing =>
      k = 0 ∧ SentSoFar r.inner category source start 0 r.loc.world ∧
        ((defaultHttpClient fs Wire.ops build decode category).prepare r.inner r.startOffset (.answered first)
          r.loc).1 = .ok ⟨start, r.inner.totalSize⟩
    | .loopHead offset knownTotal | .retry offset knownTotal _ =>
      BeforeChunk r.inner category source start offset knownTotal r.loc.world k
    | .report offset knownTotal done =>
      SentSoFar r.inner category source start k r.loc.world ∧
        offset = chunkOffset r.inner.totalSize r.inner.chunkSize start k ∧ knownTotal = r.inner.totalSize ∧
        done = decide (r.inner.totalSize ≤ offset)
    | .joining => False
    | .finish event =>
      k = chunkCount r.inner.totalSize r.inner.chunkSize start ∧
        SentSoFar r.inner category source start k r.loc.world ∧
        event = .completed r.inner.dedupeKey r.inner.totalSize
    | .ended =>
      k = chunkCount r.inner.totalSize r.inner.chunkSize start ∧
        SentSoFar r.inner category source start k r.loc.world ∧
        r.sent.getLast? = some (.completed r.inner.dedupeKey r.inner.totalSize)

section
variable {fs : FileOps Wire Unit} {build : Build} {decode : String → Except String DefaultUploadResp}
  {category : String} {first : Except String UploadResponse} {source : Bytes} {start offset knownTotal k : Nat}
  {r r' : Drive (Local Wire Unit)}

/-- A log that has grown by one request for a chunk. -/
theorem chunkRequests_sent (w : Wire) (task : InnerTask) (offset len : Nat)
    (reply : Except String UploadResponse) :
    chunkRequests (w.sent task category offset len reply).log =
      chunkRequests w.log ++ [(chunkForm task category w.source offset len, reply)] := by
  simp [chunkRequests, Wire.sent, List.filter_append, chunkForm, UploadForm.isChunk]

/-- A call for window number `k`: the request is for this window, and what it returns follows from the
answer. -/
theorem BeforeChunk.calls {task : InnerTask} {l : Local Wire Unit}
    (h : BeforeChunk task category source start offset knownTotal l.world k)
    (hup : task.direction = .upload) (hchunk : 1 ≤ task.chunkSize) (hsource : source.length = task.totalSize)
    (hk : k < chunkCount task.totalSize task.chunkSize start) (reply : Except String UploadResponse) :
    ∃ w, w.source = source ∧
      chunkRequests w.log = chunkRequests l.world.log ++ [(windowForm task category source start k, reply)] ∧
        (defaultHttpClient fs Wire.ops build decode category).transferChunk task offset task.chunkSize knownTotal
          (.answered reply) l =
            (uploadAnswer build decode task.totalSize offset (min task.chunkSize (task.totalSize - offset)) reply,
              ⟨w, some ()⟩) := by
  obtain ⟨⟨hfile, hrequests⟩, hoffset, htotal, -⟩ := h
  have hlt := (lt_chunkCount_iff hchunk).1 hk
  rw [← hoffset] at hlt
  refine ⟨_, ?_, ?_, answered_sends hup hlt hchunk ?_⟩
  · exact hfile
  · rw [chunkRequests_sent, hfile, hoffset]
    rfl
  · rw [hfile, hsource]
    omega

/-- **The call of an attempt.** -/
theorem Sending.called {attempt : Nat} {reply : Except String UploadResponse} {ret : Ret ChunkOutcome}
    {loc : Local Wire Unit} (hup : r.inner.direction = .upload) (hchunk : 1 ≤ r.inner.chunkSize)
    (hT : r.inner.totalSize < u64Max) (hsource : source.length = r.inner.totalSize)
    (h : BeforeChunk r.inner category source start offset knownTotal r.loc.world k)
    (hwilling : Accepts decode (r.inner.totalSize ≤ offset + r.inner.chunkSize) reply ∨
      Retried reply ∧ attempt < r.inner.maxChunkRetries)
    (hcall : (defaultHttpClient fs Wire.ops build decode category).transferChunk r.inner offset r.inner.chunkSize
      knownTotal (.answered reply) r.loc = (ret, loc)) :
    Sending fs build decode category first source start { r with
      pc := afterRetry r.inner.dedupeKey offset knownTotal (Retry.afterCall r.inner.maxChunkRetries attempt ret)
      loc := loc
      last := offsetAfter r.last ret } := by
  have htotal := h.total
  rcases h.more with hk | ⟨hstart, rfl⟩
  · obtain ⟨w, hfile, hlog, hsends⟩ := h.calls hup hchunk hsource hk reply
    obtain ⟨hret, rfl⟩ := Prod.mk.inj (hsends.symm.trans hcall)
    have hoffset := h.offset
    have hlt := (lt_chunkCount_iff hchunk).1 hk
    rw [← hoffset] at hlt
    rcases hwilling with haccept | ⟨hretried, hattempt⟩
    · -- the window is acknowledged
      have hnext : offset + min r.inner.chunkSize (r.inner.totalSize - offset) =
          chunkOffset r.inner.totalSize r.inner.chunkSize start (k + 1) := by
        rw [chunkOffset, Nat.succ_mul]
        omega
      have hanswer : uploadAnswer build decode r.inner.totalSize offset
          (min r.inner.chunkSize (r.inner.totalSize - offset)) reply = .ok _ :=
        uploadAnswer_accepted build (haccept.mono (by omega)) (by omega) hT
      rw [hanswer] at hret
      subst hret
      refine ⟨k + 1, hk, ⟨hfile, ?_⟩, hnext, ?_, rfl⟩
      · show InOrder _ (k + 1) (chunkRequests w.log)
        rw [hlog]
        exact h.sent.requests.accepted haccept.acknowledged
      · rw [htotal, ite_self]
    · -- the same window again
      obtain ⟨err, hretry, hanswer⟩ := uploadAnswer_retried build decode hretried
      rw [hanswer] at hret
      subst hret
      rw [Retry.afterCall_retry hretry hattempt]
      refine ⟨k, hk.le, ⟨hfile, ?_⟩, hoffset, htotal, .inl hk⟩
      show InOrder _ k (chunkRequests w.log)
      rw [hlog]
      exact h.sent.requests.failed hretried.not_acknowledged
  · -- nothing is left to send
    have hoffset : offset = r.inner.totalSize := by
      rw [h.offset, hstart, Nat.zero_mul, Nat.add_zero]
    rw [answered_end hup (.inl hoffset.ge)] at hcall
    obtain ⟨rfl, rfl⟩ := Prod.mk.inj hcall
    refine ⟨0, Nat.zero_le _, ⟨h.sent.file, h.sent.requests⟩, ?_, ?_, ?_⟩
    · show offset = chunkOffset r.inner.totalSize r.inner.chunkSize start 0
      rw [chunkOffset, hoffset, hstart]
      simp
    · show (if r.inner.totalSize > 0 then r.inner.totalSize else knownTotal) = r.inner.totalSize
      rw [htotal, ite_self]
    · exact (decide_eq_true hoffset.ge).symm

/-- **One step.** -/
theorem Sending.step {a : DriveAct (PrepareCall Wire) (TransferCall Wire)} (hup : r.inner.direction = .upload)
    (hchunk : 1 ≤ r.inner.chunkSize) (hT : r.inner.totalSize < u64Max)
    (hsource : source.length = r.inner.totalSize)
    (hr : Sending fs build decode category first source start r) (ha : Willing decode first r a)
    (h : r.step (defaultHttpClient fs Wire.ops build decode category) a = some r') :
    Sending fs build decode category first source start r' := by
  obtain ⟨k, hk, hr⟩ := hr
  cases Drive.step_moves h with
  | @prepared call ret loc hpc hcall =>
    rw [hpc] at hr
    obtain ⟨rfl, hsent, hprepared⟩ := hr
    obtain rfl : call = .answered first := ha
    rw [hcall] at hprepared
    obtain rfl : ret = _ := hprepared
    rw [prepare_upload hup] at hcall
    obtain ⟨-, hle, -⟩ := uploadPrepare_ok hcall
    have hworld := uploadPrepare_wire decode category r.inner (l := r.loc.after (Wire.answering first)) r.startOffset
    have hloc : loc = _ := (congrArg Prod.snd hcall).symm.trans hworld
    refine ⟨0, hk, ⟨?_, ?_⟩, by simp, ite_self _, ?_⟩
    · rw [hloc]
      exact hsent.file
    · rw [hloc]
      show InOrder _ 0 (chunkRequests (r.loc.world.log ++ [_]))
      simpa [chunkRequests, UploadForm.isChunk] using hsent.requests
    · rcases Nat.lt_or_ge start r.inner.totalSize with hlt | hge
      · exact .inl ((lt_chunkCount_iff hchunk).2 (by simpa using hlt))
      · exact .inr ⟨Nat.le_antisymm hle hge, rfl⟩
  | entered hpc =>
    rw [hpc] at hr
    exact ⟨k, hk, hr⟩
  | attempted hpc =>
    rw [hpc] at hr
    exact ⟨k, hk, hr⟩
  | slept hpc =>
    rw [hpc] at hr
    exact ⟨k, hk, hr⟩
  | halted | quit => cases ha
  | interrupted => exact absurd ha Bool.false_ne_true
  | @called offset knownTotal attempt b ret loc hpc hcall =>
    rw [hpc] at hr
    obtain ⟨reply, rfl, hwilling⟩ := ha
    rw [hpc] at hwilling
    exact Sending.called hup hchunk hT hsource hr hwilling hcall
  | @reported offset knownTotal done hpc =>
    rw [hpc] at hr
    obtain ⟨hsent, hoffset, htotal, rfl⟩ := hr
    rw [chunkOffset] at hoffset
    by_cases hend : r.inner.totalSize ≤ offset
    · have hlast : k = chunkCount r.inner.totalSize r.inner.chunkSize start := by
        refine Nat.le_antisymm hk (Nat.not_lt.1 fun hlt => ?_)
        have := (lt_chunkCount_iff hchunk).1 hlt
        omega
      simp only [decide_eq_true hend, if_true]
      exact ⟨k, hk, hlast, hsent, by rw [htotal]⟩
    · simp only [decide_eq_false hend, Bool.false_eq_true, if_false]
      have hnext : offset = start + k * r.inner.chunkSize := by omega
      have hmore : k < chunkCount r.inner.totalSize r.inner.chunkSize start := by
        rw [lt_chunkCount_iff hchunk]
        omega
      exact ⟨k, hk, hsent, hnext, htotal, .inl hmore⟩
  | joined hpc =>
    rw [hpc] at hr
    exact hr.elim
  | concluded hpc =>
    rw [hpc] at hr
    obtain ⟨hcount, hsent, rfl⟩ := hr
    exact ⟨k, hk, hcount, hsent, by simp⟩

end

/-! ## Every run -/

/-- A run of `acts` from `r` that ends in `s`, in which every step is willing. -/
def Uploads (fs : FileOps Wire Unit) (build : Build) (decode : String → Except String DefaultUploadResp)
    (category : String) (first : Except String UploadResponse) (r : Drive (Local Wire Unit))
    (acts : List (DriveAct (PrepareCall Wire) (TransferCall Wire))) (s : Drive (Local Wire Unit)) : Prop :=
  let step := Drive.step (defaultHttpClient fs Wire.ops build decode category)
  Lts.Meets step (Willing decode first) r acts ∧ Lts.run step r acts = some s

/-- Such a worker asks for the windows from `start` to the end of the file, one after the other and each until
it is acknowledged; it is never stuck, it ends, and then all windows have been acknowledged and `Completed` was
sent last. -/
structure TilesFile (fs : FileOps Wire Unit) (build : Build) (decode : String → Except String DefaultUploadResp)
    (category : String) (first : Except String UploadResponse) (source : Bytes) (start : Nat)
    (r : Drive (Local Wire Unit)) : Prop where
  /-- The windows lie in the file, and so does the sum that each chunk computes. -/
  fits : ∀ k < chunkCount r.inner.totalSize r.inner.chunkSize start,
    start + k * r.inner.chunkSize + min r.inner.chunkSize (r.inner.totalSize - (start + k * r.inner.chunkSize)) =
      min (start + (k + 1) * r.inner.chunkSize) r.inner.totalSize
  requests : ∀ acts s, Uploads fs build decode category first r acts s →
    ∃ k ≤ chunkCount r.inner.totalSize r.inner.chunkSize start,
      InOrder (windowForm r.inner category source start) k (chunkRequests s.loc.world.log)
  next : ∀ acts s, Uploads fs build decode category first r acts s → s.pc ≠ .ended → ∃ a s',
    Willing decode first s a ∧ s.step (defaultHttpClient fs Wire.ops build decode category) a = some s'
  bounded : ∀ acts s, Uploads fs build decode category first r acts s →
    acts.length ≤ (3 * r.inner.maxChunkRetries + 4) * max 1 (r.inner.totalSize - start) + 2
  ended : ∀ acts s, Uploads fs build decode category first r acts s → s.pc = .ended →
    acknowledged (chunkRequests s.loc.world.log) =
        (List.range (chunkCount r.inner.totalSize r.inner.chunkSize start)).map
          (windowForm r.inner category source start) ∧
      s.sent.getLast? = some (.completed r.inner.dedupeKey r.inner.totalSize)

section
variable {fs : FileOps Wire Unit} {build : Build} {decode : String → Except String DefaultUploadResp}
  {category : String} {first : Except String UploadResponse} {source : Bytes} {start : Nat}
  {r s : Drive (Local Wire Unit)} {acts : List (DriveAct (PrepareCall Wire) (TransferCall Wire))}

/-- Nothing is received in such a run. -/
theorem Willing.inMemory {a : DriveAct (PrepareCall Wire) (TransferCall Wire)} (h : Willing decode first r a) :
    InMemoryAct a := by
  cases a with
  | prepare call => exact trivial
  | chunk call =>
    obtain ⟨reply, rfl, -⟩ := h
    exact fun _ _ _ hresp => nomatch hresp
  | worker input => exact trivial

/-- **A run.** -/
theorem Sending.run (hup : r.inner.direction = .upload) (hchunk : 1 ≤ r.inner.chunkSize)
    (hT : r.inner.totalSize < u64Max) (hsource : source.length = r.inner.totalSize)
    (hr : Sending fs build decode category first source start r)
    (h : Uploads fs build decode category first r acts s) :
    Sending fs build decode category first source start s ∧ s.inner = r.inner := by
  apply Lts.run_invariant_of_meets
    (I := fun t => Sending fs build decode category first source start t ∧ t.inner = r.inner) _ ⟨hr, rfl⟩ h.1 h.2
  rintro t a t' ⟨ht, hinner⟩ ha hstep
  have hinner' := (Drive.step_task hstep).1
  rw [← hinner] at hup hchunk hT hsource
  exact ⟨ht.step hup hchunk hT hsource ha hstep, hinner'.trans hinner⟩

theorem Sending.requests (h : Sending fs build decode category first source start r) :
    ∃ k ≤ chunkCount r.inner.totalSize r.inner.chunkSize start,
      InOrder (windowForm r.inner category source start) k (chunkRequests r.loc.world.log) := by
  obtain ⟨k, hk, h⟩ := h
  refine ⟨k, hk, ?_⟩
  cases hpc : r.pc with
  | preparing =>
    rw [hpc] at h
    obtain ⟨rfl, hsent, -⟩ := h
    exact hsent.requests
  | loopHead | retry =>
    rw [hpc] at h
    exact h.sent.requests
  | report =>
    rw [hpc] at h
    exact h.1.requests
  | joining =>
    rw [hpc] at h
    exact h.elim
  | finish | ended =>
    rw [hpc] at h
    exact h.2.1.requests

/-- **The chunks of an upload** tile the rest of the file. The file has the size of the task, and `start` is
what `prepare` returns for the answer `first`. -/
theorem file_is_tiled (hup : r.inner.direction = .upload) (hT : r.inner.totalSize < u64Max)
    (hchunk : 1 ≤ r.inner.chunkSize) (hpc : r.pc = .preparing) (hsent : r.sent = [])
    (hlog : r.loc.world.log = []) (hsource : r.loc.world.source.length = r.inner.totalSize)
    (hstart : ((defaultHttpClient fs Wire.ops build decode category).prepare r.inner r.startOffset (.answered first)
      r.loc).1 = .ok ⟨start, r.inner.totalSize⟩) :
    TilesFile fs build decode category first r.loc.world.source start r := by
  have hinit : Sending fs build decode category first r.loc.world.source start r := by
    refine ⟨0, Nat.zero_le _, ?_⟩
    rw [hpc]
    refine ⟨rfl, ⟨rfl, ?_⟩, hstart⟩
    rw [hlog]
    exact InOrder.nil
  refine ⟨fun k hk => ?_, fun acts s h => ?_, fun acts s h hne => ?_, fun acts s h => ?_,
    fun acts s h hended => ?_⟩
  · have hlt := (lt_chunkCount_iff hchunk).1 hk
    rw [Nat.succ_mul]
    omega
  · obtain ⟨hs, hinner⟩ := hinit.run hup hchunk hT hsource h
    rw [← hinner]
    exact hs.requests
  · obtain ⟨a, s', hstep, ha⟩ := Drive.exists_step (defaultHttpClient fs Wire.ops build decode category) hne
      (.answered first) (.answered emptyReply)
    refine ⟨a, s', ?_, hstep⟩
    rcases ha with ⟨rfl, -⟩ | rfl | ⟨input, rfl, hsees⟩
    · exact rfl
    · refine ⟨emptyReply, rfl, ?_⟩
      split
      · exact .inl (emptyReply_accepted decode _)
      · trivial
    · exact hsees
  · cases acts with
    | nil => exact Nat.zero_le _
    | cons a acts =>
      obtain ⟨hmeets, hrun⟩ := h
      have hwell : WellFormed (defaultHttpClient fs Wire.ops build decode category) InMemoryAct r :=
        (upload_paces hup Wire.ops_filling hT hchunk r.startOffset).wellFormed hpc hsent
      obtain ⟨call, rfl⟩ := hwell.begins a acts s hrun
      obtain rfl : call = .answered first := hmeets.1
      have hfair := hmeets.forall_mem (fun t a ha => ha.inMemory) hrun
      rw [List.forall_mem_cons] at hfair
      rcases hcall : (defaultHttpClient fs Wire.ops build decode category).prepare r.inner r.startOffset
        (.answered first) r.loc with ⟨ret, loc⟩
      rw [hcall] at hstart
      obtain rfl : ret = _ := hstart
      have hbound := (hwell.prepared _ acts s _ loc hcall hfair.2 hrun).2.2
      simp only [runTotal, ite_self] at hbound
      rw [List.length_cons]
      omega
  · obtain ⟨⟨k, hk, hs⟩, hinner⟩ := hinit.run hup hchunk hT hsource h
    rw [hended] at hs
    obtain ⟨rfl, hall, hlast⟩ := hs
    rw [← hinner]
    exact ⟨hall.requests.acked, hlast⟩

end

/-- Eight bytes in chunks of three, two of which the server has. -/
def sampleResumed : Drive (Local Wire Unit) where
  __ := sampleSending
  inner := { sampleUpload with chunkSize := 3 }
  startOffset := 2

theorem file_is_tiled_resumed :
    TilesFile Wire.readOnly .debug sampleDecode "" (.ok sampleReply) [1, 2, 3, 4, 5, 6, 7, 8] 2 sampleResumed ∧
      chunkCount 8 3 2 = 2 :=
  ⟨file_is_tiled (r := sampleResumed) rfl (by decide) (by decide) rfl rfl rfl rfl rfl, by decide⟩

end SpottedCat
