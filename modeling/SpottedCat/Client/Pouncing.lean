import SpottedCat.Client.Accounts
import SpottedCat.Client.Sign

/-!
# `enqueue` from the caller's `PounceTask` on (`meow_client.rs:159-191`)

A client together with what its `enqueue` calls do before they have a task (`SignPc`), over files that anybody may
change meanwhile. Call number `i` of `Client` is signing number `i`; where `Client` takes what `from_pounce` comes to
as an input, it is given here what the signing has come to. So every run is a run of `Client`
(`Pouncing.Traced.run`), and what holds of those holds here.

- `tasks_accounted`: every task anywhere in the client is well made and was made of what a caller asked for, in a
  call whose command a channel has accepted; a call whose was not leaves no trace.
- `signing_returns`: the loop of `calculate_sign` ends, with the digest of the whole file if that stays as it is.
- `same_digest_once`: the key of an upload is the digest of its contents, so of two calls that upload the same
  contents at most one has a task in the client at any time, and at most one worker is at work on them.

It is one handle with its `enqueue` calls and its `close`. `pause`, `resume` and `cancel` are left out: a cancelled
upload may be enqueued again beside its worker (`cancelThenEnqueue_two_workers`). So are clones of the handle that were
made before its first use: they have executors of their own, and each may have a task with the same contents.
-/

namespace SpottedCat

/-- One call of `enqueue`, up to its task. -/
structure Signing (σ : Type) where
  pounce : PounceTask
  pc : SignPc σ

structure Pouncing (σ : Type) where
  client : Client
  files : Files
  /-- By number of call. -/
  signings : List (Signing σ)

inductive PounceAct where
  /-- A further `enqueue` is called. -/
  | call (pounce : PounceTask)
  | sign (i : Nat) (input : SignIn)
  | client (act : ClientAct)
  | file (act : FileAct)
deriving DecidableEq

/-- Neither the start of an `enqueue` nor what its signing comes to. -/
def ClientAct.free : ClientAct → Bool
  | .call | .enqueue _ (.signed _) => false
  | _ => true

def PounceAct.signs (i : Nat) : PounceAct → Bool
  | .sign k _ => k == i
  | _ => false

def PounceAct.writes (inode : Nat) : PounceAct → Bool
  | .file act => act.writes inode
  | _ => false

/-- Past the check, and without a task yet. -/
def SignPc.atWork {σ : Type} : SignPc σ → Bool
  | .opening _ | .cloning _ _ | .reading _ _ _ => true
  | _ => false

namespace Pouncing

variable {σ : Type}

def init (maxUpload maxDownload : Nat) (files : Files) : Pouncing σ := ⟨.init maxUpload maxDownload, files, []⟩

/-- Signing number `i` goes on; what it has come to goes to the rest of `enqueue`. -/
def settle (s : Pouncing σ) (i : Nat) (g : Signing σ) : Option (Pouncing σ) :=
  match g.pc with
  | .done ret =>
    (s.client.step (.enqueue i (.signed ret))).map fun client => ⟨client, s.files, s.signings.set i g⟩
  | _ => some { s with signings := s.signings.set i g }

def step (md5 : Hasher UInt8 σ Digest) (s : Pouncing σ) : PounceAct → Option (Pouncing σ)
  | .call pounce =>
    (s.client.step .call).map fun client => ⟨client, s.files, s.signings ++ [⟨pounce, .checking⟩]⟩
  | .sign i input =>
    if s.client.calls[i]? = some .signing then
      s.signings[i]?.bind fun g =>
        (g.pc.next md5 g.pounce s.files input).bind fun pc => s.settle i ⟨g.pounce, pc⟩
    else none
  | .client act => if act.free then (s.client.step act).map fun client => { s with client := client } else none
  | .file act => some { s with files := s.files.apply act }

/-- What a step does. -/
inductive Stepped (md5 : Hasher UInt8 σ Digest) (s s' : Pouncing σ) : PounceAct → Prop
  | call (pounce : PounceTask) (client : s.client.step .call = some s'.client) (files : s'.files = s.files)
      (signings : s'.signings = s.signings ++ [⟨pounce, .checking⟩]) : Stepped md5 s s' (.call pounce)
  | sign (i : Nat) (input : SignIn) (pounce : PounceTask) (pc pc' : SignPc σ)
      (signing : s.client.calls[i]? = some .signing) (at_ : s.signings[i]? = some ⟨pounce, pc⟩)
      (next : pc.next md5 pounce s.files input = some pc') (files : s'.files = s.files)
      (signings : s'.signings = s.signings.set i ⟨pounce, pc'⟩)
      (client : (∀ ret, pc' ≠ .done ret) ∧ s'.client = s.client ∨
        ∃ ret, pc' = .done ret ∧ s.client.step (.enqueue i (.signed ret)) = some s'.client) :
      Stepped md5 s s' (.sign i input)
  | client (act : ClientAct) (free : act.free = true) (client : s.client.step act = some s'.client)
      (files : s'.files = s.files) (signings : s'.signings = s.signings) : Stepped md5 s s' (.client act)
  | file (act : FileAct) (client : s'.client = s.client) (files : s'.files = s.files.apply act)
      (signings : s'.signings = s.signings) : Stepped md5 s s' (.file act)

section
variable {md5 : Hasher UInt8 σ Digest} {s s' : Pouncing σ} {act : PounceAct}

theorem settle_eq_some {i : Nat} {g : Signing σ} (h : s.settle i g = some s') :
    s'.files = s.files ∧ s'.signings = s.signings.set i g ∧ ((∀ ret, g.pc ≠ .done ret) ∧ s'.client = s.client ∨
      ∃ ret, g.pc = .done ret ∧ s.client.step (.enqueue i (.signed ret)) = some s'.client) := by
  unfold settle at h
  split at h
  · rename_i ret hpc
    obtain ⟨client, hclient, rfl⟩ := Option.map_eq_some_iff.1 h
    exact ⟨rfl, rfl, .inr ⟨ret, hpc, hclient⟩⟩
  · rename_i hpc
    cases h
    exact ⟨rfl, rfl, .inl ⟨hpc, rfl⟩⟩

theorem settle_enabled {i : Nat} (h : s.client.calls[i]? = some .signing) (g : Signing σ) :
    ∃ s', s.settle i g = some s' := by
  unfold settle
  split
  · rename_i ret _
    simp only [Client.step, h, Option.bind_some]
    cases ret <;> exact ⟨_, rfl⟩
  · exact ⟨_, rfl⟩

theorem step_cases (h : s.step md5 act = some s') : Stepped md5 s s' act := by
  cases act with
  | call pounce =>
    simp only [step] at h
    obtain ⟨client, hclient, rfl⟩ := Option.map_eq_some_iff.1 h
    exact .call pounce hclient rfl rfl
  | sign i input =>
    simp only [step] at h
    split at h
    · rename_i hsigning
      obtain ⟨g, hg, h⟩ := Option.bind_eq_some_iff.1 h
      obtain ⟨pc, hpc, h⟩ := Option.bind_eq_some_iff.1 h
      obtain ⟨hfiles, hsignings, hclient⟩ := settle_eq_some h
      exact .sign i input g.pounce g.pc pc hsigning hg hpc hfiles hsignings hclient
    · cases h
  | client act =>
    simp only [step] at h
    split at h
    · rename_i hfree
      obtain ⟨client, hclient, rfl⟩ := Option.map_eq_some_iff.1 h
      exact .client act hfree hclient rfl rfl
    · cases h
  | file act =>
    cases h
    exact .file act rfl rfl rfl

/-- What has been returned stays, and nobody else's signing is touched. -/
theorem step_signing (h : s.step md5 act = some s') {i : Nat} {g : Signing σ} (hg : s.signings[i]? = some g)
    (hact : (∃ ret, g.pc = .done ret) ∨ ∀ input, act ≠ .sign i input) : s'.signings[i]? = some g := by
  cases step_cases h with
  | call pounce _ _ hsignings =>
    rw [hsignings]
    exact Places.lookup_push.2 (.inl hg)
  | sign k input pounce pc pc' _ hat hnext _ hsignings =>
    rw [hsignings]
    refine Places.lookup_set.2 (.inr ⟨?_, hg⟩)
    rintro rfl
    cases hat.symm.trans hg
    rcases hact with ⟨ret, hret⟩ | hother
    · simp only at hret
      subst hret
      cases hnext
    · exact hother input rfl
  | client _ _ _ _ hsignings | file _ _ _ hsignings =>
    rw [hsignings]
    exact hg

end

/-! ## It is a run of the client -/

/-- The client's own actions, and what they have been given by the signings. -/
structure Traced (maxUpload maxDownload : Nat) (acts : List ClientAct) (s : Pouncing σ) : Prop where
  client : Lts.run Client.step (.init maxUpload maxDownload) acts = some s.client
  signed : ∀ i inner, ClientAct.enqueue i (.signed (.ok inner)) ∈ acts →
    ∃ pounce, s.signings[i]? = some ⟨pounce, .done (.ok inner)⟩

/-- What every reachable state has. -/
structure Signed (s : Pouncing σ) : Prop where
  checked : ∀ (i : Nat) pounce pc, s.signings[i]? = some ⟨pounce, pc⟩ → pc.Checked pounce
  working : ∀ (i : Nat) pounce pc, s.signings[i]? = some ⟨pounce, pc⟩ → pc.atWork = true →
    s.client.calls[i]? = some .signing

section
variable {md5 : Hasher UInt8 σ Digest} {maxUpload maxDownload : Nat} {files : Files} {s s' : Pouncing σ}
  {act : PounceAct} {acts : List PounceAct}

theorem Traced.step {cacts : List ClientAct} (h : s.Traced maxUpload maxDownload cacts)
    (hs : s.step md5 act = some s') : ∃ cacts', s'.Traced maxUpload maxDownload cacts' := by
  have hkeep : ∀ i inner, ClientAct.enqueue i (.signed (.ok inner)) ∈ cacts →
      ∃ pounce, s'.signings[i]? = some ⟨pounce, .done (.ok inner)⟩ := by
    intro i inner hm
    obtain ⟨pounce, hi⟩ := h.signed i inner hm
    exact ⟨pounce, step_signing hs hi (.inl ⟨_, rfl⟩)⟩
  have hsame : s'.client = s.client → ∃ cacts', s'.Traced maxUpload maxDownload cacts' :=
    fun hclient => ⟨cacts, hclient ▸ h.client, hkeep⟩
  have hpush : ∀ a, s.client.step a = some s'.client →
      (∀ i inner, a = .enqueue i (.signed (.ok inner)) →
        ∃ pounce, s'.signings[i]? = some ⟨pounce, .done (.ok inner)⟩) →
      ∃ cacts', s'.Traced maxUpload maxDownload cacts' := by
    intro a ha hnew
    refine ⟨cacts ++ [a], Lts.run_snoc.2 ⟨_, h.client, ha⟩, fun i inner hm => ?_⟩
    rcases List.mem_append.1 hm with hm | hm
    · exact hkeep i inner hm
    · exact hnew i inner (List.mem_singleton.1 hm).symm
  cases step_cases hs with
  | call pounce hclient => exact hpush _ hclient fun _ _ heq => by cases heq
  | sign i input pounce pc pc' _ hat _ _ hsignings hclient =>
    rcases hclient with ⟨_, hclient⟩ | ⟨ret, rfl, hclient⟩
    · exact hsame hclient
    · refine hpush _ hclient fun k inner heq => ?_
      cases heq
      rw [hsignings]
      exact ⟨pounce, Places.lookup_set.2 (.inl ⟨rfl, (List.getElem?_eq_some_iff.1 hat).1, rfl⟩)⟩
  | client a hfree hclient =>
    refine hpush _ hclient fun i inner heq => ?_
    rw [heq] at hfree
    cases hfree
  | file _ hclient => exact hsame hclient

/-- **Every run** is a run of the client, which is given what the signings have come to. -/
theorem Traced.run (h : Lts.run (Pouncing.step md5) (init maxUpload maxDownload files) acts = some s) :
    ∃ cacts, s.Traced maxUpload maxDownload cacts := by
  have hinit : ∃ cacts, (init maxUpload maxDownload files : Pouncing σ).Traced maxUpload maxDownload cacts :=
    ⟨[], rfl, fun _ _ hm => by cases hm⟩
  refine Lts.run_invariant (I := fun s => ∃ cacts, Traced maxUpload maxDownload cacts s) ?_ hinit h
  rintro s act s' ⟨cacts, htraced⟩ hs
  exact htraced.step hs

/-- A call that is signing is left alone by everything but the end of the signing. -/
theorem signing_frame {c c' : Client} {a : ClientAct} {i : Nat} (h : c.calls[i]? = some .signing)
    (ha : ∀ ret, a ≠ .enqueue i (.signed ret)) (hs : c.step a = some c') : c'.calls[i]? = some .signing := by
  by_cases hown : ∃ input, a = .enqueue i input
  · obtain ⟨input, rfl⟩ := hown
    simp only [Client.step, h, Option.bind_some] at hs
    cases input with
    | signed ret => exact absurd rfl (ha ret)
    | go | created => cases hs
  · exact (Client.moves hs).frame i _ h fun input heq => hown ⟨input, heq⟩

theorem Signed.step (h : s.Signed) (hs : s.step md5 act = some s') : s'.Signed := by
  cases step_cases hs with
  | call pounce hclient _ hsignings =>
    refine ⟨fun i p pc hi => ?_, fun i p pc hi hwork => ?_⟩ <;> rw [hsignings] at hi <;>
      rcases Places.lookup_push.1 hi with hold | ⟨_, heq⟩
    · exact h.checked i p pc hold
    · cases heq
      trivial
    · exact signing_frame (h.working i p pc hold hwork) (fun ret heq => by cases heq) hclient
    · cases heq
      cases hwork
  | sign i input pounce pc pc' hsigning hat hnext _ hsignings hclient =>
    refine ⟨fun k p q hk => ?_, fun k p q hk hwork => ?_⟩ <;> rw [hsignings] at hk <;>
      rcases Places.lookup_set.1 hk with ⟨rfl, _, heq⟩ | ⟨hne, hold⟩
    · cases heq
      exact (h.checked k pounce pc hat).next hnext
    · exact h.checked k p q hold
    · cases heq
      rcases hclient with ⟨_, hsame⟩ | ⟨ret, rfl, _⟩
      · rw [hsame]
        exact hsigning
      · cases hwork
    · rcases hclient with ⟨_, hsame⟩ | ⟨ret, rfl, hclient⟩
      · rw [hsame]
        exact h.working k p q hold hwork
      · refine signing_frame (h.working k p q hold hwork) (fun ret' heq => ?_) hclient
        cases heq
        exact hne rfl
  | client a hfree hclient _ hsignings =>
    refine ⟨fun i p pc hi => h.checked i p pc (hsignings ▸ hi), fun i p pc hi hwork => ?_⟩
    refine signing_frame (h.working i p pc (hsignings ▸ hi) hwork) (fun ret heq => ?_) hclient
    rw [heq] at hfree
    cases hfree
  | file _ hclient _ hsignings =>
    refine ⟨fun i p pc hi => h.checked i p pc (hsignings ▸ hi), fun i p pc hi hwork => ?_⟩
    rw [hclient]
    exact h.working i p pc (hsignings ▸ hi) hwork

theorem Signed.run (h : Lts.run (Pouncing.step md5) (init maxUpload maxDownload files) acts = some s) : s.Signed := by
  have hinit : (init maxUpload maxDownload files : Pouncing σ).Signed :=
    ⟨fun _ _ _ hi => (by cases hi), fun _ _ _ hi => (by cases hi)⟩
  exact Lts.run_invariant (fun _ _ _ h hs => h.step hs) hinit h

end

/-! ## Every task is a caller's -/

/-- The command of the call of `cb` was accepted, for `inner`, which was made of the task that it was given. The call
is about to return the id of `inner`, or has. -/
structure Vouched (s : Pouncing σ) (cb : ProgressCb) (inner : InnerTask) : Prop where
  made : ∃ pounce, s.signings[cb.call]? = some ⟨pounce, .done (.ok inner)⟩ ∧
    inner = pounce.inner inner.taskId inner.fileSign
  accepted : s.client.accepted cb.call = some inner.taskId
  wellMade : inner.WellMade

section
variable {md5 : Hasher UInt8 σ Digest} {maxUpload maxDownload : Nat} {files : Files} {s : Pouncing σ}
  {acts : List PounceAct}

theorem within_vouched (h : Lts.run (step md5) (init maxUpload maxDownload files) acts = some s) {sched : Scheduler}
    (hsched : sched ∈ s.client.schedulers) : sched.Within s.Vouched := by
  obtain ⟨cacts, htraced⟩ := Traced.run h
  have hsigned := Signed.run h
  have hacc : s.client.Accounted fun i inner => ∃ pounce, s.signings[i]? = some ⟨pounce, .done (.ok inner)⟩ :=
    .run htraced.signed htraced.client
  obtain ⟨j, hj⟩ := List.mem_iff_getElem?.1 hsched
  refine (hacc.schedulers j sched hj).mono ?_
  rintro cb inner ⟨⟨pounce, hdone⟩, haccepted⟩
  obtain ⟨hfull, hinner⟩ := hsigned.checked _ _ _ hdone
  refine ⟨⟨pounce, hdone, hinner⟩, haccepted, ?_⟩
  rw [hinner]
  exact PounceTask.inner_wellMade hfull _ _

end

/-- A digest of pieces that is right for these three bytes. -/
def sampleMd5 : Hasher UInt8 Bytes Digest where
  new := []
  consume := (· ++ ·)
  compute bytes :=
    if bytes = [1, 2, 3] then
      #v[0x52, 0x89, 0xdf, 0x73, 0x7d, 0xf5, 0x73, 0x26, 0xfc, 0xdd, 0x22, 0x59, 0x7a, 0xfb, 0x1f, 0xac]
    else .replicate 16 0
  consume_nil := List.append_nil
  consume_append := List.append_assoc

def samplePounce (path : String) : PounceTask where
  direction := .upload
  fileName := "cat.bin"
  filePath := ⟨path, some "cats"⟩
  totalSize := 3
  chunkSize := 1024 * 1024
  url := "http://host/cats"
  clientFileSign := none
  maxChunkRetries := 3
  chunkSize_pos := by decide
  total_download := fun h => by cases h

example : ((UploadPounceBuilder.new "cat.bin" ⟨"cats/a.bin", some "cats"⟩ 0).withUrl "http://host/cats").build
    (fun _ => .ok 3) = .ok (samplePounce "cats/a.bin") := rfl

/-- Two files with the same contents are opened for two calls. -/
def openTwo : List PounceAct :=
  [.file (.create ⟨"cats/a.bin", some "cats"⟩ [1, 2, 3]), .file (.create ⟨"cats/b.bin", some "cats"⟩ [1, 2, 3]),
    .call (samplePounce "cats/a.bin"), .call (samplePounce "cats/b.bin"), .call (samplePounce "cats/c.bin"),
    .client (.enqueue 0 .go), .sign 0 (.entered ⟨0⟩), .sign 0 (.opened (.ok ())),
    .client (.enqueue 1 .go), .sign 1 (.entered ⟨1⟩), .sign 1 (.opened (.ok ()))]

/-- They are read, the one in one piece, the other in two; a third call finds no file. -/
def readTwo : List PounceAct :=
  [.sign 0 (.cloned (.ok ())), .sign 1 (.cloned (.ok ())), .sign 0 (.read (.ok 65536)), .sign 1 (.read (.ok 1)),
    .client (.enqueue 2 .go), .sign 2 (.entered ⟨2⟩),
    .sign 2 (.opened (.error ⟨true, "No such file or directory (os error 2)"⟩)),
    .sign 1 (.read (.ok 2)), .sign 0 (.read (.ok 65536)), .sign 1 (.read (.ok 65536))]

/-- Both tasks are sent, and handled before the second call has returned. -/
def sendTwo : List PounceAct :=
  [.client (.enqueue 0 .go), .client (.enqueue 0 (.created (.ok ()))), .client (.enqueue 0 .go),
    .client (.enqueue 0 .go), .client (.enqueue 0 .go), .client (.enqueue 1 .go), .client (.enqueue 1 .go),
    .client (.scheduler 0 (.process [] [])), .client (.scheduler 0 (.process [] []))]

def sampleFiles : Files := ⟨∅, []⟩

/-- The signing is at work on a file with these contents, or was. -/
structure OnFile (md5 : Hasher UInt8 σ Digest) (i : Nat) (pounce : PounceTask) (id : TaskId) (inode : Nat)
    (contents : Bytes) (s : Pouncing σ) : Prop where
  file : s.files.inodes[inode]? = some contents
  settled : ∃ pc, s.signings[i]? = some ⟨pounce, pc⟩ ∧ pc.Settled md5 pounce id inode contents

/-- How many steps signing number `i` has left. -/
def left (s : Pouncing σ) (i : Nat) (contents : Bytes) : Nat :=
  match s.signings[i]? with
  | some g => g.pc.left contents
  | none => 0

section
variable {md5 : Hasher UInt8 σ Digest} {s s' : Pouncing σ} {act : PounceAct} {acts : List PounceAct} {i : Nat}
  {pounce : PounceTask} {id : TaskId} {inode : Nat} {contents : Bytes}

theorem left_eq {pc : SignPc σ} (hi : s.signings[i]? = some ⟨pounce, pc⟩) :
    s.left i contents = pc.left contents := by
  simp only [left, hi]

theorem OnFile.step (h : s.OnFile md5 i pounce id inode contents) (hs : s.step md5 act = some s')
    (hquiet : act.writes inode = false) : s'.OnFile md5 i pounce id inode contents ∧
      s'.left i contents + (if act.signs i = true then 1 else 0) ≤ s.left i contents := by
  obtain ⟨pc, hi, hsettled⟩ := h.settled
  -- any other step leaves the signing where it is
  have hother : s'.files.inodes[inode]? = some contents → (∀ input, act ≠ .sign i input) →
      s'.OnFile md5 i pounce id inode contents ∧ s'.left i contents = s.left i contents := by
    intro hfile hact
    have hi' := step_signing hs hi (.inr hact)
    exact ⟨⟨hfile, pc, hi', hsettled⟩, by rw [left_eq hi', left_eq hi]⟩
  cases step_cases hs with
  | call p _ hfiles =>
    obtain ⟨hon, hleft⟩ := hother (hfiles ▸ h.file) nofun
    exact ⟨hon, hleft.le⟩
  | client a _ _ hfiles =>
    obtain ⟨hon, hleft⟩ := hother (hfiles ▸ h.file) nofun
    exact ⟨hon, hleft.le⟩
  | file a _ hfiles =>
    obtain ⟨hon, hleft⟩ := hother (hfiles ▸ Files.inode_apply h.file hquiet) nofun
    exact ⟨hon, hleft.le⟩
  | sign k input p q q' _ hat hnext hfiles hsignings =>
    by_cases hk : k = i
    · subst hk
      cases hat.symm.trans hi
      obtain ⟨hsettled', hless⟩ := hsettled.next h.file hnext
      have hi' : s'.signings[k]? = some ⟨pounce, q'⟩ := by
        rw [hsignings]
        exact Places.lookup_set.2 (.inl ⟨rfl, (List.getElem?_eq_some_iff.1 hi).1, rfl⟩)
      refine ⟨⟨hfiles ▸ h.file, q', hi', hsettled'⟩, ?_⟩
      rw [left_eq hi', left_eq hi]
      split <;> omega
    · have hne : ∀ input', PounceAct.sign k input ≠ .sign i input' := by
        intro input' heq
        cases heq
        exact hk rfl
      obtain ⟨hon, hleft⟩ := hother (hfiles ▸ h.file) hne
      refine ⟨hon, ?_⟩
      simp only [PounceAct.signs, beq_iff_eq, hk, ↓reduceIte]
      omega

/-- **A run** in which nobody writes to the file. -/
theorem OnFile.run (h : s.OnFile md5 i pounce id inode contents) (hrun : Lts.run (Pouncing.step md5) s acts = some s')
    (hquiet : ∀ act ∈ acts, act.writes inode = false) : s'.OnFile md5 i pounce id inode contents ∧
      s'.left i contents + acts.countP (PounceAct.signs i) ≤ s.left i contents :=
  Lts.run_potential_of_meets (C := fun _ act => act.writes inode = false)
    (fun _ _ _ hon hq hs => hon.step hs hq) h (.of_forall fun act hact _ => hquiet act hact) hrun

end

/-- **A signing returns.** From the opening of its file on it takes at most two steps more than the file has bytes,
and it can always take the next, whatever else is done meanwhile but to write to the file. What it returns is the
error of a clone or of a read that failed, or the task with the digest of the whole contents, however the reads were
cut. -/
theorem signing_returns {md5 : Hasher UInt8 σ Digest} {maxUpload maxDownload : Nat} {files : Files}
    {before during : List PounceAct} {s1 s : Pouncing σ} {i : Nat} {pounce : PounceTask} {id : TaskId} {inode : Nat}
    {contents : Bytes} (hbefore : Lts.run (step md5) (init maxUpload maxDownload files) before = some s1)
    (hopen : s1.signings[i]? = some ⟨pounce, .cloning id inode⟩) (hfile : s1.files.inodes[inode]? = some contents)
    (hduring : Lts.run (step md5) s1 during = some s) (hquiet : ∀ act ∈ during, act.writes inode = false) :
    during.countP (PounceAct.signs i) ≤ contents.length + 2 ∧
      ((∃ input s', s.step md5 (.sign i input) = some s') ∨ ∃ ret, s.signings[i]? = some ⟨pounce, .done ret⟩ ∧
        ((∃ e, ret = .error (tryCloneError e) ∨ ret = .error (signReadError e)) ∨
          ret = .ok (pounce.inner id (fileSignOf md5 contents)))) := by
  have hon : s1.OnFile md5 i pounce id inode contents := ⟨hfile, _, hopen, .cloning⟩
  obtain ⟨⟨hfile', pc, hi, hsettled⟩, hleft⟩ := hon.run hduring hquiet
  have hreach : Lts.run (step md5) (init maxUpload maxDownload files) (before ++ during) = some s :=
    Lts.run_append.2 ⟨s1, hbefore, hduring⟩
  refine ⟨?_, ?_⟩
  · rw [left_eq hopen] at hleft
    simp only [SignPc.left] at hleft
    omega
  · rcases hsettled.enabled hfile' with ⟨input, pc', hnext⟩ | ⟨ret, rfl⟩
    · left
      have hwork : pc.atWork = true := by
        cases hsettled with
        | cloning | reading => rfl
        | uncloned | unread | signed => cases hnext
      have hsigning := (Signed.run hreach).working i pounce pc hi hwork
      refine ⟨input, ?_⟩
      simp only [step, hsigning, ↓reduceIte, hi, hnext, Option.bind_some]
      exact settle_enabled hsigning _
    · right
      refine ⟨ret, hi, ?_⟩
      cases hsettled with
      | uncloned e => exact .inl ⟨e, .inl rfl⟩
      | unread e => exact .inl ⟨e, .inr rfl⟩
      | signed => exact .inr rfl

theorem signing_returns_pieces : ∃ s1 s : Pouncing Bytes,
    Lts.run (step sampleMd5) (init 1 1 sampleFiles) openTwo = some s1 ∧
      Lts.run (step sampleMd5) s1 readTwo = some s ∧ readTwo.countP (PounceAct.signs 1) ≤ 5 ∧
      s.signings[1]? = some ⟨samplePounce "cats/b.bin", .done (.ok ((samplePounce "cats/b.bin").inner ⟨1⟩
        (fileSignOf sampleMd5 [1, 2, 3])))⟩ := by
  have hopen : Lts.run (step sampleMd5) (init 1 1 sampleFiles) openTwo = some _ := Lts.run_final (by decide)
  have hread : Lts.run (step sampleMd5) (Lts.final (step sampleMd5) (init 1 1 sampleFiles) openTwo) readTwo = some _ :=
    Lts.run_final (by decide)
  have hcloning : (Lts.final (step sampleMd5) (init 1 1 sampleFiles) openTwo).signings[1]? =
      some ⟨samplePounce "cats/b.bin", .cloning ⟨1⟩ 1⟩ := rfl
  have hfile : (Lts.final (step sampleMd5) (init 1 1 sampleFiles) openTwo).files.inodes[1]? = some [1, 2, 3] := rfl
  exact ⟨_, _, hopen, hread, (signing_returns hopen hcloning hfile hread (by decide)).1, rfl⟩

/-! ## Equal contents, one task -/

/-- Call number `i` has opened a file with these contents, and nobody wrote to it until the signing had returned. -/
inductive Undisturbed (md5 : Hasher UInt8 σ Digest) (s0 : Pouncing σ) (i : Nat) (contents : Bytes) :
    List PounceAct → Prop
  | intro {before during after : List PounceAct} {s1 s2 : Pouncing σ} {pounce : PounceTask} {id : TaskId}
      {inode : Nat} {ret : Except MeowError InnerTask} (before_ : Lts.run (step md5) s0 before = some s1)
      (opened : s1.signings[i]? = some ⟨pounce, .cloning id inode⟩) (file : s1.files.inodes[inode]? = some contents)
      (during_ : Lts.run (step md5) s1 during = some s2) (quiet : ∀ act ∈ during, act.writes inode = false)
      (returned : s2.signings[i]? = some ⟨pounce, .done ret⟩) :
      Undisturbed md5 s0 i contents (before ++ during ++ after)

/-- The call has a group in this scheduler: its task waits or has a slot. -/
def Holds (sched : Scheduler) (cb : ProgressCb) : Prop :=
  ∃ key group, sched.sys.loop.state.groups.lookup key = some group ∧ group.entry.callbacks.progressCb = some cb

/-- At most one live worker of the whole client has the key, and while there is a group of the key, it works on the
task that the group's call has come to. -/
structure OneWorker (s : Pouncing σ) (key : UniqueId) : Prop where
  once : ∀ j n w j' n' w', s.client.Live j n w → s.client.Live j' n' w' → w.key = key → w'.key = key →
    j = j' ∧ n = n'
  own : ∀ j n w, s.client.Live j n w → w.key = key → ∀ sched ∈ s.client.schedulers, ∀ group,
    sched.sys.loop.state.groups.lookup key = some group → ∀ cb, group.entry.callbacks.progressCb = some cb →
      ∃ pounce, s.signings[cb.call]? = some ⟨pounce, .done (.ok w.inner)⟩

section
variable {md5 : Hasher UInt8 σ Digest} {maxUpload maxDownload : Nat} {files : Files} {s : Pouncing σ}
  {acts : List PounceAct} {i k : Nat} {contents contents' : Bytes}

/-- **The key is the digest of the contents.** -/
theorem Undisturbed.key (h : Undisturbed md5 (init maxUpload maxDownload files) i contents acts)
    (hrun : Lts.run (Pouncing.step md5) (init maxUpload maxDownload files) acts = some s) {pounce : PounceTask}
    {inner : InnerTask} (hi : s.signings[i]? = some ⟨pounce, .done (.ok inner)⟩) :
    inner.dedupeKey = (.upload, fileSignOf md5 contents) := by
  cases h with
  | @intro before during after s1 s2 pounce' id inode ret hbefore hopen hfile hduring hquiet hret =>
    obtain ⟨s2', hreach, hafter⟩ := Lts.run_append.1 hrun
    obtain ⟨s1', hreach1, hreach2⟩ := Lts.run_append.1 hreach
    cases hbefore.symm.trans hreach1
    cases hduring.symm.trans hreach2
    -- what was returned stays
    have hstay : s.signings[i]? = some ⟨pounce', .done ret⟩ :=
      Lts.run_invariant (I := fun s => s.signings[i]? = some ⟨pounce', .done ret⟩)
        (fun _ _ _ hi hs => step_signing hs hi (.inl ⟨_, rfl⟩)) hret hafter
    cases hi.symm.trans hstay
    have hon : s1.OnFile md5 i pounce id inode contents := ⟨hfile, _, hopen, .cloning⟩
    obtain ⟨⟨_, pc, hi2, hsettled⟩, _⟩ := hon.run hduring hquiet
    cases hi2.symm.trans hret
    obtain ⟨_, hupload⟩ := (Signed.run hbefore).checked i _ _ hopen
    cases hsettled
    simp only [InnerTask.dedupeKey, PounceTask.inner, hupload]

/-- A group of the call has this key. -/
theorem Undisturbed.group_key (h : Undisturbed md5 (init maxUpload maxDownload files) i contents acts)
    (hrun : Lts.run (Pouncing.step md5) (init maxUpload maxDownload files) acts = some s) {sched : Scheduler}
    (hsched : sched ∈ s.client.schedulers) {key : UniqueId} {group : GroupState}
    (hg : sched.sys.loop.state.groups.lookup key = some group)
    (hcb : group.entry.callbacks.progressCb = some ⟨i⟩) : key = (.upload, fileSignOf md5 contents) := by
  have hwithin := within_vouched hrun hsched
  obtain ⟨cb, hcb', hvouched⟩ := hwithin.tables.groups key group hg
  cases hcb.symm.trans hcb'
  obtain ⟨pounce, hdone, _⟩ := hvouched.made
  rw [← hwithin.loop.inv.leader_key key group hg]
  exact h.key hrun hdone

/-- All groups are in the scheduler of the cell. -/
theorem holds_once (hrun : Lts.run (step md5) (init maxUpload maxDownload files) acts = some s)
    {sched sched' : Scheduler} {cb cb' : ProgressCb} (hsched : sched ∈ s.client.schedulers)
    (hsched' : sched' ∈ s.client.schedulers) (h : Holds sched cb) (h' : Holds sched' cb') : sched = sched' := by
  obtain ⟨cacts, htraced⟩ := Traced.run hrun
  have hsole : s.client.Sole := .run htraced.client
  have hcell : ∀ (j : Nat) sched cb, s.client.schedulers[j]? = some sched → Holds sched cb →
      s.client.executor = some j := by
    rintro j sched cb hj ⟨key, group, hg, _⟩
    by_contra hne
    rw [(hsole.unused j sched hj hne).groups] at hg
    cases hg
  obtain ⟨j, hj⟩ := List.mem_iff_getElem?.1 hsched
  obtain ⟨j', hj'⟩ := List.mem_iff_getElem?.1 hsched'
  cases (hcell j sched cb hj h).symm.trans (hcell j' sched' cb' hj' h')
  exact Option.some.inj (hj.symm.trans hj')

theorem one_worker (hrun : Lts.run (step md5) (init maxUpload maxDownload files) acts = some s) (key : UniqueId) :
    s.OneWorker key := by
  obtain ⟨cacts, htraced⟩ := Traced.run hrun
  refine ⟨fun j n w j' n' w' hlive hlive' hk hk' => ?_, fun j n w hlive hk sched hsched group hg cb hcb => ?_⟩
  · exact Client.live_once htraced.client hlive hlive' (hk.trans hk'.symm)
  · obtain ⟨cb', hcb', hvouched⟩ := (within_vouched hrun hsched).tables.groups key group hg
    cases hcb.symm.trans hcb'
    obtain ⟨j', hj'⟩ := List.mem_iff_getElem?.1 hsched
    subst hk
    rw [← Client.live_leader htraced.client hlive hj' hg]
    obtain ⟨pounce, hdone, _⟩ := hvouched.made
    exact ⟨pounce, hdone⟩

/-- **Uploads go by their contents.** While their files are left alone, two uploads have the same key exactly when the
digests of the contents are equal, whatever path and name they have and however they were read; and of two calls
with one digest at most one has a task in the client at any time, and at most one worker is at work on their key. -/
theorem same_digest_once (hrun : Lts.run (step md5) (init maxUpload maxDownload files) acts = some s)
    (hi : Undisturbed md5 (init maxUpload maxDownload files) i contents acts)
    (hk : Undisturbed md5 (init maxUpload maxDownload files) k contents' acts) (hne : i ≠ k) :
    (∀ pounce inner pounce' inner', s.signings[i]? = some ⟨pounce, .done (.ok inner)⟩ →
      s.signings[k]? = some ⟨pounce', .done (.ok inner')⟩ →
      (inner.dedupeKey = inner'.dedupeKey ↔ md5.digest contents = md5.digest contents')) ∧
    (md5.digest contents = md5.digest contents' →
      ¬ ((∃ sched ∈ s.client.schedulers, Holds sched ⟨i⟩) ∧ ∃ sched ∈ s.client.schedulers, Holds sched ⟨k⟩)) ∧
    s.OneWorker (.upload, fileSignOf md5 contents) := by
  refine ⟨?_, ?_, one_worker hrun _⟩
  · intro pounce inner pounce' inner' hdone hdone'
    rw [hi.key hrun hdone, hk.key hrun hdone', Prod.mk.injEq, fileSignOf, fileSignOf]
    constructor
    · rintro ⟨_, hhex⟩
      exact Digest.lowerHex_injective hhex
    · intro hdigest
      rw [hdigest]
      exact ⟨rfl, rfl⟩
  · rintro hdigest ⟨⟨sched, hsched, key, group, hg, hcb⟩, sched', hsched', key', group', hg', hcb'⟩
    cases holds_once hrun hsched hsched' ⟨key, group, hg, hcb⟩ ⟨key', group', hg', hcb'⟩
    have hkey := hi.group_key hrun hsched hg hcb
    have hkey' := hk.group_key hrun hsched hg' hcb'
    obtain rfl : key = key' := by rw [hkey, hkey', fileSignOf, fileSignOf, hdigest]
    cases hg.symm.trans hg'
    cases hcb.symm.trans hcb'
    exact hne rfl

end

theorem same_digest_once_twice : ∃ s : Pouncing Bytes,
    Lts.run (step sampleMd5) (init 1 1 sampleFiles) (openTwo ++ readTwo ++ sendTwo) = some s ∧
      (∃ sched ∈ s.client.schedulers, Holds sched ⟨0⟩) ∧ (¬ ∃ sched ∈ s.client.schedulers, Holds sched ⟨1⟩) ∧
      s.OneWorker (.upload, "5289df737df57326fcdd22597afb1fac") := by
  have hrun : Lts.run (step sampleMd5) (init 1 1 sampleFiles) (openTwo ++ readTwo ++ sendTwo) = some _ :=
    Lts.run_final (by decide)
  have hopen : Lts.run (step sampleMd5) (init 1 1 sampleFiles) openTwo = some _ := Lts.run_final (by decide)
  have hread : Lts.run (step sampleMd5) (Lts.final (step sampleMd5) (init 1 1 sampleFiles) openTwo) readTwo = some _ :=
    Lts.run_final (by decide)
  have hundisturbed0 : Undisturbed sampleMd5 (init 1 1 sampleFiles) 0 [1, 2, 3] (openTwo ++ readTwo ++ sendTwo) :=
    .intro hopen rfl rfl hread (by decide) rfl
  have hundisturbed1 : Undisturbed sampleMd5 (init 1 1 sampleFiles) 1 [1, 2, 3] (openTwo ++ readTwo ++ sendTwo) :=
    .intro hopen rfl rfl hread (by decide) rfl
  have hfirst : ∃ sched ∈ (Lts.final (step sampleMd5) (init 1 1 sampleFiles)
      (openTwo ++ readTwo ++ sendTwo)).client.schedulers, Holds sched ⟨0⟩ :=
    ⟨_, List.mem_of_getElem? (i := 0) rfl, (.upload, "5289df737df57326fcdd22597afb1fac"), _, rfl, rfl⟩
  obtain ⟨_, honce, hworker⟩ := same_digest_once hrun hundisturbed0 hundisturbed1 (by decide)
  exact ⟨_, hrun, hfirst, fun hsecond => honce rfl ⟨hfirst, hsecond⟩, hworker⟩

end Pouncing

end SpottedCat
