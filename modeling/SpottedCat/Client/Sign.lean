import SpottedCat.Data.Pounce
import SpottedCat.Http.FileOps
import SpottedCat.Lib.Reading

/-!
# From a `PounceTask` to an `InnerTask` (`inner/inner_task.rs:38`, `inner/sign.rs`)

`SignPc.next` is the part of `MeowClient::enqueue` between its look at the closed flag and its look at the executor
cell: the check for an empty task (meow_client.rs:168), `InnerTask::from_pounce`, and for an upload the loop of
`calculate_sign`. It stops at every `await`, where the files may change.

| here | there |
| --- | --- |
| `Files`   | the file system: names for inodes, and the contents of each inode |
| `FileAct` | what anybody may do to it meanwhile; an open file stays the inode that it was |
| `SignIn`  | what `File::open`, `try_clone` and `read` come back with, and the id that `TaskId::new_v4` has drawn |
| `md5`     | the `md5` crate: `Context::new`, `consume` and `compute` |

A read of a regular file returns between 1 and 65536 bytes (sign.rs:9), and 0 only at its end; how many is up to
the operating system. Hence the sign of a file that stays as it is does not depend on the reads, and the loop
ends (`SignPc.Settled.next`).
-/

namespace SpottedCat

structure Files where
  names : Table PathBuf Nat
  inodes : List Bytes
deriving DecidableEq

inductive FileAct where
  /-- A new file, also in the place of an old one of this name. -/
  | create (path : PathBuf) (contents : Bytes)
  | remove (path : PathBuf)
  | write (inode : Nat) (contents : Bytes)
deriving DecidableEq

def Files.apply (files : Files) : FileAct → Files
  | .create path contents =>
    ⟨files.names.insert path files.inodes.length, files.inodes ++ [contents]⟩
  | .remove path => { files with names := files.names.erase path }
  | .write inode contents => { files with inodes := files.inodes.set inode contents }

def FileAct.writes (inode : Nat) : FileAct → Bool
  | .write inode' _ => inode' == inode
  | _ => false

/-- An inode keeps its contents when another one is written. -/
theorem Files.inode_apply {files : Files} {act : FileAct} {inode : Nat} {contents : Bytes}
    (h : files.inodes[inode]? = some contents) (hact : act.writes inode = false) :
    (files.apply act).inodes[inode]? = some contents := by
  cases act with
  | create path bytes => exact Places.lookup_push.2 (.inl h)
  | remove path => exact h
  | write inode' bytes =>
    refine Places.lookup_set.2 (.inr ⟨?_, h⟩)
    rintro rfl
    simp [FileAct.writes] at hact

/-- inner_task.rs:72-100 -/
def openSourceError (path : PathBuf) (e : IoError) : MeowError :=
  if e.notFound then .fromCode .fileNotFound s!"upload source file not found: {path.display}"
  else .fromCode .ioError s!"open upload source failed: {path.display}"

/-- sign.rs:10-16 -/
def tryCloneError (e : IoError) : MeowError :=
  .fromCode .ioError s!"calculate_sign()->file.try_clone() error: {e.text}"

/-- sign.rs:19-25 -/
def signReadError (e : IoError) : MeowError :=
  .fromCode .ioError s!"calculate_sign()->file_handle.read error: {e.text}"

/-- The length of the buffer (sign.rs:9). -/
def signBufferLen : Nat := 65536

/-- The 16 bytes of an `md5::Digest`. -/
abbrev Digest := Vector UInt8 16

/-- `{:02x}` of one byte -/
def hexByte (b : UInt8) : List Char := [Nat.digitChar (b.toNat / 16), Nat.digitChar (b.toNat % 16)]

/-- `format!("{:x}", digest)` (sign.rs:34) -/
def Digest.lowerHex (digest : Digest) : String := String.ofList (digest.toList.flatMap hexByte)

inductive SignPc (σ : Type) where
  /-- about to be checked (meow_client.rs:168) -/
  | checking
  /-- about to open the file (inner_task.rs:72) -/
  | opening (id : TaskId)
  /-- about to clone the handle on an inode (sign.rs:10) -/
  | cloning (id : TaskId) (inode : Nat)
  /-- about to read (sign.rs:19) -/
  | reading (id : TaskId) (inode : Nat) (reader : Reader σ)
  | done (ret : Except MeowError InnerTask)
deriving DecidableEq

inductive SignIn where
  | entered (id : TaskId)
  | opened (ret : Except IoError Unit)
  | cloned (ret : Except IoError Unit)
  /-- At most so many bytes are returned, fewer before the end of the file. -/
  | read (ret : Except IoError Nat)
deriving DecidableEq

section
variable {σ : Type} (md5 : Hasher UInt8 σ Digest)

def fileSignOf (bytes : Bytes) : String := (md5.digest bytes).lowerHex

/-- The next step towards the task of `pounce`. -/
def SignPc.next (pounce : PounceTask) (files : Files) : SignPc σ → SignIn → Option (SignPc σ)
  | .checking, .entered id =>
    if pounce.isEmpty then some (.done (.error (.fromCode1 .parameterEmpty)))
    else
      match pounce.direction with
      | .upload => some (.opening id)
      | .download => some (.done (.ok (pounce.inner id (pounce.clientFileSign.getD ""))))
  | .opening id, .opened (.ok ()) => (files.names.lookup pounce.filePath).map (.cloning id)
  | .opening _, .opened (.error e) =>
    if e.notFound = true ∧ pounce.filePath ∈ files.names then none
    else some (.done (.error (openSourceError pounce.filePath e)))
  | .cloning id inode, .cloned (.ok ()) => some (.reading id inode (.start md5))
  | .cloning _ _, .cloned (.error e) => some (.done (.error (tryCloneError e)))
  | .reading id inode reader, .read (.ok n) =>
    (files.inodes[inode]?).bind fun contents =>
      if n = 0 ∨ signBufferLen < n then none
      -- `n == 0` of the source: nothing was returned
      else if reader.piece contents n = [] then
        some (.done (.ok (pounce.inner id (md5.compute reader.context).lowerHex)))
      else some (.reading id inode (reader.read md5 contents n))
  | .reading _ _ _, .read (.error e) => some (.done (.error (signReadError e)))
  | _, _ => none

end

/-! ## Different digests are written differently -/

theorem digitChar_eq_of_lt {m n : Nat} (hm : m < 16) (hn : n < 16) (h : Nat.digitChar m = Nat.digitChar n) :
    m = n := by
  have hall : ∀ a b : Fin 16, Nat.digitChar a = Nat.digitChar b → a = b := by decide
  exact Fin.val_eq_of_eq (hall ⟨m, hm⟩ ⟨n, hn⟩ h)

theorem hexByte_injective : Function.Injective hexByte := by
  intro a b h
  simp only [hexByte, List.cons.injEq, and_true] at h
  have ha := a.toNat_lt
  have hb := b.toNat_lt
  have hhigh : a.toNat / 16 = b.toNat / 16 := digitChar_eq_of_lt (by omega) (by omega) h.1
  have hlow : a.toNat % 16 = b.toNat % 16 := digitChar_eq_of_lt (by omega) (by omega) h.2
  apply UInt8.toNat.inj
  omega

theorem flatMap_hexByte_injective : Function.Injective fun bytes : Bytes => bytes.flatMap hexByte := by
  intro xs
  induction xs with
  | nil =>
    intro ys h
    cases ys with
    | nil => rfl
    | cons y ys => cases h
  | cons x xs ih =>
    intro ys h
    cases ys with
    | nil => cases h
    | cons y ys =>
      simp only [List.flatMap_cons] at h
      obtain ⟨hhead, htail⟩ := List.append_inj h rfl
      rw [hexByte_injective hhead, ih htail]

theorem Digest.lowerHex_injective : Function.Injective Digest.lowerHex := by
  intro a b h
  have hbytes := flatMap_hexByte_injective (String.ofList_injective h)
  exact Vector.toList_inj.1 hbytes

/-! ## The check comes first -/

/-- Nothing that is empty gets past the check, only uploads are read, and a task is that of its caller. -/
def SignPc.Checked {σ : Type} (pounce : PounceTask) : SignPc σ → Prop
  | .checking | .done (.error _) => True
  | .done (.ok inner) => pounce.isEmpty = false ∧ inner = pounce.inner inner.taskId inner.fileSign
  | .opening _ | .cloning _ _ | .reading _ _ _ => pounce.isEmpty = false ∧ pounce.direction = .upload

section
variable {σ : Type} {md5 : Hasher UInt8 σ Digest} {pounce : PounceTask} {files : Files} {input : SignIn}
  {pc pc' : SignPc σ}

theorem SignPc.Checked.next (h : pc.Checked pounce) (hs : pc.next md5 pounce files input = some pc') :
    pc'.Checked pounce := by
  unfold SignPc.next at hs
  split at hs
  · split at hs
    · cases hs
      trivial
    · rename_i hempty
      have hfull : pounce.isEmpty = false := Bool.eq_false_iff.2 hempty
      split at hs
      · rename_i hupload
        cases hs
        exact ⟨hfull, hupload⟩
      · cases hs
        exact ⟨hfull, rfl⟩
  · obtain ⟨inode, _, rfl⟩ := Option.map_eq_some_iff.1 hs
    exact h
  · split at hs
    · cases hs
    · cases hs
      trivial
  · cases hs
    exact h
  · cases hs
    trivial
  · obtain ⟨contents, _, hs⟩ := Option.bind_eq_some_iff.1 hs
    split at hs
    · cases hs
    · split at hs
      · cases hs
        exact ⟨h.1, rfl⟩
      · cases hs
        exact h
  · cases hs
    trivial
  · cases hs

/-! ## A file that stays as it is -/

/-- Where the signing of an open file can be, if the file has these contents. -/
inductive SignPc.Settled (md5 : Hasher UInt8 σ Digest) (pounce : PounceTask) (id : TaskId) (inode : Nat)
    (contents : Bytes) : SignPc σ → Prop
  | cloning : Settled md5 pounce id inode contents (.cloning id inode)
  | reading (reader : Reader σ) (upto : reader.Upto md5 contents) :
      Settled md5 pounce id inode contents (.reading id inode reader)
  | uncloned (e : IoError) : Settled md5 pounce id inode contents (.done (.error (tryCloneError e)))
  | unread (e : IoError) : Settled md5 pounce id inode contents (.done (.error (signReadError e)))
  | signed : Settled md5 pounce id inode contents (.done (.ok (pounce.inner id (fileSignOf md5 contents))))

/-- How many steps such a signing has left. -/
def SignPc.left (contents : Bytes) : SignPc σ → Nat
  | .cloning _ _ => contents.length + 2
  | .reading _ _ reader => contents.length - reader.pos + 1
  | _ => 0

variable {id : TaskId} {inode : Nat} {contents : Bytes}

/-- **A step of the signing**, whatever the read returns. -/
theorem SignPc.Settled.next (h : pc.Settled md5 pounce id inode contents)
    (hfile : files.inodes[inode]? = some contents) (hs : pc.next md5 pounce files input = some pc') :
    pc'.Settled md5 pounce id inode contents ∧ pc'.left contents < pc.left contents := by
  cases h with
  | cloning =>
    cases input with
    | cloned ret =>
      cases ret with
      | ok =>
        cases hs
        refine ⟨.reading _ .start, ?_⟩
        simp only [SignPc.left, Reader.start]
        omega
      | error e =>
        cases hs
        exact ⟨.uncloned e, Nat.succ_pos _⟩
    | entered | opened | read => cases hs
  | reading reader hupto =>
    cases input with
    | read ret =>
      cases ret with
      | ok n =>
        simp only [SignPc.next, hfile, Option.bind_some] at hs
        split at hs
        · cases hs
        · rename_i hn
          have hpos : 0 < n := by
            rw [not_or] at hn
            omega
          split at hs
          · rename_i hend
            cases hs
            rw [hupto.digest hpos hend]
            exact ⟨.signed, Nat.succ_pos _⟩
          · rename_i hmore
            cases hs
            refine ⟨.reading _ (hupto.read n), ?_⟩
            have hleft : contents.length - (reader.read md5 contents n).pos < contents.length - reader.pos :=
              Reader.left_read hpos hmore
            simp only [SignPc.left]
            omega
      | error e =>
        cases hs
        exact ⟨.unread e, Nat.succ_pos _⟩
    | entered | opened | cloned => cases hs
  | uncloned | unread | signed => cases hs

/-- It can go on until it has returned. -/
theorem SignPc.Settled.enabled (h : pc.Settled md5 pounce id inode contents)
    (hfile : files.inodes[inode]? = some contents) :
    (∃ input pc', pc.next md5 pounce files input = some pc') ∨ ∃ ret, pc = .done ret := by
  cases h with
  | cloning => exact .inl ⟨.cloned (.ok ()), _, rfl⟩
  | reading reader hupto =>
    left
    by_cases hend : reader.piece contents 1 = []
    · refine ⟨.read (.ok 1), .done (.ok (pounce.inner id (md5.compute reader.context).lowerHex)), ?_⟩
      simp [SignPc.next, hfile, signBufferLen, hend]
    · refine ⟨.read (.ok 1), .reading id inode (reader.read md5 contents 1), ?_⟩
      simp [SignPc.next, hfile, signBufferLen, hend]
  | uncloned | unread | signed => exact .inr ⟨_, rfl⟩

end

end SpottedCat
