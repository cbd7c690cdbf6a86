import SpottedCat.Http.DownloadRun
import SpottedCat.Http.UploadRun
import SpottedCat.Joint.Rising

/-!
# The default executor keeps the range protocol

`Obeys` speaks of what the executor returns. A download of `DefaultHttpClient` returns that against a server
whose answers carry no foreign bytes, as long as the local file is not behind the offset that its run starts
from (`downloads_obey`). An upload returns it against any server: its total is the task's own, and an offset
that the server reports is looked at only while it is within the total (`uploads_obey`).
-/

namespace SpottedCat

/-- **A driven worker obeys** if the calls of its executor do, where it makes them. -/
theorem Drive.step_obeys {L A B : Type} {ex : TransferTrait L A B} {r r' : Drive L} {a : DriveAct A B}
    {total : Nat}
    (hprepare : ∀ b outcome, a = .prepare b → r.pc = .preparing →
      (ex.prepare r.inner r.startOffset b r.loc).1 = .ok outcome →
        r.startOffset ≤ outcome.nextOffset ∧ outcome.nextOffset ≤ total ∧
          (if outcome.totalSize > 0 then outcome.totalSize else r.inner.totalSize) = total)
    (hchunk : ∀ b offset knownTotal attempt outcome, a = .chunk b →
      r.pc = .retry offset knownTotal (.calling attempt) →
      (ex.transferChunk r.inner offset r.inner.chunkSize knownTotal b r.loc).1 = .ok outcome →
        offset ≤ outcome.nextOffset ∧ outcome.nextOffset ≤ total ∧
          (outcome.totalSize = 0 ∨ outcome.totalSize = total))
    (h : r.step ex a = some r') :
    ∃ input out, runStep r.inner.dedupeKey r.inner r.pc input = some (r'.pc, out) ∧
      r'.sent = r.sent ++ out.toList ∧ r.pc.Obeys total r.inner r.startOffset input := by
  cases a with
  | prepare b =>
    obtain ⟨ret, loc, pc, out, hcall, hstep, rfl⟩ := step_prepare_eq h
    obtain ⟨hpc, -, -⟩ := runStep_prepared hstep
    refine ⟨_, out, hstep, rfl, ?_⟩
    rw [hpc]
    cases ret with
    | ok outcome => exact hprepare b outcome rfl hpc (by rw [hcall])
    | error e => exact trivial
  | chunk b =>
    obtain ⟨offset, knownTotal, attempt, ret, loc, pc, out, hpc, hcall, hstep, rfl⟩ := step_chunk_eq h
    refine ⟨_, out, hstep, rfl, ?_⟩
    rw [hpc]
    cases ret with
    | ok outcome => exact hchunk b offset knownTotal attempt outcome rfl hpc (by rw [hcall])
    | error e => exact trivial
  | worker input =>
    obtain ⟨hcall, pc, out, hstep, rfl⟩ := step_worker_eq h
    refine ⟨input, out, hstep, rfl, ?_⟩
    unfold RunPc.Obeys
    split
    · cases hcall
    · cases hcall
    · exact trivial

/-! ## Downloads -/

section
variable {R : Bytes} {atomic : Prop} {build : Build}

/-- **A download obeys**, with the length of the resource as total. -/
theorem downloads_obey {r r' : DownloadRun}
    {a : DriveAct (List (Option Fault) × Except String HeadResponse)
      (List (Option Fault) × (String → Except String RangeResponse))}
    (hgood : r.Good (downloadInv R atomic)) (honest : HonestCall R a)
    (hfile : r.startOffset ≤ r.loc.world.content.length) (h : Drive.step (downloads build) r a = some r') :
    ∃ input out, runStep r.inner.dedupeKey r.inner r.pc input = some (r'.pc, out) ∧
      r'.sent = r.sent ++ out.toList ∧ r.pc.Obeys R.length r.inner r.startOffset input := by
  have hstart (faults : List (Option Fault)) :
      Holds False r.loc.world.content r.loc.world.torn (r.loc.plan faults) := ⟨rfl, rfl, nofun⟩
  refine Drive.step_obeys ?_ ?_ h
  · rintro ⟨faults, head⟩ outcome rfl - hcall
    obtain ⟨outcome', hret, ⟨rfl, hpos, -⟩, -⟩ | ⟨e, hret, -⟩ :=
      (downloadPrepare_spec r.inner honest).run (hstart faults)
    · cases hcall.symm.trans hret
      exact ⟨hfile, hgood.always.content.length_le, if_pos hpos⟩
    · cases hcall.symm.trans hret
  · rintro ⟨faults, server⟩ offset knownTotal attempt outcome rfl hpc hcall
    have hstands := hgood.stands
    rw [hpc] at hstands
    obtain ⟨rfl, rfl, hpos, hlt⟩ := hstands
    obtain ⟨outcome', hret, data, hdata, -, -, rfl⟩ | ⟨e, hret, -⟩ :=
      (downloadOneChunk_spec build r.inner r.inner.chunkSize honest hgood.always.content hlt).run
        (hstart faults)
    · cases hcall.symm.trans hret
      refine ⟨?_, hdata.length_le, .inr rfl⟩
      rw [List.length_append]
      exact Nat.le_add_right _ _
    · cases hcall.symm.trans hret

end

/-! ## Uploads -/

section
variable {build : Build} {decode : String → Except String DefaultUploadResp} {category : String}

theorem Uplink.ops_filling : Uplink.ops.Filling := by
  intro f n w buf w' hcall
  simp only [Uplink.ops, Uplink.fileOp] at hcall
  split at hcall
  · cases hcall
  · split at hcall
    · rename_i hfile
      cases hcall
      split at hfile
      · cases hfile
        rw [List.length_take, List.length_drop]
        omega
      · cases hfile
    · cases hcall

/-- **An upload obeys**, with its own size as total, from wherever it stands within it. -/
theorem uploads_obey {r r' : UploadRun} {a : DriveAct Unit (List Bool)} (hT : r.inner.totalSize < u64Max)
    (hstart : r.startOffset ≤ r.inner.totalSize)
    (hoffset : ∀ offset knownTotal rpc, r.pc = .retry offset knownTotal rpc → offset ≤ r.inner.totalSize)
    (h : Drive.step (uploads build decode category) r a = some r') :
    ∃ input out, runStep r.inner.dedupeKey r.inner r.pc input = some (r'.pc, out) ∧
      r'.sent = r.sent ++ out.toList ∧ r.pc.Obeys r.inner.totalSize r.inner r.startOffset input := by
  refine Drive.step_obeys ?_ ?_ h
  · rintro _ outcome rfl - hcall
    obtain ⟨htotal, hwithin, hup⟩ := uploadPrepare_ok (l := r.loc) (Prod.ext hcall rfl)
    exact ⟨hup hstart, hwithin, by rw [htotal, ite_self]⟩
  · rintro faults offset knownTotal attempt outcome rfl hpc hcall
    have hle := hoffset _ _ _ hpc
    have hchunk : uploadOneChunk Uplink.ops build decode category r.inner offset r.inner.chunkSize
        { r.loc with world := { r.loc.world with faults := faults } } = (.ok outcome, _) := Prod.ext hcall rfl
    by_cases hend : r.inner.totalSize ≤ offset ∨ r.inner.chunkSize = 0
    · rw [uploadOneChunk_end hend] at hchunk
      cases hchunk
      exact ⟨le_rfl, hle, .inr rfl⟩
    · rw [not_or, Nat.not_le] at hend
      obtain ⟨hlt, hzero⟩ := hend
      rcases uploadOneChunk_ok Uplink.ops_filling hlt (Nat.one_le_iff_ne_zero.2 hzero) hchunk with
        rfl | ⟨next, hnext, rfl⟩
      · exact ⟨hle, le_rfl, .inr rfl⟩
      · rw [u64Add_of_lt (by omega)] at hnext
        cases hnext
        refine ⟨Nat.le_add_right _ _, ?_, .inr rfl⟩
        show offset + min r.inner.chunkSize (r.inner.totalSize - offset) ≤ r.inner.totalSize
        omega

end

end SpottedCat
