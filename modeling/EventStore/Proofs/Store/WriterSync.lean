import EventStore.Proofs.Store.FailedTruncation
import EventStore.Proofs.Store.Switch

/-!
# The writer and its checkpoint

The chunk writer moves its position through one action only, `setWriterPosition`, which writes
the same value into the writer checkpoint; `flush` then makes that value durable. So after every
operation of the writer that returns, the writer stands at the written value of its checkpoint
(`Store.WriterSynced`), and a flush publishes exactly the writer's position.

Truncation is the exception: the writer is reopened at the *flushed* value of the checkpoint,
while the files are cut and the checkpoint pulled back only when the truncation point lies below
that flushed value. When the writer had appended since its last flush and the point is at or past
the flushed value, the written value keeps the old, unflushed position: the writer and its
checkpoint part (`Store.runs_truncateWriter_checkpoint`), and the next flush makes durable a
position past data the truncation zeroed. From a flushed checkpoint the truncation keeps them
together.

The argument is carried by a relation between the states before and after a step
(`StepRel`, `Relates`): the writer's operations are shown to keep `WriterMoves` from the actions
they are built of, one rule per kind of action, so no operation is unfolded twice. Main statement:
along every run of writer operations that return, in which each truncation starts from a flushed
writer checkpoint, the writer stays at its checkpoint (`writer_stays_at_its_checkpoint`).
-/

namespace EventStore

open Store

/-! ## Relations kept by successful runs -/

/-- A relation between the states before and after a step that holds of a step doing nothing and
of two steps one after the other. -/
structure StepRel (σ : Type) where
  holds : σ → σ → Prop
  refl : ∀ s, holds s s
  trans : ∀ {s₁ s₂ s₃}, holds s₁ s₂ → holds s₂ s₃ → holds s₁ s₃

variable {σ ε δ α β : Type}

/-- Every run of `m` that returns relates the state it started on to the state it leaves. -/
def Relates (R : StepRel σ) (m : ExceptT (Fault ε) (StateM σ) α) : Prop :=
  ∀ ⦃s : σ⦄ ⦃v : α⦄ ⦃s' : σ⦄, Runs m s v s' → R.holds s s'

namespace Relates

variable {R : StepRel σ} {m : ExceptT (Fault ε) (StateM σ) α}

theorem of_readOnly (hm : ReadOnly m) : Relates R m := fun s _ _ h => by
  rw [(Runs.returns hm h).1]
  exact R.refl s

theorem pure (v : α) : Relates R (Pure.pure v : ExceptT (Fault ε) (StateM σ) α) :=
  of_readOnly (ReadOnly.pure v)

theorem throw (e : Fault ε) : Relates R (MonadExcept.throw e : ExceptT (Fault ε) (StateM σ) α) :=
  fun _ _ _ h => absurd h Runs.not_throw

theorem fail (e : ε) : Relates R (EventStore.fail e : ExceptT (Fault ε) (StateM σ) α) :=
  fun _ _ _ h => absurd h Runs.not_fail

theorem stop : Relates R (EventStore.stop : ExceptT (Fault ε) (StateM σ) α) :=
  fun _ _ _ h => absurd h Runs.not_stop

theorem bind {f : α → ExceptT (Fault ε) (StateM σ) β} (hm : Relates R m)
    (hf : ∀ v, Relates R (f v)) : Relates R (m >>= f) := fun _ _ _ h => by
  obtain ⟨v, s₁, h₁, h₂⟩ := h.bind_inv
  exact R.trans (hm h₁) (hf v h₂)

theorem map {f : α → β} (hm : Relates R m) : Relates R (f <$> m) := fun _ _ _ h => by
  obtain ⟨v, h₁, -⟩ := Runs.map_inv h
  exact hm h₁

theorem ite {p : Prop} [Decidable p] {x y : ExceptT (Fault ε) (StateM σ) α} (hx : p → Relates R x)
    (hy : ¬p → Relates R y) : Relates R (if p then x else y) := by
  split
  · exact hx ‹_›
  · exact hy ‹_›

/-- A guard that either fails or goes on with `x` relates as `x` does. -/
theorem guarded {p : Prop} [Decidable p] {e : ε} {x : ExceptT (Fault ε) (StateM σ) α}
    (hx : Relates R x) :
    Relates R
      (if p then (EventStore.fail e : ExceptT (Fault ε) (StateM σ) β) >>= (fun _ => x) else x) :=
  ite (fun _ => (fail e).bind fun _ => hx) fun _ => hx

theorem modify {g : σ → σ} (hg : ∀ s, R.holds s (g s)) :
    Relates R (modify g : ExceptT (Fault ε) (StateM σ) PUnit) := fun s _ _ h => by
  rw [Runs.modify_inv h]
  exact hg s

theorem forIn {γ : Type} {l : List γ} {b : β}
    {f : γ → β → ExceptT (Fault ε) (StateM σ) (ForInStep β)}
    (hf : ∀ x b, Relates R (f x b)) : Relates R (ForIn.forIn l b f) := fun _ _ _ h =>
  Runs.forIn_rel R.refl R.trans (fun x b _ _ _ hr => hf x b hr) h

/-- Failures reported as failures of a wider kind: the runs that return are the same. -/
theorem wrap {f : ε → δ} (hm : Relates R m) : Relates R (ExceptT.wrap f m) := fun _ _ _ h => by
  unfold Runs at h
  rw [ExceptT.wrap, ExceptT.run_adapt, StateT.run_map] at h
  rcases hr : (ExceptT.run m).run _ with ⟨_ | v, s₁⟩ <;> rw [hr] at h <;> cases h
  exact hm hr

end Relates

/-! ## Store actions -/

namespace Relates

variable {R : StepRel Store}

/-- A world action moves only the world. -/
theorem onWorld {m : WorldM ε α} (hw : ∀ (s : Store) w, R.holds s { s with world := w }) :
    Relates R (Store.onWorld m) := fun s _ _ h => by
  obtain ⟨w, -, rfl⟩ := Runs.onWorld_inv h
  exact hw s w

theorem holdingChunks {m : StoreM ε α} (hm : Relates R m) : Relates R (holdingChunks m) :=
  fun _ _ _ h => hm (runs_holdingChunks_inv h)

end Relates

/-! ## What the writer's operations move -/

/-- The writer stands where its checkpoint was last written. -/
def Store.WriterSynced (s : Store) : Prop :=
  s.writer.position = s.db.config.checkpoints.writer.last

/-- The last written value of the writer checkpoint was flushed. -/
def Store.WriterFlushed (s : Store) : Prop :=
  s.db.config.checkpoints.writer.last = s.db.config.checkpoints.writer.read

/-- What an operation of the chunk writer other than truncation does to the store: the writer
moves only together with the written value of its checkpoint, and the chaser and epoch
checkpoints, the epoch cache and the database generation stay as they are. -/
structure WriterMoves (s s' : Store) : Prop where
  synced : s.WriterSynced → s'.WriterSynced
  chaser : s'.db.config.checkpoints.chaser = s.db.config.checkpoints.chaser
  epoch : s'.db.config.checkpoints.epoch = s.db.config.checkpoints.epoch
  epochs : s'.epochs = s.epochs
  generation : s'.db.generation = s.db.generation

/-- `WriterMoves` as a relation between the states before and after a step. -/
def writerMoves : StepRel Store where
  holds := WriterMoves
  refl _ := ⟨id, rfl, rfl, rfl, rfl⟩
  trans h₁ h₂ := ⟨h₂.synced ∘ h₁.synced, h₂.chaser.trans h₁.chaser, h₂.epoch.trans h₁.epoch,
    h₂.epochs.trans h₁.epochs, h₂.generation.trans h₁.generation⟩

namespace WriterMoves

/-- A step that leaves the writer's position, the checkpoints, the epoch cache and the generation
moves nothing the relation looks at. -/
theorem of_parts {s s' : Store} (hpos : s'.writer.position = s.writer.position)
    (hcps : s'.db.config.checkpoints = s.db.config.checkpoints) (hep : s'.epochs = s.epochs)
    (hgen : s'.db.generation = s.db.generation) : WriterMoves s s' where
  synced h := by
    unfold Store.WriterSynced at h ⊢
    rw [hpos, hcps]
    exact h
  chaser := by rw [hcps]
  epoch := by rw [hcps]
  epochs := hep
  generation := hgen

/-- The world moves nothing the relation looks at. -/
theorem world (s : Store) (w : World) : WriterMoves s { s with world := w } :=
  of_parts rfl rfl rfl rfl

end WriterMoves

namespace Store

variable {ε : Type}

theorem writerMoves_onWorld {α : Type} (m : WorldM ε α) : Relates writerMoves (onWorld m) :=
  Relates.onWorld WriterMoves.world

theorem readOnly_theWriter : ReadOnly (theWriter : StoreM ε ChunkWriter) := by
  unfold theWriter
  exact ReadOnly.get.bind fun _ => ReadOnly.pure _

theorem readOnly_getChunk (n : Nat) : ReadOnly (getChunk n : StoreM ε (Option Chunk)) := by
  unfold getChunk
  exact readOnly_chunkList.bind fun _ => ReadOnly.pure _

theorem readOnly_chunkByHandle (h : Nat) :
    ReadOnly (chunkByHandle? h : StoreM ε (Option Chunk)) := by
  unfold chunkByHandle?
  exact readOnly_chunkList.bind fun _ => ReadOnly.pure _

/-- Changing the writer but not its position. -/
theorem writerMoves_modifyWriter {f : ChunkWriter → ChunkWriter}
    (hf : ∀ w, (f w).position = w.position) :
    Relates writerMoves (modifyWriter f : StoreM ε Unit) :=
  Relates.modify fun s => WriterMoves.of_parts (hf s.writer) rfl rfl rfl

/-- Moving the writer writes the same value into its checkpoint. -/
theorem writerMoves_setWriterPosition (p : Int) :
    Relates writerMoves (setWriterPosition p : StoreM ε Unit) := fun s _ _ h => by
  rw [runs_setWriterPosition_inv h]
  exact ⟨fun _ => rfl, rfl, rfl, rfl, rfl⟩

/-- A flush keeps the written value of the writer checkpoint. -/
theorem writerMoves_flushWriter : Relates writerMoves (flushWriter : StoreM ε Unit) :=
  fun s _ _ h => by
    rw [runs_flushWriter_inv h]
    refine ⟨fun hs => ?_, rfl, rfl, rfl, rfl⟩
    unfold Store.WriterSynced at hs ⊢
    rw [(Checkpoint.flush_spec _ _).2.1]
    exact hs

/-- A chunk action moves the world and one chunk. -/
theorem writerMoves_withChunk {γ : Type} (c : Chunk) (f : Chunk → WorldM DbError (γ × Chunk)) :
    Relates writerMoves (withChunk c f) := fun _ _ _ h => by
  obtain ⟨c', w, -, rfl⟩ := runs_withChunk_inv h
  exact WriterMoves.of_parts rfl rfl rfl rfl

/-- Changing the chunk list, or marking it unusable, moves nothing the relation looks at. -/
theorem writerMoves_modifyDb (f : ChunkDb → ChunkDb) (hcfg : ∀ db, (f db).config = db.config)
    (hgen : ∀ db, (f db).generation = db.generation) :
    Relates writerMoves (modify fun s => { s with db := f s.db } : StoreM ε PUnit) :=
  Relates.modify fun s => WriterMoves.of_parts rfl (by rw [hcfg]) rfl (hgen s.db)

theorem writerMoves_addNewChunk (header : ChunkHeader) :
    Relates writerMoves (addNewChunk header) := by
  unfold addNewChunk
  refine Relates.holdingChunks ?_
  refine Relates.bind (.of_readOnly readOnly_chunkList) fun cs => ?_
  refine Relates.bind (.of_readOnly readOnly_config) fun cfg => ?_
  -- the file of an empty chunk of the same number goes, or the chunk must be the next one
  have hadd : ∀ u : PUnit, Relates writerMoves (do
      let c ← onWorld (cfg.createChunkFile header)
      modify fun s => { s with db.chunks := (ChunkList.add s.db.chunks c).2 }
      pure c : StoreM DbError Chunk) := fun _ =>
    (writerMoves_onWorld _).bind fun c =>
      (writerMoves_modifyDb (fun db => { db with chunks := (ChunkList.add db.chunks c).2 })
        (fun _ => rfl) fun _ => rfl).bind fun _ => Relates.pure c
  dsimp only
  split
  · refine Relates.ite (fun _ => (Relates.fail _).bind fun _ => ?_) fun _ => ?_
    · exact (writerMoves_onWorld _).bind hadd
    · exact (writerMoves_onWorld _).bind hadd
  · exact Relates.ite (fun _ => (Relates.fail _).bind hadd) fun _ => hadd ()

theorem writerMoves_switchChunk (tempName : String) :
    Relates writerMoves (switchChunk tempName) := by
  unfold switchChunk
  refine Relates.bind (.of_readOnly readOnly_config) fun cfg => ?_
  refine (writerMoves_onWorld _).bind fun handle => ?_
  refine (writerMoves_onWorld _).bind fun c => ?_
  refine (writerMoves_onWorld _).bind fun _ => ?_
  -- the chunk is renamed into place and put in the list; the files it replaces go
  refine Relates.holdingChunks ?_
  refine (writerMoves_onWorld _).bind fun version => ?_
  refine (writerMoves_onWorld _).bind fun _ => ?_
  refine Relates.bind (.of_readOnly readOnly_chunkList) fun cs => ?_
  refine (writerMoves_modifyDb (fun db => { db with chunks := (ChunkList.add cs _).2 })
    (fun _ => rfl) fun _ => rfl).bind fun _ => ?_
  refine (Relates.forIn fun r _ => ?_).bind fun _ => Relates.pure _
  exact Relates.ite (fun _ => (writerMoves_onWorld _).bind fun _ => Relates.pure _)
    fun _ => Relates.pure _

theorem writerMoves_activeChunkAt (p : Int) : Relates writerMoves (activeChunkAt p) := by
  unfold activeChunkAt
  refine Relates.bind (.of_readOnly readOnly_config) fun cfg => ?_
  refine (writerMoves_onWorld _).bind fun n => ?_
  refine Relates.bind (.of_readOnly (readOnly_getChunk n)) fun found => ?_
  -- the active chunk of that number, or a new one; its data must end at the position
  refine Relates.bind ?_ fun c => ?_
  · split
    · exact Relates.pure _
    · exact (writerMoves_onWorld _).bind fun _ => writerMoves_addNewChunk _
  · refine Relates.ite (fun _ => Relates.fail _) fun _ => ?_
    exact (writerMoves_modifyWriter fun _ => by rfl).bind fun _ => Relates.pure c

theorem writerMoves_ensureChunk : Relates writerMoves ensureChunk := by
  unfold ensureChunk
  refine Relates.bind (.of_readOnly readOnly_theWriter) fun w => ?_
  -- the current chunk found by its handle, or the active chunk at the writer position
  dsimp only
  split
  · refine Relates.bind (.of_readOnly (readOnly_chunkByHandle _)) fun found => ?_
    split
    · exact Relates.pure _
    · exact writerMoves_activeChunkAt _
  · exact writerMoves_activeChunkAt _

theorem writerMoves_completeChunk : Relates writerMoves completeChunk := by
  unfold completeChunk
  refine writerMoves_ensureChunk.bind fun c => ?_
  refine (writerMoves_withChunk c _).bind fun _ => ?_
  refine (writerMoves_modifyWriter fun _ => by rfl).bind fun _ => ?_
  refine (writerMoves_setWriterPosition _).bind fun _ => ?_
  exact writerMoves_flushWriter.bind fun _ => writerMoves_ensureChunk.bind fun _ => Relates.pure _

theorem writerMoves_writeOnce (r : Record) : Relates writerMoves (writeOnce r) := by
  unfold writeOnce
  dsimp only
  refine (writerMoves_modifyWriter fun _ => by rfl).bind fun _ => ?_
  refine Relates.bind (.of_readOnly readOnly_config) fun cfg => ?_
  refine Relates.guarded ?_
  refine writerMoves_ensureChunk.bind fun c => ?_
  -- the record is appended and the writer moves past it, or the chunk is completed
  refine (writerMoves_withChunk c _).bind fun fits => ?_
  refine Relates.ite (fun _ => ?_) fun _ => writerMoves_completeChunk.bind fun _ => Relates.pure _
  exact Relates.bind (.of_readOnly readOnly_theWriter) fun w =>
    (writerMoves_setWriterPosition _).bind fun _ => Relates.pure _

theorem writerMoves_writeRecord (make : Int → Record) : Relates writerMoves (writeRecord make) := by
  unfold writeRecord
  -- two tries, each at the writer position of the time
  have htry : ∀ k : Int → Option Int → StoreM DbError (Int × Int),
      (∀ start x, Relates writerMoves (k start x)) →
      Relates writerMoves (do
        let start ← (·.position) <$> theWriter
        let x ← writeOnce (make start)
        k start x) := fun k hk =>
    (Relates.map (.of_readOnly readOnly_theWriter)).bind fun start =>
      (writerMoves_writeOnce _).bind (hk start)
  refine htry _ fun _ x => ?_
  split
  · exact Relates.pure _
  · refine htry _ fun _ y => ?_
    split
    · exact Relates.pure _
    · exact Relates.bind (.of_readOnly readOnly_theWriter) fun _ => Relates.fail _

theorem writerMoves_addReplicatedChunk (header : ChunkHeader) (fileSize : Nat)
    (isCompleted : Bool) :
    Relates writerMoves (addReplicatedChunk header fileSize isCompleted) := by
  unfold addReplicatedChunk
  dsimp only
  refine Relates.bind (.of_readOnly readOnly_theWriter) fun w => ?_
  refine Relates.guarded ?_
  refine (writerMoves_modifyWriter fun _ => by rfl).bind fun _ => ?_
  -- a completed chunk is received into a temporary file, an active one becomes the writer's
  refine Relates.ite (fun _ => ?_) fun _ => ?_
  · refine Relates.bind (.of_readOnly readOnly_config) fun cfg => ?_
    refine (writerMoves_onWorld _).bind fun _ => ?_
    refine (writerMoves_onWorld _).bind fun _ => ?_
    -- a size past the largest file offset stops; otherwise the file is sized and received into
    refine Relates.ite (fun _ => Relates.stop.bind fun _ => ?_) fun _ => ?_ <;>
      exact (writerMoves_onWorld _).bind fun _ => writerMoves_modifyWriter fun _ => by rfl
  · refine (writerMoves_modifyWriter fun _ => by rfl).bind fun _ => ?_
    exact (writerMoves_addNewChunk _).bind fun _ => writerMoves_modifyWriter fun _ => by rfl

theorem writerMoves_writeRawChunkBytes (rawPosition : Nat) (bs : ByteArray) :
    Relates writerMoves (writeRawChunkBytes rawPosition bs) := by
  unfold writeRawChunkBytes
  refine Relates.bind (.of_readOnly readOnly_theWriter) fun w => ?_
  split
  · refine Relates.ite (fun _ => Relates.pure _) fun _ => ?_
    -- an offset past the largest stops; otherwise the bytes below the largest file length are
    -- written, and a write reaching past it then fails
    refine Relates.ite (fun _ => Relates.stop.bind fun _ => ?_) fun _ => ?_ <;>
      exact (writerMoves_onWorld _).bind fun _ =>
        Relates.ite (fun _ => Relates.fail _) fun _ => Relates.pure _
  · exact Relates.fail _

theorem writerMoves_completeRawChunk : Relates writerMoves completeRawChunk := by
  unfold completeRawChunk
  refine Relates.bind (.of_readOnly readOnly_theWriter) fun w => ?_
  split
  · -- the chunk received is switched in and the writer moves past it
    refine (writerMoves_modifyWriter fun _ => by rfl).bind fun _ => ?_
    refine (writerMoves_switchChunk _).bind fun c => ?_
    exact (writerMoves_setWriterPosition _).bind fun _ => writerMoves_flushWriter
  · exact Relates.fail _

theorem writerMoves_appendRawData (logPosition : Int) (data : ByteArray) :
    Relates writerMoves (appendRawData logPosition data) := by
  unfold appendRawData
  dsimp only
  refine Relates.bind (.of_readOnly readOnly_theWriter) fun w => ?_
  refine Relates.guarded ?_
  refine writerMoves_ensureChunk.bind fun c => ?_
  refine (writerMoves_withChunk c _).bind fun fits => ?_
  refine Relates.guarded ?_
  exact writerMoves_setWriterPosition _

theorem writerMoves_completeReplicatedChunk : Relates writerMoves completeReplicatedChunk := by
  unfold completeReplicatedChunk
  refine writerMoves_ensureChunk.bind fun c => ?_
  refine (writerMoves_withChunk c _).bind fun _ => ?_
  refine (writerMoves_modifyWriter fun _ => by rfl).bind fun _ => ?_
  exact (writerMoves_setWriterPosition _).bind fun _ => writerMoves_flushWriter

/-- A flush leaves the writer checkpoint flushed. -/
theorem runs_flushWriter_flushed {u : Unit} (h : Runs (flushWriter : StoreM ε Unit) s u s') :
    s'.WriterFlushed := by
  rw [runs_flushWriter_inv h]
  have hflush := Checkpoint.flush_spec s.db.config.checkpoints.writer s.world.disk
  exact hflush.2.1.trans hflush.2.2.symm

end Store

/-! ## Truncation -/

namespace DbConfig

variable {ε : Type} {w w' : World}

/-- A checkpoint stored under a condition is written and flushed at the value when the condition
holds, and left as it was otherwise. -/
theorem runs_storeCheckpointIf_cases {b : Bool} {c c' : Checkpoint} {v : Int}
    (h : Runs (storeCheckpointIf b c v : WorldM ε Checkpoint) w c' w') :
    b = true ∧ c'.last = v ∧ c'.read = v ∨ b = false ∧ c' = c := by
  unfold storeCheckpointIf at h
  cases b with
  | true =>
    unfold storeCheckpoint flushCheckpoint at h
    obtain ⟨rfl, -⟩ := Runs.modifyGet_inv h
    have hflush := Checkpoint.flush_spec (c.write v) w.disk
    exact .inl ⟨rfl, hflush.2.1, hflush.2.2⟩
  | false =>
    obtain ⟨rfl, -⟩ := Runs.pure_inv h
    exact .inr ⟨rfl, rfl⟩

/-- The pull-back of the checkpoints flushes the writer checkpoint at the position when it was past
it, and leaves it as it was otherwise. -/
theorem runs_clampCheckpoints_writer {cps cps' : Checkpoints} {p : Int}
    (h : Runs (clampCheckpoints cps p : WorldM ε Checkpoints) w cps' w') :
    cps'.writer.last = cps'.writer.read ∨ cps'.writer = cps.writer := by
  unfold clampCheckpoints at h
  obtain ⟨_, _, -, h⟩ := h.bind_inv
  obtain ⟨_, _, -, h⟩ := h.bind_inv
  obtain ⟨writer, _, hwriter, h⟩ := h.bind_inv
  obtain ⟨_, _, -, h⟩ := h.bind_inv
  obtain ⟨rfl, -⟩ := Runs.pure_inv h
  rcases runs_storeCheckpointIf_cases hwriter with ⟨-, hlast, hread⟩ | ⟨-, rfl⟩
  · exact .inl (hlast.trans hread.symm)
  · exact .inr rfl

end DbConfig

namespace Store

variable {s s' : Store}

/-- A truncation that succeeds leaves the epoch cache, counts one more generation and pulls the
checkpoints back to the position it rolls back to; there the writer checkpoint is flushed, or left
as it was. -/
theorem runs_truncateTo_inv {T : Int} {u : Unit} (h : Runs (truncateTo T) s u s') :
    s'.epochs = s.epochs ∧ s'.db.generation = s.db.generation + 1 ∧
      ∃ T', s.db.config.checkpoints.ClampedTo s'.db.config.checkpoints T' ∧
        (s'.WriterFlushed ∨ s'.db.config.checkpoints.writer = s.db.config.checkpoints.writer) := by
  unfold truncateTo at h
  obtain ⟨_, s₁, h₁, h⟩ := h.bind_inv
  obtain ⟨_, s₂, h₂, h⟩ := h.bind_inv
  replace h := runs_holdingChunks_inv h
  obtain ⟨_, s₃, h₃, h⟩ := h.bind_inv
  obtain ⟨cfg, s₄, h₄, h⟩ := h.bind_inv
  obtain ⟨r, s₅, h₅, h⟩ := h.bind_inv
  -- the truncate checkpoint is written and flushed, and the chunks are dropped
  unfold modifyCheckpoints at h₁
  rw [Runs.modify_inv h₁] at h₂
  obtain ⟨-, rfl⟩ := Runs.unique h₂ (runs_flushCheckpointOf _ _ _)
  rw [Runs.modify_inv h₃] at h₄
  obtain ⟨rfl, rfl⟩ := runs_config_inv h₄
  rcases Runs.tryCatch_inv h₅ with h₅ | ⟨e, s₆, -, h₆⟩
  · -- the files are cut and the checkpoints pulled back
    obtain ⟨cps, s₆, h₆, h₇⟩ := h₅.bind_inv
    obtain ⟨w, hw, rfl⟩ := Runs.onWorld_inv h₆
    obtain ⟨_, s₇, h₇, h₈⟩ := h₇.bind_inv
    unfold setCheckpoints at h₇
    rw [Runs.modify_inv h₇] at h₈
    obtain ⟨rfl, rfl⟩ := Runs.pure_inv h₈
    obtain ⟨T', _, -, hclamp⟩ := DbConfig.runs_truncateFiles_clamp hw
    -- the chunks are reloaded and the generation counted
    obtain ⟨_, s₈, h₈, k₁⟩ := h.bind_inv
    obtain ⟨-, rfl⟩ := runs_config_inv h₈
    obtain ⟨cs, s₉, h₉, k₂⟩ := k₁.bind_inv
    obtain ⟨w', -, rfl⟩ := Runs.onWorld_inv h₉
    obtain ⟨_, s₁₀, h₁₀, k₃⟩ := k₂.bind_inv
    rw [Runs.modify_inv h₁₀] at k₃
    rw [Runs.modify_inv k₃]
    have hclamped := DbConfig.runs_clampCheckpoints_inv hclamp
    have hwriter := DbConfig.runs_clampCheckpoints_writer hclamp
    exact ⟨rfl, rfl, T', ⟨hclamped.epoch, hclamped.chaser, hclamped.writer, hclamped.truncate⟩,
      hwriter⟩
  · -- a truncation of the files that fails fails the whole
    cases e with
    | panic => exact absurd h₆ Runs.not_stop
    | error e =>
      obtain ⟨rfl, rfl⟩ := Runs.pure_inv h₆
      obtain ⟨_, _, -, h⟩ := h.bind_inv
      obtain ⟨_, _, -, h⟩ := h.bind_inv
      obtain ⟨_, _, -, h⟩ := h.bind_inv
      exact absurd h Runs.not_fail

/-- A truncation of the writer does what the truncation of the database does, and reopens the
writer at the flushed value of the writer checkpoint. -/
theorem runs_truncateWriter_inv {T : Int} {u : Unit} (h : Runs (truncateWriter T) s u s') :
    s'.epochs = s.epochs ∧ s'.db.generation = s.db.generation + 1 ∧
      s'.writer.position = s'.db.config.checkpoints.writer.read ∧
      ∃ T', s.db.config.checkpoints.ClampedTo s'.db.config.checkpoints T' ∧
        (s'.WriterFlushed ∨ s'.db.config.checkpoints.writer = s.db.config.checkpoints.writer) := by
  unfold truncateWriter at h
  obtain ⟨_, s₁, h₁, k₁⟩ := h.bind_inv
  obtain ⟨_, s₂, h₂, k₂⟩ := k₁.bind_inv
  obtain ⟨p, s₃, h₃, k₃⟩ := k₂.bind_inv
  obtain ⟨found, s₄, h₄, k₄⟩ := k₃.bind_inv
  obtain ⟨rfl, hp⟩ := Runs.returns readOnly_writerCheckpoint h₃
  obtain ⟨rfl, -⟩ := Runs.returns (readOnly_getChunkFor p) h₄
  dsimp only at k₄
  rw [runs_modifyWriter_inv k₄]
  rw [runs_modifyWriter_inv h₁] at h₂
  obtain ⟨hepochs, hgen, hclamp⟩ := runs_truncateTo_inv h₂
  exact ⟨hepochs, hgen, yields_writerCheckpoint s₄ p hp, hclamp⟩

/-- A truncation of the writer reopens it at the flushed value of its checkpoint, which the
truncation flushed at the position rolled back to or left as it was. -/
theorem runs_truncateWriter_checkpoint {T : Int} {u : Unit} (h : Runs (truncateWriter T) s u s') :
    s'.writer.position = s'.db.config.checkpoints.writer.read ∧
      (s'.WriterFlushed ∨ s'.db.config.checkpoints.writer = s.db.config.checkpoints.writer) := by
  obtain ⟨-, -, hpos, _, -, hwriter⟩ := runs_truncateWriter_inv h
  exact ⟨hpos, hwriter⟩

/-- A truncation from a flushed writer checkpoint leaves the writer at it, still flushed. -/
theorem runs_truncateWriter_flushed {T : Int} {u : Unit} (h : Runs (truncateWriter T) s u s')
    (hf : s.WriterFlushed) : s'.WriterSynced ∧ s'.WriterFlushed := by
  obtain ⟨hpos, hf' | hsame⟩ := runs_truncateWriter_checkpoint h
  · exact ⟨hpos.trans hf'.symm, hf'⟩
  · -- the checkpoint kept is the one flushed before
    have hf' : s'.WriterFlushed := by
      unfold WriterFlushed at hf ⊢
      rw [hsame]
      exact hf
    exact ⟨hpos.trans hf'.symm, hf'⟩

/-- A flush from a writer at its checkpoint makes the writer's position durable. -/
theorem runs_flushWriter_publishes {u : Unit} (h : Runs (flushWriter : StoreM ε Unit) s u s')
    (hs : s.WriterSynced) : s'.db.config.checkpoints.writer.read = s'.writer.position := by
  have hf := runs_flushWriter_flushed h
  have hs' := (writerMoves_flushWriter h).synced hs
  unfold WriterFlushed at hf
  unfold WriterSynced at hs'
  rw [hs', hf]

end Store

/-! ## Runs of writer operations -/

/-- The operations of the chunk writer. -/
inductive WriterOp
  | write (record : Record)
  | writeRecord (make : Int → Record)
  | completeChunk
  | addReplicatedChunk (header : ChunkHeader) (fileSize : Nat) (isCompleted : Bool)
  | writeRawChunkBytes (rawPosition : Nat) (bytes : ByteArray)
  | completeRawChunk
  | appendRawData (logPosition : Int) (data : ByteArray)
  | completeReplicatedChunk
  | flush
  | truncate (position : Int)

namespace WriterOp

/-- One operation, its result dropped. -/
def run : WriterOp → StoreM DbError Unit
  | write r => do let _ ← writeOnce r
  | writeRecord make => do let _ ← Store.writeRecord make
  | completeChunk => Store.completeChunk
  | addReplicatedChunk header fileSize isCompleted =>
    Store.addReplicatedChunk header fileSize isCompleted
  | writeRawChunkBytes rawPosition bytes => Store.writeRawChunkBytes rawPosition bytes
  | completeRawChunk => Store.completeRawChunk
  | appendRawData logPosition data => Store.appendRawData logPosition data
  | completeReplicatedChunk => Store.completeReplicatedChunk
  | flush => flushWriter
  | truncate position => truncateWriter position

/-- The operations one after the other, up to the first that fails. -/
def runAll : List WriterOp → StoreM DbError Unit
  | [] => pure ()
  | op :: ops => do op.run; runAll ops

/-- Whether the operation is a truncation. -/
def isTruncate : WriterOp → Bool
  | truncate _ => true
  | _ => false

/-- Whether the operation leaves the writer checkpoint flushed: a flush does, and so does a
truncation that starts from a flushed one. -/
def leavesFlushed : WriterOp → Bool
  | flush | truncate _ => true
  | _ => false

/-- Whether every truncation of a run starts from a flushed writer checkpoint: right after a flush
or another truncation, or first in a run whose start is flushed (`flushed`). -/
def truncatesFlushed (flushed : Bool) : List WriterOp → Bool
  | [] => true
  | op :: ops => (!op.isTruncate || flushed) && truncatesFlushed op.leavesFlushed ops

/-- Every operation but truncation moves the writer only with its checkpoint. -/
theorem writerMoves_run : ∀ op : WriterOp, op.isTruncate = false → Relates writerMoves op.run
  | write r, _ => (writerMoves_writeOnce r).bind fun _ => Relates.pure _
  | writeRecord make, _ => (writerMoves_writeRecord make).bind fun _ => Relates.pure _
  | completeChunk, _ => writerMoves_completeChunk
  | addReplicatedChunk header fileSize isCompleted, _ =>
    writerMoves_addReplicatedChunk header fileSize isCompleted
  | writeRawChunkBytes rawPosition bytes, _ => writerMoves_writeRawChunkBytes rawPosition bytes
  | completeRawChunk, _ => writerMoves_completeRawChunk
  | appendRawData logPosition data, _ => writerMoves_appendRawData logPosition data
  | completeReplicatedChunk, _ => writerMoves_completeReplicatedChunk
  | flush, _ => writerMoves_flushWriter
  | truncate _, h => Bool.noConfusion h

variable {s s' : Store}

/-- One operation keeps the writer at its checkpoint, provided a truncation starts from a flushed
checkpoint, and leaves that checkpoint flushed when it says so. -/
theorem runs_run_synced {op : WriterOp} {u : Unit} (h : Runs op.run s u s') (hs : s.WriterSynced)
    (hf : op.isTruncate = true → s.WriterFlushed) :
    s'.WriterSynced ∧ (op.leavesFlushed = true → s'.WriterFlushed) := by
  cases op with
  | truncate T =>
    have hsync := runs_truncateWriter_flushed h (hf rfl)
    exact ⟨hsync.1, fun _ => hsync.2⟩
  | flush => exact ⟨(writerMoves_flushWriter h).synced hs, fun _ => runs_flushWriter_flushed h⟩
  | _ => exact ⟨(writerMoves_run _ rfl h).synced hs, fun h => Bool.noConfusion h⟩

/-- Along every run of writer operations that returns, in which each truncation starts from a
flushed writer checkpoint, the writer stays at its checkpoint, and a flush after the run makes the
writer's position durable. -/
theorem writer_stays_at_its_checkpoint (ops : List WriterOp) (flushed : Bool) {u : Unit}
    (h : Runs (runAll ops) s u s') (hs : s.WriterSynced) (hf : flushed = true → s.WriterFlushed)
    (hops : truncatesFlushed flushed ops = true) :
    s'.WriterSynced ∧ ∀ s'' (u' : Unit), Runs (flushWriter : StoreM DbError Unit) s' u' s'' →
      s''.db.config.checkpoints.writer.read = s''.writer.position := by
  induction ops generalizing flushed s with
  | nil =>
    obtain ⟨-, rfl⟩ := Runs.pure_inv h
    exact ⟨hs, fun _ _ hflush => runs_flushWriter_publishes hflush hs⟩
  | cons op ops ih =>
    unfold runAll at h
    obtain ⟨_, s₁, h₁, h₂⟩ := h.bind_inv
    simp only [truncatesFlushed, Bool.and_eq_true, Bool.or_eq_true, Bool.not_eq_true'] at hops
    -- a truncation is allowed here only from a flushed checkpoint
    have hf₀ : op.isTruncate = true → s.WriterFlushed := fun ht =>
      hf (hops.1.resolve_left (by rw [ht]; decide))
    obtain ⟨hs₁, hf₁⟩ := runs_run_synced h₁ hs hf₀
    exact ih op.leavesFlushed h₂ hs₁ hf₁ hops.2

/-- Two records written into an empty log, flushed, and the log truncated to the end of the first:
the run returns with the writer at its checkpoint. -/
theorem truncating_after_flush_keeps_writer_at_checkpoint :
    let ops := [writeRecord oneByteRecordAt, writeRecord oneByteRecordAt, flush, truncate 46]
    let s' := ((ExceptT.run (runAll ops)).run smallEmptyLog).2
    Runs (runAll ops) smallEmptyLog () s' ∧ smallEmptyLog.WriterSynced ∧
      smallEmptyLog.WriterFlushed ∧ truncatesFlushed true ops = true ∧
      (s'.WriterSynced ∧ ∀ s'' (u' : Unit), Runs (flushWriter : StoreM DbError Unit) s' u' s'' →
        s''.db.config.checkpoints.writer.read = s''.writer.position) := by
  intro ops s'
  have h : Runs (runAll ops) smallEmptyLog () s' := Runs.of_toOption (by decide +kernel +revert)
  have hs : smallEmptyLog.WriterSynced := rfl
  have hf : smallEmptyLog.WriterFlushed := rfl
  have hops : truncatesFlushed true ops = true := rfl
  exact ⟨h, hs, hf, hops, writer_stays_at_its_checkpoint ops true h hs (fun _ => hf) hops⟩

/-- A record written into an empty log and the log truncated to its start with no flush between:
the truncation returns with the writer at 0 and the written value of its checkpoint still past
the record, so a flush would make durable a position past data the truncation cut. -/
theorem truncating_unflushed_write_parts_writer_and_checkpoint :
    let ops := [writeRecord oneByteRecordAt, truncate 0]
    let s' := ((ExceptT.run (runAll ops)).run smallEmptyLog).2
    Runs (runAll ops) smallEmptyLog () s' ∧ s'.writer.position = 0 ∧
      s'.db.config.checkpoints.writer.last = 46 := by
  intro ops s'
  have h : ((ExceptT.run (runAll ops)).run smallEmptyLog).1.toOption = some () ∧
      s'.writer.position = 0 ∧ s'.db.config.checkpoints.writer.last = 46 := by
    decide +kernel +revert
  exact ⟨Runs.of_toOption h.1, h.2⟩

end WriterOp

end EventStore
