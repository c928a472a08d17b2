import EventStore.Proofs.Store.Faults
import EventStore.Proofs.Store.EpochCache
import EventStore.Proofs.Cli.Values
import EventStore.Server.Basic

/-!
# What the chunk size allows

The command line accepts every chunk size below `2 ^ 32` bytes, zero and the sizes below an epoch
record included. The database places a position in its chunk by dividing by the chunk size, and
the writer refuses a record whose frame is larger than a chunk. So a chunk size of zero stops the
opening of every database (`ChunkDb.open_stops_of_chunkSize_zero`), and a size below the 99 bytes
of a framed epoch record makes the first write of every new master fail as too large
(`Store.writeNewEpoch_tooLarge`).

From 99 bytes on, that write is never refused as too large (`Store.avoidsAt_writeNewEpoch`): a
record that fits in a chunk is refused only when the chunk it would end has no room left, and
then the writer moves to a new empty chunk, where it fits. The proof follows the writer's actions
down to the chunk operations, each of which reports a record as too large only when its size
check fails.

`parsed_chunk_size_usable_only_from_epoch_size` puts the two sides together for every command line.
-/

namespace EventStore

/-- A write refused because its record does not fit in a chunk. -/
def DbError.IsTooLarge : DbError → Prop
  | .recordTooLarge _ => True
  | _ => False

/-- A new epoch refused because its record does not fit in a chunk. -/
def EpochError.IsTooLarge : EpochError → Prop
  | .db e => e.IsTooLarge
  | _ => False

namespace World

variable {ε : Type} {P : ε → Prop}

theorem avoids_freshId : Avoids P (freshId : WorldM ε Uuid) := Avoids.modifyGet _

theorem avoids_freshNat : Avoids P (freshNat : WorldM ε Nat) := Avoids.modifyGet _

theorem avoids_onDisk (f : Disk → Disk) : Avoids P (onDisk f : WorldM ε Unit) := Avoids.modify _

/-- A disk operation fails only with its disk failure. -/
theorem avoids_diskTry {α : Type} {wrapIo : IoError → ε} (h : ∀ e, ¬ P (wrapIo e))
    (f : Disk → Except IoError (Disk × α)) : Avoids P (diskTry wrapIo f) := by
  unfold diskTry
  refine Avoids.get.bind fun w => ?_
  split
  · exact (Avoids.set _).bind fun _ => Avoids.pure _
  · exact Avoids.fail (h _)

end World

theorem DbConfig.avoids_chunkNumberOf {ε : Type} {P : ε → Prop} (cfg : DbConfig) (p : Int) :
    Avoids P (cfg.chunkNumberOf p : WorldM ε Nat) := by
  unfold DbConfig.chunkNumberOf
  exact Avoids.ite (fun _ => Avoids.stop) fun _ =>
    Avoids.ite (fun _ => Avoids.pure _) fun _ => Avoids.stop

theorem DbConfig.avoids_flushCheckpoint {ε : Type} {P : ε → Prop} (c : Checkpoint) :
    Avoids P (DbConfig.flushCheckpoint c : WorldM ε Checkpoint) :=
  Avoids.modifyGet _

theorem ChunkHeader.avoids_fresh {ε : Type} {P : ε → Prop} (chunkSize start finish : Nat)
    (isScavenged : Bool) :
    Avoids P (ChunkHeader.fresh chunkSize start finish isScavenged : WorldM ε ChunkHeader) :=
  World.avoids_freshId.bind fun _ => Avoids.pure _

namespace Chunk

theorem avoids_capacityOf {ε : Type} {P : ε → Prop} (h : ChunkHeader) :
    Avoids P (capacityOf h : WorldM ε Nat) := by
  unfold capacityOf
  cases h.capacity? with
  | none => exact Avoids.stop
  | some n => exact Avoids.pure n

theorem avoids_activeFileSize {ε : Type} {P : ε → Prop} (h : ChunkHeader) :
    Avoids P (activeFileSize h : WorldM ε Nat) :=
  (avoids_capacityOf h).bind fun _ => Avoids.pure _

theorem avoids_appendData (file : Nat) (w : ChunkWork) (bs : ByteArray) :
    Avoids DbError.IsTooLarge (appendData file w bs) :=
  (World.avoids_onDisk _).bind fun _ => Avoids.pure _

theorem avoids_createNew (dir name : String) (header : ChunkHeader) (fileSize handle : Nat) :
    Avoids DbError.IsTooLarge (createNew dir name header fileSize handle) := by
  unfold createNew
  exact (World.avoids_diskTry (fun _ => id) _).bind fun _ => (World.avoids_onDisk _).bind fun _ =>
    (avoids_appendData _ _ _).bind fun _ => Avoids.pure _

theorem avoids_append (c : Chunk) (data : ByteArray) :
    Avoids DbError.IsTooLarge (c.append data) := by
  unfold append
  split
  · refine (avoids_capacityOf _).bind fun n => ?_
    exact Avoids.ite (fun _ => Avoids.pure _) fun _ =>
      (avoids_appendData _ _ _).bind fun _ => Avoids.pure _
  · exact Avoids.fail id

theorem avoids_complete (c : Chunk) : Avoids DbError.IsTooLarge c.complete := by
  unfold complete completeWithMap
  split
  · refine (avoids_appendData _ _ _).bind fun w => ?_
    dsimp only
    -- after the size check only disk writes remain
    refine Avoids.ite (fun _ => Avoids.stop.bind fun _ => ?_) fun _ => ?_ <;>
      exact (World.avoids_onDisk _).bind fun _ => (World.avoids_onDisk _).bind fun _ =>
        Avoids.pure _
  · exact Avoids.fail id

end Chunk

namespace DbConfig

theorem avoids_removeFile (cfg : DbConfig) (name : String) :
    Avoids DbError.IsTooLarge (cfg.removeFile name) :=
  World.avoids_diskTry (fun _ => id) _

theorem avoids_createChunkFile (cfg : DbConfig) (header : ChunkHeader) :
    Avoids DbError.IsTooLarge (cfg.createChunkFile header) :=
  (Chunk.avoids_activeFileSize _).bind fun _ => World.avoids_freshNat.bind fun _ =>
    Chunk.avoids_createNew _ _ _ _ _

end DbConfig

/-- The record of every epoch takes 99 bytes framed. -/
theorem Epoch.length_framed_toRecord (e : Epoch) : e.toRecord.framed.length = 99 := by
  rw [Record.length_framed, Epoch.length_encode_toRecord]
  rfl

namespace DbConfig

/-- With a chunk size of zero every chunk number divides by zero, which stops the program. -/
theorem chunkNumberOf_stops {ε : Type} {cfg : DbConfig} (h : cfg.chunkSize = 0) (p : Int) (w : World) :
    FailsWith .panic (cfg.chunkNumberOf p : WorldM ε Nat) w := by
  unfold chunkNumberOf
  rw [if_pos h]
  exact FailsWith.stop

/-- Removing the temporary files always returns. -/
theorem total_removeTempFiles {ε : Type} (cfg : DbConfig) :
    Total (cfg.removeTempFiles : WorldM ε Unit) := by
  unfold removeTempFiles
  refine Total.bind (fun w => ⟨w.disk, w, rfl⟩) fun d =>
    Total.bind (Total.forIn fun x _ => ?_) fun _ => Total.pure _
  -- every visit of a file returns, whether it removes the file or not
  obtain ⟨n, _⟩ := x
  exact Total.ite (Total.bind (Total.modify _) fun _ => Total.pure _) (Total.pure _)

end DbConfig

namespace ChunkDb

/-- With a chunk size of zero, opening a database stops: finishing a truncation and loading the
chunks both start by placing the writer checkpoint in its chunk. -/
theorem open_stops_of_chunkSize_zero {cfg : DbConfig} (h : cfg.chunkSize = 0) (w : World) :
    FailsWith .panic (do let cfg ← finishTruncation cfg; openChunks cfg) w := by
  unfold finishTruncation
  split
  · refine FailsWith.bind_left (FailsWith.bind_left ?_)
    unfold DbConfig.truncateFiles
    exact FailsWith.bind_left (DbConfig.chunkNumberOf_stops h _ w)
  · refine FailsWith.bind (Runs.pure cfg w) ?_
    unfold openChunks DbConfig.loadChunks
    obtain ⟨_, w₁, h₁⟩ := DbConfig.total_removeTempFiles cfg w
    exact FailsWith.bind_left (FailsWith.bind h₁ (FailsWith.bind_left (DbConfig.chunkNumberOf_stops h _ w₁)))

end ChunkDb

/-- A server whose chunk size is zero does not start: once its checkpoint files open, opening
its database stops. -/
theorem openStore_stops_of_chunkSize_zero {p : ServerParams} (h : p.chunkSize = 0) (dir : String)
    (w : World) {disk : Disk} {cps : Checkpoints}
    (hcps : Checkpoints.openFiles w.disk dir = .ok (disk, cps)) :
    (Server.openStore dir p w).1 = .error .stopped := by
  have hcfg : ({ dir, chunkSize := p.chunkSize, checkpoints := cps,
                 verifyHashes := p.verifyHashes } : DbConfig).chunkSize = 0 := h
  have hopen := ChunkDb.open_stops_of_chunkSize_zero hcfg { w with disk := disk }
  unfold FailsWith at hopen
  simp only [Server.openStore, hcps]
  rcases hrun : StateT.run (ExceptT.run (do let cfg ← ChunkDb.finishTruncation _; ChunkDb.openChunks cfg))
    { w with disk := disk } with ⟨r, w'⟩
  rw [hrun] at hopen
  subst hopen
  rfl


namespace Store

section Primitives

variable {ε : Type} {P : ε → Prop}

theorem avoids_theWriter : Avoids P (theWriter : StoreM ε ChunkWriter) :=
  Avoids.get.bind fun _ => Avoids.pure _

theorem avoids_config : Avoids P (config : StoreM ε DbConfig) :=
  Avoids.get.bind fun _ => Avoids.pure _

theorem avoids_checkpoints : Avoids P (checkpoints : StoreM ε Checkpoints) :=
  Avoids.get.bind fun _ => Avoids.pure _

theorem avoids_modifyWriter (f : ChunkWriter → ChunkWriter) :
    Avoids P (modifyWriter f : StoreM ε Unit) :=
  Avoids.modify _

theorem avoids_setWriterPosition (p : Int) : Avoids P (setWriterPosition p : StoreM ε Unit) :=
  (avoids_modifyWriter _).bind fun _ => Avoids.modify _

theorem avoids_flushCheckpointOf (get' : Checkpoints → Checkpoint)
    (set' : Checkpoints → Checkpoint → Checkpoints) :
    Avoids P (flushCheckpointOf get' set' : StoreM ε Unit) :=
  avoids_checkpoints.bind fun _ => (DbConfig.avoids_flushCheckpoint _).onWorld.bind fun _ =>
    avoids_checkpoints.bind fun _ => Avoids.modify _

theorem avoids_flushWriter : Avoids P (flushWriter : StoreM ε Unit) :=
  avoids_flushCheckpointOf _ _

theorem avoids_chunkList : Avoids P (chunkList : StoreM ε (List Chunk)) :=
  Avoids.get.bind fun _ => Avoids.ite (fun _ => Avoids.stop) fun _ => Avoids.pure _

theorem avoids_getChunk (n : Nat) : Avoids P (getChunk n : StoreM ε (Option Chunk)) :=
  avoids_chunkList.bind fun _ => Avoids.pure _

theorem avoids_chunkByHandle (h : Nat) : Avoids P (chunkByHandle? h : StoreM ε (Option Chunk)) :=
  avoids_chunkList.bind fun _ => Avoids.pure _

end Primitives

section Chunks

theorem avoids_withChunk {α : Type} (c : Chunk) {f : Chunk → WorldM DbError (α × Chunk)}
    (hf : Avoids DbError.IsTooLarge (f c)) : Avoids DbError.IsTooLarge (withChunk c f) :=
  hf.onWorld.bind fun _ => (Avoids.modify _).bind fun _ => Avoids.pure _

theorem avoids_addNewChunk (header : ChunkHeader) :
    Avoids DbError.IsTooLarge (addNewChunk header) := by
  unfold addNewChunk
  refine Avoids.holdingChunks (avoids_chunkList.bind fun cs => avoids_config.bind fun cfg => ?_)
  dsimp only
  split
  · refine Avoids.ite (fun _ => Avoids.fail id) fun _ => ?_
    exact (DbConfig.avoids_removeFile _ _).onWorld.bind fun _ =>
      (DbConfig.avoids_createChunkFile _ _).onWorld.bind fun _ => (Avoids.modify _).bind fun _ =>
        Avoids.pure _
  · refine Avoids.ite (fun _ => Avoids.fail id) fun _ => ?_
    exact (DbConfig.avoids_createChunkFile _ _).onWorld.bind fun _ => (Avoids.modify _).bind
      fun _ => Avoids.pure _

theorem avoids_activeChunkAt (p : Int) : Avoids DbError.IsTooLarge (activeChunkAt p) := by
  unfold activeChunkAt
  refine avoids_config.bind fun cfg => (DbConfig.avoids_chunkNumberOf _ _).onWorld.bind fun n =>
    (avoids_getChunk n).bind fun x => ?_
  refine Avoids.bind ?_ fun c => ?_
  · split
    · exact Avoids.pure _
    · exact (ChunkHeader.avoids_fresh _ _ _ _).onWorld.bind fun _ => avoids_addNewChunk _
  · exact Avoids.ite (fun _ => Avoids.fail id) fun _ =>
      (avoids_modifyWriter _).bind fun _ => Avoids.pure _

theorem avoids_ensureChunk : Avoids DbError.IsTooLarge ensureChunk := by
  unfold ensureChunk
  refine avoids_theWriter.bind fun w => ?_
  dsimp only
  split
  · refine (avoids_chunkByHandle _).bind fun x => ?_
    split
    · exact Avoids.pure _
    · exact avoids_activeChunkAt _
  · exact avoids_activeChunkAt _

theorem avoids_completeChunk : Avoids DbError.IsTooLarge completeChunk :=
  avoids_ensureChunk.bind fun c => (avoids_withChunk c (Chunk.avoids_complete c)).bind fun _ =>
    (avoids_modifyWriter _).bind fun _ => (avoids_setWriterPosition _).bind fun _ =>
      avoids_flushWriter.bind fun _ => avoids_ensureChunk.bind fun _ => Avoids.pure _

end Chunks

section Writes

/-- What `writeOnce` does after its size check cannot be refused as too large. -/
theorem avoids_writeOnce_rest (frame : Bytes) :
    Avoids DbError.IsTooLarge (do
      let c ← ensureChunk
      if ← withChunk c (·.append frame.toByteArray) then
        let p := (← theWriter).position + frame.length
        setWriterPosition p
        pure (some p)
      else
        completeChunk
        pure none) := by
  refine avoids_ensureChunk.bind fun c => (avoids_withChunk c (Chunk.avoids_append _ _)).bind
    fun b => ?_
  split
  · exact avoids_theWriter.bind fun _ => (avoids_setWriterPosition _).bind fun _ => Avoids.pure _
  · exact avoids_completeChunk.bind fun _ => Avoids.pure _

/-- One try at writing a record that fits in a chunk is not refused as too large. -/
theorem avoidsAt_writeOnce {r : Record} {s : Store} (h : r.framed.length ≤ s.db.config.chunkSize) :
    AvoidsAt DbError.IsTooLarge (writeOnce r) s := by
  unfold writeOnce
  refine (avoids_modifyWriter _ s).bind fun _ s₁ h₁ => ?_
  have hcfg : s₁.db.config = s.db.config := by rw [Runs.modify_inv h₁]
  refine (avoids_config s₁).bind fun cfg s₂ h₂ => ?_
  obtain ⟨rfl, rfl⟩ := runs_config_inv h₂
  dsimp only
  -- the record fits, so the size check passes
  rw [if_neg (by rw [hcfg]; omega)]
  exact avoids_writeOnce_rest r.framed _

/-- Writing a record that fits in a chunk on a layout is never refused as too large: when the
first try finds no room, the writer moves to a new empty chunk, where the second try fits. -/
theorem avoidsAt_writeRecord {make : Int → Record} {s : Store} {plan : List (List Record)}
    (hl : Layout s plan) (hb : Builds make)
    (hfits : ∀ p, (make p).framed.length ≤ s.db.config.chunkSize) :
    AvoidsAt DbError.IsTooLarge (writeRecord make) s := by
  unfold writeRecord
  refine ((avoids_theWriter.map _) s).bind fun st₀ s₁ h₁ => ?_
  obtain ⟨w, hw, rfl⟩ := Runs.map_inv h₁
  obtain ⟨rfl, rfl⟩ := runs_theWriter_inv hw
  refine (avoidsAt_writeOnce (hfits _)).bind fun res s₂ h₂ => ?_
  split
  · exact Avoids.pure _ _
  rename_i hfirst
  -- the first try found no room: the writer stands on a new empty chunk
  obtain ⟨h0, h63⟩ := hl.position_bounds
  obtain ⟨hpos, hfit, hmax⟩ := hb _ h0 h63
  obtain ⟨hcs₂, plan₂, hl₂, hcase⟩ := runs_writeOnce hl hpos hfit hmax h₂
  obtain ⟨-, -, -, -, hlast₂, -⟩ := hcase.resolve_right fun ⟨hsome, _⟩ => hfirst _ hsome
  refine ((avoids_theWriter.map _) s₂).bind fun st₁ s₃ h₃ => ?_
  obtain ⟨w, hw, rfl⟩ := Runs.map_inv h₃
  obtain ⟨rfl, rfl⟩ := runs_theWriter_inv hw
  refine (avoidsAt_writeOnce (hcs₂ ▸ hfits _)).bind fun res' s₄ h₄ => ?_
  split
  · exact Avoids.pure _ _
  rename_i hsecond
  -- the second try fits in the empty chunk, so the last refusal is never reached
  obtain ⟨h0', h63'⟩ := hl₂.position_bounds
  obtain ⟨hpos', hfit', hmax'⟩ := hb _ h0' h63'
  obtain ⟨-, plan₃, -, hcase'⟩ := runs_writeOnce hl₂ hpos' hfit' hmax' h₄
  obtain ⟨-, -, -, -, -, rs, hrs, hroom⟩ := hcase'.resolve_right fun ⟨hsome, _⟩ => hsecond _ hsome
  have hrs' : rs = [] := hrs.elim (fun h => by rw [hlast₂] at h; exact (Option.some.inj h).symm) id
  subst hrs'
  rw [hcs₂] at hroom
  simp only [Record.frames, List.flatMap_nil, List.length_nil, Nat.zero_add] at hroom
  exact absurd (hfits _) (Nat.not_le.2 hroom)

end Writes

section Epochs

variable {ε : Type} {P : ε → Prop}

theorem avoids_cachedEpochs : Avoids P (cachedEpochs : StoreM ε (List Epoch)) :=
  Avoids.get.bind fun _ => Avoids.pure _

theorem avoids_lastEpoch : Avoids P (lastEpoch : StoreM ε (Option Epoch)) :=
  avoids_cachedEpochs.bind fun _ => Avoids.pure _

theorem avoids_storeEpochCheckpoint (p : Int) : Avoids P (storeEpochCheckpoint p : StoreM ε Unit) :=
  (Avoids.modify _).bind fun _ => avoids_flushCheckpointOf _ _

/-- Caching an epoch fails only when it does not follow the newest one. -/
theorem avoids_cacheEpoch (e : Epoch) : Avoids EpochError.IsTooLarge (cacheEpoch e) := by
  unfold cacheEpoch
  refine avoids_cachedEpochs.bind fun es => ?_
  dsimp only
  have hrest : Avoids EpochError.IsTooLarge (do
      setCachedEpochs (keepNewest (← get).epochs.cacheSize (es ++ [e]))
      storeEpochCheckpoint e.epochPosition) :=
    Avoids.get.bind fun _ => (Avoids.modify _).bind fun _ => avoids_storeEpochCheckpoint _
  split
  · exact Avoids.ite (fun _ => Avoids.pure _) fun _ =>
      Avoids.ite (fun _ => (Avoids.fail id).bind fun _ => hrest) fun _ => hrest
  · exact hrest

/-- On a laid-out log whose chunks hold the 99 bytes of an epoch record, a new epoch is never
refused as too large. -/
theorem avoidsAt_writeNewEpoch {s : Store} {plan : List (List Record)} {leader : Uuid}
    (hl : Layout s plan) (hcs : 99 ≤ s.db.config.chunkSize)
    (hfresh : freshIdBase + s.world.fresh < Nat.pow 2 128) (hleader : leader.Fits)
    (hprev : ∀ l ∈ s.epochs.epochs.getLast?, Word.signed 64 l.epochPosition = l.epochPosition) :
    AvoidsAt EpochError.IsTooLarge (writeNewEpoch leader) s := by
  unfold writeNewEpoch
  refine (avoids_lastEpoch s).bind fun last s₁ h₁ => ?_
  -- the newest cached epoch is read, and nothing changes
  obtain ⟨es, s₀, h₀, h₁⟩ := h₁.bind_inv
  obtain ⟨hlast, hs₁⟩ := Runs.pure_inv h₁
  unfold cachedEpochs at h₀
  obtain ⟨s₂, s₃, h₂, h₃⟩ := h₀.bind_inv
  obtain ⟨hs₂, hs₃⟩ := Runs.get_inv h₂
  subst s₂ s₃
  obtain ⟨hes, hs₀⟩ := Runs.pure_inv h₃
  subst es s₀ s₁ last
  dsimp only
  refine (World.avoids_freshId.onWorld _).bind fun id s₄ h₄ => ?_
  obtain ⟨w, hw, rfl⟩ := Runs.onWorld_inv h₄
  obtain ⟨rfl, rfl⟩ := Runs.modifyGet_inv hw
  -- the epoch's record, 99 bytes at every position, is written on the log with one more
  -- identifier drawn
  have hrec : AvoidsAt DbError.IsTooLarge (writeRecord fun p => (s.nextEpoch leader p).toRecord)
      { s with world.fresh := s.world.fresh + 1 } :=
    avoidsAt_writeRecord hl.drawFresh (builds_nextEpoch hfresh hleader hprev) fun p => by
      rw [Epoch.length_framed_toRecord]
      exact hcs
  refine (hrec.wrap (Q := EpochError.IsTooLarge) (f := EpochError.db) fun _ he => he).bind
    fun _ s₅ _ => ?_
  exact (avoids_flushWriter.bind fun _ => (avoids_cacheEpoch _).bind fun _ => Avoids.pure _) s₅

/-- With chunks smaller than an epoch record, a new epoch is refused as too large, whatever the
state of the log. -/
theorem writeNewEpoch_tooLarge {s : Store} (hcs : s.db.config.chunkSize < 99) (leader : Uuid) :
    FailsWith (.error (.db (.recordTooLarge 99))) (writeNewEpoch leader) s := by
  unfold writeNewEpoch
  refine FailsWith.bind (v := s.epochs.epochs.getLast?) rfl ?_
  refine FailsWith.bind (v := ⟨freshIdBase + s.world.fresh⟩) rfl ?_
  refine FailsWith.bind_left
    (FailsWith.wrap (f := .error (DbError.recordTooLarge 99)) EpochError.db ?_)
  unfold writeRecord
  refine FailsWith.bind (v := s.writer.position) rfl (FailsWith.bind_left ?_)
  -- the first try checks the size of the record's frame against the chunk size
  unfold writeOnce
  refine FailsWith.bind (v := ()) rfl ?_
  refine FailsWith.bind (v := s.db.config) rfl ?_
  dsimp only
  rw [Epoch.length_framed_toRecord, if_pos hcs]
  exact FailsWith.bind_left FailsWith.fail

end Epochs

end Store

/-- What the chunk size a command line gives allows. Every accepted size is below `2 ^ 32`, the
sizes below the 99 bytes of an epoch record included. With a size of zero a server does not
start: once its checkpoint files open, opening its database stops. A positive size places every
position of the log's range in its chunk. Below 99 bytes, the epoch a new master writes first is
refused as too large from every store; from 99 on it never is, on every laid-out log. -/
theorem parsed_chunk_size_usable_only_from_epoch_size {args : List String} {p : NodeParams}
    (hp : Cli.parse args = .ok p) :
    p.chunkSize < Nat.pow 2 32 ∧
    (p.chunkSize = 0 → ∀ (sp : ServerParams) (dir : String) (w : World) (disk : Disk)
      (cps : Checkpoints), sp.chunkSize = p.chunkSize →
      Checkpoints.openFiles w.disk dir = .ok (disk, cps) →
      (Server.openStore dir sp w).1 = .error .stopped) ∧
    (0 < p.chunkSize → ∀ (cfg : DbConfig) (m : Nat) (w : World), cfg.chunkSize = p.chunkSize →
      m / cfg.chunkSize < Nat.pow 2 32 →
      Returns (cfg.chunkNumberOf m : WorldM DbError Nat) w (m / cfg.chunkSize)) ∧
    (p.chunkSize < 99 → ∀ (s : Store) (leader : Uuid), s.db.config.chunkSize = p.chunkSize →
      FailsWith (.error (.db (.recordTooLarge 99))) (Store.writeNewEpoch leader) s) ∧
    (99 ≤ p.chunkSize → ∀ (s : Store) (plan : List (List Record)) (leader : Uuid),
      s.db.config.chunkSize = p.chunkSize → Layout s plan →
      freshIdBase + s.world.fresh < Nat.pow 2 128 → leader.Fits →
      (∀ l ∈ s.epochs.epochs.getLast?, Word.signed 64 l.epochPosition = l.epochPosition) →
      AvoidsAt EpochError.IsTooLarge (Store.writeNewEpoch leader) s) := by
  refine ⟨Cli.chunkSize_lt_of_parse hp, ?_, ?_, ?_, ?_⟩
  · intro h0 sp dir w disk cps hsp hcps
    exact openStore_stops_of_chunkSize_zero (hsp.trans h0) dir w hcps
  · intro hpos cfg m w hcfg hm
    exact DbConfig.returns_chunkNumberOf cfg (hcfg ▸ hpos) hm w
  · intro hlt s leader hcs
    exact Store.writeNewEpoch_tooLarge (hcs ▸ hlt) leader
  · intro hge s plan leader hcs hl hfresh hleader hprev
    exact Store.avoidsAt_writeNewEpoch hl (hcs ▸ hge) hfresh hleader hprev

/-- A chunk size of `64k` on the command line reads as 64 KiB, and a node given it can hold an
epoch record and find the chunk of every position. -/
theorem kibibyte_chunk_size_usable :
    ∃ p, Cli.parse ["--chunk-size", "64k"] = .ok p ∧ p.chunkSize = 65536 ∧
    p.chunkSize < Nat.pow 2 32 ∧
    (p.chunkSize = 0 → ∀ (sp : ServerParams) (dir : String) (w : World) (disk : Disk)
      (cps : Checkpoints), sp.chunkSize = p.chunkSize →
      Checkpoints.openFiles w.disk dir = .ok (disk, cps) →
      (Server.openStore dir sp w).1 = .error .stopped) ∧
    (0 < p.chunkSize → ∀ (cfg : DbConfig) (m : Nat) (w : World), cfg.chunkSize = p.chunkSize →
      m / cfg.chunkSize < Nat.pow 2 32 →
      Returns (cfg.chunkNumberOf m : WorldM DbError Nat) w (m / cfg.chunkSize)) ∧
    (p.chunkSize < 99 → ∀ (s : Store) (leader : Uuid), s.db.config.chunkSize = p.chunkSize →
      FailsWith (.error (.db (.recordTooLarge 99))) (Store.writeNewEpoch leader) s) ∧
    (99 ≤ p.chunkSize → ∀ (s : Store) (plan : List (List Record)) (leader : Uuid),
      s.db.config.chunkSize = p.chunkSize → Layout s plan →
      freshIdBase + s.world.fresh < Nat.pow 2 128 → leader.Fits →
      (∀ l ∈ s.epochs.epochs.getLast?, Word.signed 64 l.epochPosition = l.epochPosition) →
      AvoidsAt EpochError.IsTooLarge (Store.writeNewEpoch leader) s) := by
  -- the option's name is split off its value at `=`, a step the kernel does not evaluate
  have hsplit : ("--chunk-size".drop 2).copy.splitOn "=" = ["chunk-size"] := by
    simp +decide [String.splitOn, String.splitOnAux]
  have hok : (Cli.parse ["--chunk-size", "64k"]).toOption.map (·.chunkSize) = some 65536 := by
    simp +decide [hsplit, Cli.parse, Cli.readArgs, Cli.readArg]
    decide +kernel
  cases h : Cli.parse ["--chunk-size", "64k"] with
  | error e =>
    rw [h] at hok
    cases hok
  | ok p =>
    rw [h] at hok
    exact ⟨p, rfl, Option.some.inj hok, parsed_chunk_size_usable_only_from_epoch_size h⟩

end EventStore
