import EventStore.Proofs.Store.Durable
import EventStore.Proofs.Store.Scavenge

/-!
# The writer on a durable log

The lemmas of `Proofs/Store/Writes` say what a run of the writer does, given that it ran. On a
durable log (`Durable`) each step of the writer also runs, and where it puts a record depends on
the chunk size and the layout only, as `placeRecord` computes it: a record whose frame fits after
the last chunk's data is appended there (`Durable.runs_writeOnce_here`); one that does not
completes the chunk (`Durable.runs_completeChunk`) and goes at the start of a new one, built again
for that position (`Durable.runs_writeOnce_next`, `Durable.runs_writeRecord`). Either way the log
stays durable, and flushing keeps it durable too. So flushed writes of records placed by
`placeRecords` run, return where the records went and leave the log durable as placed
(`Durable.runs_writesFlushed`), whatever the chunk handles, counters or checkpoint files.

The steps are built forward: each lemma gives the run and a store it ends in, and the states
between the steps are kept as variables known by what each step keeps (`Runs.bind_of`), the way the
lemmas of `Proofs/Store/Writes` follow a run part by part.
-/

namespace EventStore

open Store

/-! ## Steps that always run -/

namespace Store

variable {ε : Type}

theorem runs_theWriter (s : Store) : Runs (theWriter : StoreM ε ChunkWriter) s s.writer s := rfl

theorem runs_writerPosition (s : Store) :
    Runs ((·.position) <$> (theWriter : StoreM ε ChunkWriter)) s s.writer.position s := rfl

theorem runs_modifyWriter (f : ChunkWriter → ChunkWriter) (s : Store) :
    Runs (modifyWriter f : StoreM ε Unit) s () { s with writer := f s.writer } := rfl

theorem runs_setWriterPosition (p : Int) (s : Store) :
    Runs (setWriterPosition p : StoreM ε Unit) s ()
      { s with writer := { s.writer with position := p },
               db.config.checkpoints.writer := s.db.config.checkpoints.writer.write p } := rfl

theorem runs_flushWriter (s : Store) :
    Runs (flushWriter : StoreM ε Unit) s ()
      { s with
        world.disk := (s.db.config.checkpoints.writer.flush s.world.disk).1,
        db.config.checkpoints.writer := (s.db.config.checkpoints.writer.flush s.world.disk).2 } :=
  runs_flushCheckpointOf _ _ s

theorem runs_chunkByHandle {s : Store} (h : s.db.poisoned = false) (hd : Nat) :
    Runs (chunkByHandle? hd : StoreM ε (Option Chunk)) s (s.db.chunks.find? (·.handle = hd)) s :=
  Runs.bind (runs_chunkList h) (Runs.pure _ _)

theorem runs_getChunk {s : Store} (h : s.db.poisoned = false) (n : Nat) :
    Runs (getChunk n : StoreM ε (Option Chunk)) s (ChunkList.get? s.db.chunks n) s :=
  Runs.bind (runs_chunkList h) (Runs.pure _ _)

theorem runs_withChunk {γ : Type} {s : Store} {c c' : Chunk}
    {f : Chunk → WorldM DbError (γ × Chunk)} {a : γ} {w : World} (h : Runs (f c) s.world (a, c') w) :
    Runs (withChunk c f) s a { s with world := w, db.chunks := ChunkList.update s.db.chunks c' } :=
  Runs.bind (Runs.onWorld h) (Runs.bind (Runs.modify _ _) (Runs.pure _ _))

/-- An action holding the chunk list runs as the action does. -/
theorem runs_holdingChunks {α : Type} {m : StoreM ε α} {s s' : Store} {v : α}
    (h : Runs m s v s') : Runs (holdingChunks m) s v s' := by
  unfold holdingChunks Runs
  unfold Runs at h
  change StateT.run (ExceptT.run (ExceptT.tryCatch m _)) s = _
  simp only [ExceptT.tryCatch, ExceptT.run_mk, StateT.run_bind]
  rw [show StateT.run m s = _ from h]
  rfl

end Store

/-- A bind runs to a state with `Q` when its first action runs to a state with `P`, from every
such state of which the rest runs to a state with `Q`. Forward runs are built with it step by
step, each intermediate state known only by what the next steps need of it. -/
theorem Runs.bind_of {σ ε α β : Type} {m : ExceptT (Fault ε) (StateM σ) α}
    {f : α → ExceptT (Fault ε) (StateM σ) β} {s s₁ : σ} {v : α} {w : β} {P Q : σ → Prop}
    (hm : Runs m s v s₁) (hp : P s₁) (hf : ∀ t, P t → ∃ s₂, Runs (f v) t w s₂ ∧ Q s₂) :
    ∃ s₂, Runs (m >>= f) s w s₂ ∧ Q s₂ := by
  obtain ⟨s₂, h, hq⟩ := hf s₁ hp
  exact ⟨s₂, Runs.bind hm h, hq⟩

/-- A bind runs to a state with `Q` when its first action runs and the rest runs on from there to a
state with `Q`. -/
theorem Runs.bind_exists {σ ε α β : Type} {m : ExceptT (Fault ε) (StateM σ) α}
    {f : α → ExceptT (Fault ε) (StateM σ) β} {s s₁ : σ} {v : α} {w : β} {Q : σ → Prop}
    (hm : Runs m s v s₁) (hf : ∃ s₂, Runs (f v) s₁ w s₂ ∧ Q s₂) :
    ∃ s₂, Runs (m >>= f) s w s₂ ∧ Q s₂ := by
  obtain ⟨s₂, h, hq⟩ := hf
  exact ⟨s₂, Runs.bind hm h, hq⟩

/-- `cfg'` is `cfg` with the writer checkpoint moved or flushed: the checkpoint keeps its store,
and everything else is as it was. -/
def DbConfig.MovesWriter (cfg cfg' : DbConfig) : Prop :=
  ∃ w : Checkpoint, w.store = cfg.checkpoints.writer.store ∧
    cfg' = { cfg with checkpoints := { cfg.checkpoints with writer := w } }

namespace DbConfig.MovesWriter

variable {cfg cfg' cfg'' : DbConfig}

theorem refl (cfg : DbConfig) : cfg.MovesWriter cfg := ⟨cfg.checkpoints.writer, rfl, rfl⟩

theorem trans (h₁ : cfg.MovesWriter cfg') (h₂ : cfg'.MovesWriter cfg'') : cfg.MovesWriter cfg'' := by
  obtain ⟨w₁, hs₁, rfl⟩ := h₁
  obtain ⟨w₂, hs₂, rfl⟩ := h₂
  exact ⟨w₂, hs₂.trans hs₁, rfl⟩

/-- Writing the writer checkpoint moves it. -/
theorem write (cfg : DbConfig) (p : Int) :
    cfg.MovesWriter { cfg with checkpoints.writer := cfg.checkpoints.writer.write p } :=
  ⟨_, Checkpoint.store_write _ _, rfl⟩

/-- Flushing the writer checkpoint moves it. -/
theorem flush (cfg : DbConfig) (d : Disk) :
    cfg.MovesWriter { cfg with checkpoints.writer := (cfg.checkpoints.writer.flush d).2 } :=
  ⟨_, Checkpoint.store_flush _ _, rfl⟩

theorem chunkSize_eq (h : cfg.MovesWriter cfg') : cfg'.chunkSize = cfg.chunkSize := by
  obtain ⟨w, -, rfl⟩ := h
  rfl

theorem stores_eq (h : cfg.MovesWriter cfg') : cfg'.checkpoints.stores = cfg.checkpoints.stores := by
  obtain ⟨w, hw, rfl⟩ := h
  simp [Checkpoints.stores, hw]

/-- Moving the writer checkpoint leaves the chaser and truncate checkpoints as they were. -/
theorem others_eq (h : cfg.MovesWriter cfg') :
    cfg'.checkpoints.chaser = cfg.checkpoints.chaser ∧
      cfg'.checkpoints.truncate = cfg.checkpoints.truncate := by
  obtain ⟨w, -, rfl⟩ := h
  exact ⟨rfl, rfl⟩

end DbConfig.MovesWriter

namespace Store

variable {ε : Type} {s s' : Store} {u : Unit}

/-- Flushing the writer checkpoint keeps a log's filing: the checkpoint's file belongs to no
chunk. It moves only that checkpoint and draws no fresh number. -/
theorem runs_flushWriter_filed {plan : List (List Record)}
    (hf : Filed s.db.config.dir s.db.config.chunkSize s.db.config.checkpoints s.db.chunks
      s.world.disk plan)
    (h : Runs (flushWriter : StoreM ε Unit) s u s') :
    Filed s'.db.config.dir s'.db.config.chunkSize s'.db.config.checkpoints s'.db.chunks
      s'.world.disk plan ∧ s.db.config.MovesWriter s'.db.config ∧
      s'.world.fresh = s.world.fresh ∧ s'.db.isClosed = s.db.isClosed := by
  obtain rfl := runs_flushWriter_inv h
  refine ⟨(hf.flush ?_).of_stores ?_, DbConfig.MovesWriter.flush _ _, rfl, rfl⟩
  · simp [Checkpoints.stores]
  · simp [Checkpoints.stores]

/-- Moving the writer moves its checkpoint and keeps the log open or closed. -/
theorem runs_setWriterPosition_keeps {p : Int} (h : Runs (setWriterPosition p : StoreM ε Unit) s u s') :
    s.db.config.MovesWriter s'.db.config ∧ s'.db.isClosed = s.db.isClosed := by
  rw [runs_setWriterPosition_inv h]
  exact ⟨DbConfig.MovesWriter.write _ _, rfl⟩

end Store

/-! ## Starting a chunk -/

namespace Disk

@[simp] theorem list_write (d : Disk) (g off : Nat) (bs : ByteArray) (dir : String) :
    (d.write g off bs).list dir = d.list dir := list_of_names rfl dir

@[simp] theorem list_setSize (d : Disk) (g len : Nat) (dir : String) :
    (d.setSize g len).list dir = d.list dir := list_of_names rfl dir

@[simp] theorem find?_write (d : Disk) (g off : Nat) (bs : ByteArray) (dir name : String) :
    (d.write g off bs).find? dir name = d.find? dir name := find?_of_names rfl dir name

@[simp] theorem find?_setSize (d : Disk) (g len : Nat) (dir name : String) :
    (d.setSize g len).find? dir name = d.find? dir name := find?_of_names rfl dir name

end Disk

theorem World.runs_freshNat {ε : Type} (w : World) :
    Runs (World.freshNat : WorldM ε Nat) w w.fresh { w with fresh := w.fresh + 1 } := rfl

theorem ChunkHeader.runs_fresh {ε : Type} (cs start finish : Nat) (scav : Bool) (w : World) :
    Runs (ChunkHeader.fresh cs start finish scav : WorldM ε ChunkHeader) w
      ⟨ChunkHeader.currentVersion, cs, start, finish, scav, ⟨freshIdBase + w.fresh⟩, wallClock⟩
      { w with fresh := w.fresh + 1 } := rfl

/-- Creating the file of a new chunk under a free name gives an active chunk with no data. -/
theorem DbConfig.runs_createChunkFile (cfg : DbConfig) {header : ChunkHeader} {cap : Nat}
    (hcap : header.capacity? = some cap) {w : World}
    (hfree : w.disk.find? cfg.dir (ChunkFileName.ofParts header.chunkStartNumber 0) = none) :
    ∃ c w', Runs (cfg.createChunkFile header) w c w' ∧
      Chunk.Writing cfg.dir (ChunkFileName.ofParts header.chunkStartNumber 0) header cap c
        w'.disk ByteArray.empty := by
  obtain ⟨c, w', hrun, hw⟩ := Chunk.Writing.createNew (w := { w with fresh := w.fresh + 1 })
    hfree hcap (Nat.le_refl _) w.fresh
  refine ⟨c, w', ?_, hw⟩
  unfold createChunkFile Chunk.activeFileSize
  exact Runs.bind (Runs.bind (Chunk.runs_capacityOf hcap w) (Runs.pure _ _))
    (Runs.bind (World.runs_freshNat w) hrun)

namespace Store

/-- A new chunk numbered past the last of numbered chunks, below `2 ^ 32`, is created and added
after them. -/
theorem runs_addNewChunk {s : Store} (hsound : s.db.poisoned = false)
    (hnum : ChunkList.Numbered s.db.chunks) {header : ChunkHeader}
    (hstart : header.chunkStartNumber = s.db.chunks.length)
    (hend : header.chunkEndNumber = s.db.chunks.length) (hn : s.db.chunks.length < Nat.pow 2 32)
    {c : Chunk} {w : World} (hc : Runs (s.db.config.createChunkFile header) s.world c w)
    (hheader : c.header = header) :
    Runs (addNewChunk header) s c { s with world := w, db.chunks := s.db.chunks ++ [c] } := by
  unfold addNewChunk
  refine runs_holdingChunks (Runs.bind (runs_chunkList hsound) (Runs.bind (runs_config _) ?_))
  dsimp only
  rw [ChunkList.get?_numbered hnum, hstart, List.getElem?_eq_none (Nat.le_refl _)]
  dsimp only
  rw [if_neg (by rw [ChunkList.count_numbered hnum, Nat.mod_eq_of_lt hn]; exact fun h => h rfl)]
  refine Runs.bind (Runs.onWorld hc) (Runs.bind (Runs.modify _ _) ?_)
  rw [ChunkList.add_numbered hnum (by rw [hheader, hstart]) (by rw [hheader, hend])]
  exact Runs.pure _ _

end Store

/-- The file of a new chunk created after a completed last chunk, for the next number, with a
header that fits its layout and the capacity of a chunk: the filing holds of the plan with an
empty chunk added. -/
theorem Filed.create {dir : String} {cs : Nat} {cps : Checkpoints} {chunks : List Chunk}
    {w w' : World} {plan : List (List Record)} (h : Filed dir cs cps chunks w.disk plan)
    (hlen : plan.length = chunks.length) (hdone : ∀ c ∈ chunks.getLast?, c.isCompleted = true)
    (hold : ∀ c ∈ chunks, c.file < w.disk.files.size) {cfg : DbConfig} (hdir : cfg.dir = dir)
    {header : ChunkHeader} (hstart : header.chunkStartNumber = chunks.length) (hh : header.Fits)
    (hcap : header.capacity? = some cs) {c : Chunk}
    (hc : Runs (cfg.createChunkFile header) w c w') :
    Filed dir cs cps (chunks ++ [c]) w'.disk (plan ++ [[]]) := by
  subst hdir
  obtain ⟨cap, hcap', hnew⟩ := DbConfig.runs_createChunkFile_inv hc
  obtain rfl : cap = cs := Option.some.inj (hcap'.symm.trans hcap)
  -- the file is created as an active chunk's, and the run shows how the disk changed
  have hfree := (Chunk.runs_createNew_inv hnew).choose_spec.1
  obtain ⟨c₀, w₀, hnew₀, hw₀⟩ := Chunk.Writing.createNew (w := { w with fresh := w.fresh + 1 })
    hfree hcap (Nat.le_refl _) w.fresh
  obtain ⟨rfl, rfl⟩ := Runs.unique hnew₀ hnew
  obtain ⟨wk, -, -, rfl, rfl⟩ := Chunk.runs_createNew_inv hnew
  rw [hstart] at hfree hw₀ ⊢
  dsimp only at hfree hw₀ ⊢
  refine h.add hlen hdone hold rfl (Nat.le_refl _) (.active hh hw₀ ?_) hfree ?_ ?_ ?_ ?_
  · -- the header is written over the start of a file already of the full size
    unfold Disk.size
    rw [Disk.file_write_self (by simp), FileData.size_write, Disk.file_setSize_self (by simp),
      FileData.size_setSize]
    split <;> simp [ChunkHeader.length_encode]
  · rw [Disk.list_write, Disk.list_setSize, Disk.list_mk_append _ w.disk.files]
  · intro n hn
    rw [Disk.find?_write, Disk.find?_setSize, Disk.find?_mk_append_ne (Ne.symm hn)]
  · intro f hf
    rw [Disk.file_write_ne (by omega), Disk.file_setSize_ne (by omega), Disk.file_push]
  · simp

/-- A store whose log is filed as `plan`, every chunk completed, with the writer on no chunk at the
end of the chunks' span, where the next chunk is to start: the log as completing a chunk leaves
it, and as an empty log is. -/
structure Turned (s : Store) (plan : List (List Record)) : Prop where
  layout : Layout s plan
  filed : Filed s.db.config.dir s.db.config.chunkSize s.db.config.checkpoints s.db.chunks
    s.world.disk plan
  done : ∀ c ∈ s.db.chunks.getLast?, c.isCompleted = true
  position : s.writer.position = ((plan.length * s.db.config.chunkSize : Nat) : Int)
  current : s.writer.current = none
  isOpen : s.db.isClosed = false

namespace Turned

variable {s : Store} {plan : List (List Record)}

/-- From a turned log the writer starts the next chunk, in a new file, drawing two fresh numbers:
the log is durable with an empty chunk added. -/
theorem runs_ensureChunk (ht : Turned s plan) (hn : plan.length < Nat.pow 2 32)
    (hfresh : s.world.fresh < Nat.pow 2 64) :
    ∃ c s', Runs ensureChunk s c s' ∧ Durable s' (plan ++ [[]]) ∧
      s'.db.config = s.db.config ∧ s'.world.fresh = s.world.fresh + 2 := by
  have hl := ht.layout
  have hlaid := hl.laid
  have hlen := hlaid.length
  have hcs := hlaid.chunkSize_pos
  -- the header of the next chunk, and its file
  have hheader := ChunkHeader.runs_fresh (ε := DbError) s.db.config.chunkSize plan.length
    plan.length false s.world
  have hspan := ChunkHeader.span_single (h := ⟨ChunkHeader.currentVersion, s.db.config.chunkSize,
    plan.length, plan.length, false, ⟨freshIdBase + s.world.fresh⟩, wallClock⟩) rfl rfl rfl hn
    hlaid.chunkSize_lt
  have hfits := ChunkHeader.runs_fresh_fits hheader (Nat.lt_trans hlaid.chunkSize_lt (by decide)) hn hn
    hfresh
  obtain ⟨c, w, hcf, -⟩ := s.db.config.runs_createChunkFile hspan.2.2
    (w := { s.world with fresh := s.world.fresh + 1 }) (hlaid.names _ (Nat.le_refl _))
  obtain ⟨cap, -, hnew⟩ := DbConfig.runs_createChunkFile_inv hcf
  obtain ⟨wk, -, -, hc, hw⟩ := Chunk.runs_createNew_inv hnew
  have hnone : ChunkList.get? s.db.chunks plan.length = none := by
    rw [ChunkList.get?_numbered hlaid.numbered, List.getElem?_eq_none (by omega)]
  -- the writer stands where the new chunk starts
  have hstart : c.startPosition + c.physicalDataSize = s.writer.position := by
    rw [ht.position, hc]
    show ChunkHeader.startPosition _ + 0 = _
    rw [hspan.1]
    rfl
  have hrun : Runs ensureChunk s c
      { s with
        world := w
        db.chunks := s.db.chunks ++ [c]
        writer := { s.writer with current := some c.handle } } := by
    unfold ensureChunk
    refine Runs.bind (runs_theWriter s) ?_
    rw [ht.current]
    dsimp only
    unfold activeChunkAt
    refine Runs.bind (runs_config s) ?_
    have hnum : Runs (onWorld (s.db.config.chunkNumberOf s.writer.position) : StoreM DbError Nat)
        s plan.length s := by
      rw [ht.position]
      have h := Runs.onWorld (s := s) (DbConfig.returns_chunkNumberOf (ε := DbError) _ hcs
        (by rw [Nat.mul_div_cancel _ hcs]; exact hn) s.world)
      rwa [Nat.mul_div_cancel _ hcs] at h
    refine Runs.bind hnum ?_
    refine Runs.bind (runs_getChunk hl.sound _) ?_
    rw [hnone]
    dsimp only [Option.filter]
    have hadd := runs_addNewChunk (s := { s with world := { s.world with fresh := s.world.fresh + 1 } })
      hl.sound hlaid.numbered (hlen.symm.trans rfl) hlen.symm (by rw [hlen]; exact hn) hcf
      (by rw [hc])
    refine Runs.bind (Runs.bind (Runs.onWorld hheader) hadd) ?_
    rw [if_neg (by rw [hstart]; exact fun h => h rfl)]
    refine Runs.bind (runs_modifyWriter _ _) ?_
    exact Runs.pure _ _
  -- the writer stood at the end of the span, so the new chunk is added to the plan
  obtain ⟨plan', hr, -, -, -, hshape⟩ := runs_ensureChunk_of_none hl ht.current hrun
  obtain rfl : plan' = plan ++ [[]] := hshape.resolve_left fun ⟨_, hlt⟩ => by
    rw [ht.position] at hlt
    exact Int.lt_irrefl _ hlt
  have hold : ∀ c ∈ s.db.chunks, c.file < s.world.disk.files.size := fun c hc => by
    obtain ⟨i, hi, rfl⟩ := List.mem_iff_getElem.1 hc
    exact (hlaid.holds i hi (hlen ▸ hi)).fileExists
  have hfresh' : w.fresh = s.world.fresh + 2 := by
    have h := congrArg World.fresh hw
    simp only at h
    omega
  refine ⟨c, _, hrun, ⟨⟨c, hr⟩, ?_, ht.isOpen⟩, rfl, hfresh'⟩
  exact Filed.create (w := { s.world with fresh := s.world.fresh + 1 }) ht.filed hlen.symm ht.done
    hold rfl hlen.symm hfits hspan.2.2 hcf

/-- Flushing the writer checkpoint keeps a log turned. -/
theorem runs_flushWriter (ht : Turned s plan) {ε : Type} {s' : Store} {u : Unit}
    (h : Runs (flushWriter : StoreM ε Unit) s u s') :
    Turned s' plan ∧ s.db.config.MovesWriter s'.db.config ∧ s'.world.fresh = s.world.fresh := by
  obtain ⟨hl, -, hcs⟩ := runs_flushWriter_layout ht.layout h
  obtain ⟨hf, hm, hfresh, hclosed⟩ := runs_flushWriter_filed ht.filed h
  obtain ⟨hch, -, -, -, hwr, -, -⟩ := runs_flushWriter_parts h
  refine ⟨{ layout := hl, filed := hf, done := ?_, position := ?_, current := ?_, isOpen := ?_ },
    hm, hfresh⟩
  · rw [hch]
    exact ht.done
  · rw [hwr, hcs]
    exact ht.position
  · rw [hwr]
    exact ht.current
  · rw [hclosed]
    exact ht.isOpen

end Turned

/-! ## Flushed writes -/

/-- A record write followed by a flush of the writer checkpoint, as a client of the writer makes
it. -/
def Store.writeFlushed (make : Int → Record) : StoreM DbError (Int × Int) := do
  let res ← writeRecord make
  flushWriter
  pure res

/-! ## Where a write puts a record -/

/-- Where the writer puts the record `make` builds, on a log of chunk size `cs` laid out as `plan`:
after the last chunk's data when the frame of the record built for the end of the log fits there,
else at the start of a new chunk, built again for that position. Gives the record's start and end
and the plan after; none when a frame is longer than a chunk, or a new chunk would have no 32-bit
number. -/
def placeRecord (cs : Nat) (plan : List (List Record)) (make : Int → Record) :
    Option ((Int × Int) × List (List Record)) :=
  let st := planEnd cs plan
  let r := make st
  if cs < r.framed.length then none
  else if (Record.frames (plan.getLastD [])).length + r.framed.length ≤ cs then
    some ((st, st + r.framed.length), plan.dropLast ++ [plan.getLastD [] ++ [r]])
  else
    let st' : Int := ((plan.length * cs : Nat) : Int)
    let r' := make st'
    if cs < r'.framed.length ∨ Nat.pow 2 32 ≤ plan.length then none
    else some ((st', st' + r'.framed.length), plan ++ [[r']])

/-- Where the writer puts the records the builders `makes` build, one after another. -/
def placeRecords (cs : Nat) (plan : List (List Record)) :
    List (Int → Record) → Option (List (Int × Int) × List (List Record))
  | [] => some ([], plan)
  | make :: makes =>
    match placeRecord cs plan make with
    | none => none
    | some (res, plan') => (placeRecords cs plan' makes).map fun (rest, plan'') => (res :: rest, plan'')

/-- Placing records one after another: the first goes where `placeRecord` puts it, and the rest
are placed on the plan it leaves. -/
theorem placeRecords_cons {cs : Nat} {plan plan' : List (List Record)} {make : Int → Record}
    {makes : List (Int → Record)} {res : List (Int × Int)}
    (h : placeRecords cs plan (make :: makes) = some (res, plan')) :
    ∃ r plan₁ rest, placeRecord cs plan make = some (r, plan₁) ∧
      placeRecords cs plan₁ makes = some (rest, plan') ∧ res = r :: rest := by
  unfold placeRecords at h
  split at h
  · cases h
  · rename_i r plan₁ hr
    obtain ⟨⟨rest, plan₂⟩, hrest, heq⟩ := Option.map_eq_some_iff.1 h
    obtain ⟨rfl, rfl⟩ := Prod.mk.inj heq
    exact ⟨r, plan₁, rest, hr, hrest, rfl⟩

/-- The records of two sequences are placed as the first, then the second on the plan the first
leaves. -/
theorem placeRecords_append (cs : Nat) (plan : List (List Record)) (xs ys : List (Int → Record)) :
    placeRecords cs plan (xs ++ ys) = (placeRecords cs plan xs).bind fun (r₁, plan₁) =>
      (placeRecords cs plan₁ ys).map fun (r₂, plan₂) => (r₁ ++ r₂, plan₂) := by
  induction xs generalizing plan with
  | nil => simp [placeRecords]
  | cons x xs ih =>
    simp only [List.cons_append, placeRecords]
    split
    · rfl
    · rw [ih]
      cases placeRecords cs _ xs <;> simp [Function.comp_def]

/-- Placing a record on a plan whose last chunk fits a chunk keeps the last chunk fitting, drops
no chunk and moves the end of the log forward. -/
theorem placeRecord_grows {cs : Nat} {init : List (List Record)} {rs : List Record}
    {plan' : List (List Record)} {make : Int → Record} {res : Int × Int}
    (hfit : (Record.frames rs).length ≤ cs)
    (h : placeRecord cs (init ++ [rs]) make = some (res, plan')) :
    ∃ init' rs', plan' = init' ++ [rs'] ∧ (Record.frames rs').length ≤ cs ∧
      (init ++ [rs]).length ≤ plan'.length ∧ planEnd cs (init ++ [rs]) ≤ planEnd cs plan' := by
  unfold placeRecord at h
  simp only [List.getLastD_concat, List.dropLast_concat] at h
  split_ifs at h with htoo hroom hnext
  · -- the record goes after the last chunk's data
    obtain ⟨-, rfl⟩ := Prod.mk.inj (Option.some.inj h)
    generalize make (planEnd cs (init ++ [rs])) = r at hroom
    have hlen : (Record.frames (rs ++ [r])).length = (Record.frames rs).length + r.framed.length := by
      rw [Record.frames_append, Record.frames_singleton, List.length_append]
    refine ⟨init, _, rfl, by omega, by simp, ?_⟩
    rw [planEnd_concat, planEnd_concat, hlen]
    omega
  · -- a new chunk, holding the record built for its start
    obtain ⟨-, rfl⟩ := Prod.mk.inj (Option.some.inj h)
    have hframe := Nat.le_of_not_lt (not_or.1 hnext).1
    generalize make _ = r at hframe
    refine ⟨init ++ [rs], _, rfl, by simpa using hframe, by simp, ?_⟩
    rw [planEnd_concat, planEnd_concat, List.length_append, List.length_singleton,
      Record.frames_singleton]
    have := Nat.add_one_mul init.length cs
    omega

/-- Placing records one after another keeps the last chunk fitting, drops no chunk and moves the
end of the log forward. -/
theorem placeRecords_grows {cs : Nat} {makes : List (Int → Record)} :
    ∀ {init : List (List Record)} {rs : List Record} {plan' : List (List Record)}
      {res : List (Int × Int)}, (Record.frames rs).length ≤ cs →
      placeRecords cs (init ++ [rs]) makes = some (res, plan') →
      ∃ init' rs', plan' = init' ++ [rs'] ∧ (Record.frames rs').length ≤ cs ∧
        (init ++ [rs]).length ≤ plan'.length ∧ planEnd cs (init ++ [rs]) ≤ planEnd cs plan' := by
  induction makes with
  | nil =>
    intro init rs plan' res hfit h
    obtain ⟨-, rfl⟩ := Prod.mk.inj (Option.some.inj h)
    exact ⟨init, rs, rfl, hfit, Nat.le_refl _, Int.le_refl _⟩
  | cons make makes ih =>
    intro init rs plan' res hfit h
    obtain ⟨r, plan₁, rest, h₁, hrest, -⟩ := placeRecords_cons h
    obtain ⟨init₁, rs₁, rfl, hfit₁, hlen₁, hend₁⟩ := placeRecord_grows hfit h₁
    obtain ⟨init', rs', rfl, hfit', hlen', hend'⟩ := ih hfit₁ hrest
    exact ⟨init', rs', rfl, hfit', Nat.le_trans hlen₁ hlen', Int.le_trans hend₁ hend'⟩

/-! ## Appending to an active chunk -/

theorem Bytes.toByteArray_append (a b : Bytes) :
    Bytes.toByteArray (a ++ b) = Bytes.toByteArray a ++ Bytes.toByteArray b := by
  apply ByteArray.ext
  simp [Bytes.toByteArray, ByteArray.data_append]

namespace Chunk

variable {dir name : String} {h : ChunkHeader} {cap : Nat} {c : Chunk} {w : World} {d : Disk}
  {data : ByteArray}

/-- Bytes that fit the capacity are written where an active chunk's data ends. -/
theorem Writing.runs_append_fits (hw : Writing dir name h cap c w.disk data) {wk : ChunkWork}
    (hwk : c.work = some wk) {bs : ByteArray} (hfit : data.size + bs.size ≤ cap) :
    Runs (c.append bs) w
      (true, { c with work := some ⟨wk.position + bs.size, wk.hasher.update bs⟩,
                      physicalDataSize := c.physicalDataSize + bs.size })
      { w with disk := w.disk.write c.file wk.position bs } := by
  have hcap : c.header.capacity? = some cap := hw.header_eq ▸ hw.capacity
  unfold Chunk.append
  rw [hwk]
  refine Runs.bind (runs_capacityOf hcap w) ?_
  rw [if_neg (by rw [hw.dataSize]; omega)]
  exact Runs.bind (runs_appendData _ _ _ _) (Runs.pure _ _)

/-- Bytes past the capacity leave an active chunk and the world as they were. -/
theorem Writing.runs_append_full (hw : Writing dir name h cap c w.disk data) {bs : ByteArray}
    (hfull : cap < data.size + bs.size) : Runs (c.append bs) w (false, c) w := by
  obtain ⟨wk, hwk, -, -⟩ := hw.work
  have hcap : c.header.capacity? = some cap := hw.header_eq ▸ hw.capacity
  unfold Chunk.append
  rw [hwk]
  refine Runs.bind (runs_capacityOf hcap w) ?_
  rw [if_pos (by rw [hw.dataSize]; omega)]
  exact Runs.pure _ _

/-- An active kept chunk given bytes that fit where its data ends stays kept, with the bytes
added to its data. -/
theorem Kept.extend (hk : Kept dir cap d data c) (hact : c.isCompleted = false) {wk : ChunkWork}
    (hwk : c.work = some wk) {bs : ByteArray} (hfit : data.size + bs.size ≤ cap) :
    Kept dir cap (d.write c.file wk.position bs) (data ++ bs)
      { c with work := some ⟨wk.position + bs.size, wk.hasher.update bs⟩,
               physicalDataSize := c.physicalDataSize + bs.size } := by
  obtain ⟨hh, hw, hsize⟩ := hk.writing_of_active hact
  obtain ⟨wk', hwk', hpos, -⟩ := hw.work
  rw [hwk, Option.some.injEq] at hwk'
  subst hwk'
  refine .active hh (hw.extend hwk hfit) ?_
  -- the bytes end before the footer's place, so the file keeps its size
  show (d.write c.file wk.position bs).size c.file = _
  unfold Disk.size at hsize ⊢
  rw [Disk.file_write_self hw.isFile, FileData.size_write, hsize]
  split <;> omega

end Chunk

/-! ## One write -/

namespace Ready

variable {s : Store} {plan : List (List Record)} {c : Chunk}

/-- A layout with the writer at the end of the last chunk's data, on that chunk, which is active:
the writer is ready on the chunk at place `k`, the last. -/
theorem of_laid_at (k : Nat)
    (hlaid : Laid s.db.config.chunkSize s.db.config.dir s.db.chunks s.world plan)
    (hsound : s.db.poisoned = false)
    (hpos : s.writer.position = planEnd s.db.config.chunkSize plan)
    (hwritten : s.db.config.checkpoints.writer.last = s.writer.position)
    (hk : k + 1 = s.db.chunks.length) (hact : ∀ c ∈ s.db.chunks[k]?, c.isCompleted = false)
    (hcur : ∀ c ∈ s.db.chunks[k]?, s.writer.current = some c.handle) : ∃ c, Ready s plan c := by
  obtain ⟨c, hc⟩ : ∃ c, s.db.chunks[k]? = some c :=
    ⟨s.db.chunks[k], List.getElem?_eq_getElem (by omega)⟩
  have hlast : s.db.chunks.getLast? = some c := by
    rw [List.getLast?_eq_getElem?, ← hk, Nat.add_sub_cancel]
    exact hc
  exact ⟨c, Ready.of_laid hlaid hsound hpos hwritten hlast (hact c hc) (hcur c hc)⟩

/-- Whether the writer is ready on a chunk depends on the store only through its configuration,
chunks, world and health and the writer's position and chunk. -/
theorem of_parts (hr : Ready s plan c) {t : Store} (hcfg : t.db.config = s.db.config)
    (hch : t.db.chunks = s.db.chunks) (hw : t.world = s.world) (hpo : t.db.poisoned = s.db.poisoned)
    (hpos : t.writer.position = s.writer.position) (hcur : t.writer.current = s.writer.current) :
    Ready t plan c := by
  refine ⟨hr.layout.of_parts (by rw [hcfg]) (by rw [hcfg]) hch hw hpo hpos hcur (by rw [hcfg]),
    ?_, hr.active, ?_⟩
  · rw [hch]
    exact hr.last
  · rw [hcur]
    exact hr.current

/-- The writer on the active last chunk finds it by its handle. -/
theorem runs_ensureChunk (hr : Ready s plan c) : Runs ensureChunk s c s := by
  have hget := hr.last
  rw [List.getLast?_eq_getElem?] at hget
  obtain ⟨hk, hck⟩ := List.getElem?_eq_some_iff.1 hget
  have hfind : s.db.chunks.find? (·.handle = c.handle) = some c := by
    rw [← hck]
    exact ChunkList.find?_handle hr.layout.laid.handles hk
  unfold ensureChunk
  refine Runs.bind (runs_theWriter s) ?_
  rw [hr.current]
  refine Runs.bind (runs_chunkByHandle hr.layout.sound c.handle) ?_
  rw [hfind]
  exact Runs.pure _ _

end Ready

namespace Durable

variable {s : Store} {init : List (List Record)} {rs : List Record}

/-- The last chunk of a durable log, holding the plan's last records: the chunk the writer is
on. -/
theorem last_eq (hd : Durable s (init ++ [rs])) : ∃ c, init.length + 1 = s.db.chunks.length ∧
    s.db.chunks[init.length]? = some c ∧ Ready s (init ++ [rs]) c := by
  obtain ⟨init', rs', c, hp, hlen, hck, hr⟩ := hd.last
  obtain ⟨rfl, -⟩ := List.append_inj' hp rfl
  exact ⟨c, hlen, hck, hr⟩

/-- A durable log depends on the store only through its configuration, chunks, world, health and
whether it is closed, and the writer's position and chunk. -/
theorem of_parts {plan : List (List Record)} (hd : Durable s plan) {t : Store}
    (hcfg : t.db.config = s.db.config) (hch : t.db.chunks = s.db.chunks) (hw : t.world = s.world)
    (hpo : t.db.poisoned = s.db.poisoned) (hcl : t.db.isClosed = s.db.isClosed)
    (hpos : t.writer.position = s.writer.position) (hcur : t.writer.current = s.writer.current) :
    Durable t plan := by
  obtain ⟨c, hr⟩ := hd.ready
  refine ⟨⟨c, hr.of_parts hcfg hch hw hpo hpos hcur⟩, ?_, ?_⟩
  · rw [hcfg, hch, hw]
    exact hd.filed
  · rw [hcl]
    exact hd.isOpen

/-- Flushing the writer checkpoint keeps a log durable. -/
theorem runs_flushWriter {plan : List (List Record)} (hd : Durable s plan) {ε : Type} {s' : Store}
    {u : Unit} (h : Runs (flushWriter : StoreM ε Unit) s u s') :
    Durable s' plan ∧ s.db.config.MovesWriter s'.db.config ∧ s'.world.fresh = s.world.fresh := by
  obtain ⟨c, hr⟩ := hd.ready
  obtain ⟨hl, -, -⟩ := runs_flushWriter_layout hr.layout h
  obtain ⟨hf, hm, hfresh, hclosed⟩ := runs_flushWriter_filed hd.filed h
  obtain ⟨hch, -, -, -, hwr, -, -⟩ := runs_flushWriter_parts h
  refine ⟨⟨⟨c, hl, ?_, hr.active, ?_⟩, hf, ?_⟩, hm, hfresh⟩
  · rw [hch]
    exact hr.last
  · rw [hwr]
    exact hr.current
  · rw [hclosed]
    exact hd.isOpen

/-- A record standing where a durable log ends, whose frame fits after the last chunk's data, is
appended there: the write returns the position after it, and the log stays durable with the
record added to its last chunk. -/
theorem runs_writeOnce_here (hd : Durable s (init ++ [rs])) {r : Record}
    (hpos : r.logPosition = planEnd s.db.config.chunkSize (init ++ [rs])) (hfit : r.Fits)
    (hmax : r.encode.length ≤ maxRecordSize)
    (hroom : (Record.frames rs).length + r.framed.length ≤ s.db.config.chunkSize) :
    ∃ s', Runs (writeOnce r) s (some (r.logPosition + r.framed.length)) s' ∧
      Durable s' (init ++ [rs ++ [r]]) ∧ s.db.config.MovesWriter s'.db.config ∧
      s'.world.fresh = s.world.fresh := by
  obtain ⟨c, hlen, hck, hr⟩ := hd.last_eq
  obtain ⟨hk, hck'⟩ := List.getElem?_eq_some_iff.1 hck
  have hlaid := hr.layout.laid
  have hrs : (init ++ [rs])[init.length]? = some rs := by simp
  -- the last chunk's file is active, with the chunk's records as its data
  have hkept := hd.filed.kept init.length hk
  rw [hck', List.getD_eq_getElem?_getD, hrs, Option.getD_some] at hkept
  obtain ⟨-, hw, -⟩ := hkept.writing_of_active hr.active
  obtain ⟨wk, hwk, -, -⟩ := hw.work
  have hsize : (Bytes.toByteArray (Record.frames rs)).size + (Bytes.toByteArray r.framed).size ≤
      s.db.config.chunkSize := by simpa using hroom
  have hframe : ¬ s.db.config.chunkSize < r.framed.length := by omega
  have hat : r.logPosition = s.writer.position := hpos.trans hd.position.symm
  have hr₁ : Ready { s with writer := { s.writer with lastFrameLen := r.framed.length } }
      (init ++ [rs]) c :=
    ⟨hr.layout.of_parts rfl rfl rfl rfl rfl rfl rfl rfl, hr.last, hr.active, hr.current⟩
  refine ⟨?s', ?run, ?durable, ?moves, ?fresh⟩
  case run =>
    rw [hat]
    unfold writeOnce
    refine Runs.bind (runs_modifyWriter _ s) ?_
    refine Runs.bind (runs_config _) ?_
    rw [if_neg hframe]
    refine Runs.bind hr₁.runs_ensureChunk ?_
    refine Runs.bind (runs_withChunk (hw.runs_append_fits hwk hsize)) ?_
    rw [if_pos rfl]
    refine Runs.bind (runs_theWriter _) ?_
    refine Runs.bind (runs_setWriterPosition _ _) ?_
    exact Runs.pure _ _
  case moves => exact DbConfig.MovesWriter.write _ _
  case fresh => rfl
  case durable =>
    have hholds := hlaid.holds init.length hk (by simp)
    rw [hck', List.getElem_append_right (Nat.le_refl _)] at hholds
    simp only [Nat.sub_self, List.getElem_singleton] at hholds
    have hstart : r.logPosition =
        ((init.length * s.db.config.chunkSize : Nat) : Int) + (Record.frames rs).length := by
      rw [hpos, planEnd_concat, Int.natCast_add]
    have hroom' : c.physicalDataSize + r.framed.length ≤ s.db.config.chunkSize := by
      rw [hholds.dataSize]
      exact hroom
    have hlaid' := hlaid.append_last hlen hck hrs hr.active hwk hstart hfit hmax hroom'
      (show (⟨wk.position + (Bytes.toByteArray r.framed).size,
        wk.hasher.update (Bytes.toByteArray r.framed)⟩ : ChunkWork).position = _ from rfl)
    have hupd : ChunkList.update s.db.chunks
        { c with
          work := some ⟨wk.position + (Bytes.toByteArray r.framed).size,
            wk.hasher.update (Bytes.toByteArray r.framed)⟩
          physicalDataSize := c.physicalDataSize + (Bytes.toByteArray r.framed).size } =
        s.db.chunks.set init.length
          { c with
            work := some ⟨wk.position + (Bytes.toByteArray r.framed).size,
              wk.hasher.update (Bytes.toByteArray r.framed)⟩
            physicalDataSize := c.physicalDataSize + (Bytes.toByteArray r.framed).size } :=
      ChunkList.update_eq_set hlaid.handles hk (by rw [hck'])
    have hplan : (init ++ [rs]).set init.length (rs ++ [r]) = init ++ [rs ++ [r]] := by simp
    rw [hplan] at hlaid'
    have hdata : Bytes.toByteArray (Record.frames (rs ++ [r])) =
        Bytes.toByteArray (Record.frames rs) ++ Bytes.toByteArray r.framed := by
      rw [Record.frames_append, Record.frames_singleton, Bytes.toByteArray_append]
    have hkept' := hkept.extend hr.active hwk hsize
    rw [← hdata] at hkept'
    have hfiled := hd.filed.set_last hlaid.files hlen (by simp) (by rw [hck']) (by rw [hck'])
      hkept' rfl (fun f hf => Disk.file_write_ne (by rwa [hck'] at hf) _ _) (by simp)
    rw [hplan] at hfiled
    refine ⟨Ready.of_laid_at init.length ?_ hr.layout.sound ?_ ?_ ?_ ?_ ?_, ?_, hd.isOpen⟩
    · exact hupd ▸ hlaid'
    · show s.writer.position + _ = _
      rw [← hat, hstart, planEnd_concat, Record.frames_append, Record.frames_singleton]
      simp only [List.length_append, Int.natCast_add]
      omega
    · exact Checkpoint.last_write _ _
    · show _ = (ChunkList.update s.db.chunks _).length
      rw [hupd, List.length_set, hlen]
    · show ∀ c ∈ (ChunkList.update s.db.chunks _)[init.length]?, _
      rw [hupd, List.getElem?_set_self hk]
      rintro _ ⟨⟩
      exact hr.active
    · show ∀ c ∈ (ChunkList.update s.db.chunks _)[init.length]?, _
      rw [hupd, List.getElem?_set_self hk]
      rintro _ ⟨⟩
      exact hr.current
    · exact hupd ▸ hfiled.of_stores (by simp [Checkpoints.stores])

/-- Completing the last chunk of a durable log seals its file, and the writer, flushed at the
chunk's end, starts the next chunk in a new file: the log is durable with an empty chunk added. -/
theorem runs_completeChunk (hd : Durable s (init ++ [rs]))
    (hn : (init ++ [rs]).length < Nat.pow 2 32) (hfresh : s.world.fresh < Nat.pow 2 64) :
    ∃ s', Runs completeChunk s () s' ∧ Durable s' (init ++ [rs] ++ [[]]) ∧
      s.db.config.MovesWriter s'.db.config ∧ s'.world.fresh = s.world.fresh + 2 := by
  obtain ⟨c, hlen, hck, hr⟩ := hd.last_eq
  obtain ⟨hk, hck'⟩ := List.getElem?_eq_some_iff.1 hck
  have hlaid := hr.layout.laid
  have hrs : (init ++ [rs])[init.length]? = some rs := by simp
  have hkept := hd.filed.kept init.length hk
  rw [hck', List.getD_eq_getElem?_getD, hrs, Option.getD_some] at hkept
  obtain ⟨hh, hw, -⟩ := hkept.writing_of_active hr.active
  -- the chunk's file is sealed with its data, an empty map and a footer
  have hdata : (Bytes.toByteArray (Record.frames rs)).size < Nat.pow 2 32 :=
    Nat.lt_of_le_of_lt hw.room (Nat.lt_trans hlaid.chunkSize_lt (by decide))
  obtain ⟨f, w', hcomp, -, hsealed⟩ :=
    hw.completeWithMap hh hdata (m := []) nofun (by decide)
  obtain ⟨wk, hwk, -, hw'⟩ := Chunk.runs_complete_inv hcomp
  have hupd : ChunkList.update s.db.chunks { c with work := none, footer := some f } =
      s.db.chunks.set init.length { c with work := none, footer := some f } :=
    ChunkList.update_eq_set hlaid.handles hk (by rw [hck'])
  have hend : c.endPosition = (((init ++ [rs]).length * s.db.config.chunkSize : Nat) : Int) := by
    rw [← hck', (hlaid.span hk).2.1]
    simp
  -- the states between the steps stay variables, each known by an equation or by what its step
  -- keeps: the kernel, asked whether two projections of stores agree, first compares the stores
  -- whole, and a store nested in a concrete step sends it unfolding the chunk's end position
  unfold completeChunk
  refine Runs.bind_of (P := (s = ·)) hr.runs_ensureChunk rfl fun _ ht₁ => ?_
  subst ht₁
  refine Runs.bind_of (P := (· = _)) (runs_withChunk hcomp) rfl fun t₂ ht₂ => ?_
  refine Runs.bind_of (P := (· = _)) (runs_modifyWriter _ t₂) rfl fun t₃ ht₃ => ?_
  have hcfg₃ : t₃.db.config = s.db.config := by rw [ht₃, ht₂]
  have hch₃ : t₃.db.chunks = s.db.chunks.set init.length { c with work := none, footer := some f } := by
    rw [ht₃, ht₂]
    exact hupd
  have hw₃ : t₃.world = w' := by rw [ht₃, ht₂]
  have hpo₃ : t₃.db.poisoned = s.db.poisoned := by rw [ht₃, ht₂]
  have hcl₃ : t₃.db.isClosed = s.db.isClosed := by rw [ht₃, ht₂]
  have hcur₃ : t₃.writer.current = none := by rw [ht₃]
  -- moved to the chunk's end, the writer leaves the log turned, and the flush keeps it so
  have h₄ := runs_setWriterPosition (ε := DbError) c.endPosition t₃
  obtain ⟨hch₄, hcs₄, hdir₄, hpo₄, hw₄, hpos₄, hcur₄, hcp₄⟩ := runs_setWriterPosition_parts h₄
  obtain ⟨hm₄, hcl₄⟩ := runs_setWriterPosition_keeps h₄
  refine Runs.bind_of (P := fun t => Turned t (init ++ [rs]) ∧
      s.db.config.MovesWriter t.db.config ∧ t.world.fresh = s.world.fresh)
    h₄ ⟨?turned, by rw [← hcfg₃]; exact hm₄, by rw [hw₄, hw₃, hw']⟩ fun t₄ ⟨ht₄, hm₄, hf₄⟩ => ?_
  case turned =>
    have hdone := hlaid.complete_last hk (hck' ▸ hwk) (hck' ▸ hr.active) f
    rw [hck'] at hdone
    have hlast : (s.db.chunks.set init.length { c with work := none, footer := some f }).getLast? =
        some { c with work := none, footer := some f } := by
      rw [List.getLast?_eq_getElem?]
      simp [← hlen]
    refine
      { layout :=
          { laid := ?_
            sound := ?_
            position := ?_
            written := ?_
            current := ?_ }
        filed := ?_
        done := ?_
        position := ?_
        current := ?_
        isOpen := ?_ }
    · rw [hcs₄, hdir₄, hch₄, hw₄, hcfg₃, hch₃, hw₃, hw']
      exact hdone
    · rw [hpo₄, hpo₃]
      exact hr.layout.sound
    · rw [hpos₄, hch₄, hcs₄, hch₃, hcfg₃]
      exact .inr ⟨_, hlast, rfl, hend⟩
    · rw [hcp₄, Checkpoint.last_write, hpos₄]
    · rw [hcur₄, hcur₃]
      exact nofun
    · -- the sealed file replaces the active one
      have hsealed' := hd.filed.set_last hlaid.files hlen (by simp)
        (show ({ c with work := none, footer := some f } : Chunk).name = _ by rw [hck'])
        (by rw [hck'])
        (.sealed rfl hsealed) (by rw [hw']; simp)
        (fun g hg => by
          rw [hck'] at hg
          rw [hw', Disk.file_setSize_ne hg, Disk.file_write_ne hg, Disk.file_write_ne hg])
        (by rw [hw']; simp)
      rw [List.set_append_right _ _ (Nat.le_refl _), Nat.sub_self, List.set_cons_zero] at hsealed'
      refine Filed.of_stores ?_ hm₄.stores_eq
      rw [hdir₄, hcs₄, hch₄, hw₄, hcfg₃, hch₃, hw₃]
      exact hsealed'
    · rw [hch₄, hch₃, hlast]
      rintro _ ⟨⟩
      rfl
    · rw [hpos₄, hcs₄, hcfg₃]
      exact hend
    · rw [hcur₄]
      exact hcur₃
    · rw [hcl₄, hcl₃]
      exact hd.isOpen
  refine Runs.bind_of (P := fun t => Turned t (init ++ [rs]) ∧
      s.db.config.MovesWriter t.db.config ∧ t.world.fresh = s.world.fresh)
    (Store.runs_flushWriter (ε := DbError) t₄) ?_ fun t₅ ⟨ht₅, hm₅, hf₅⟩ => ?_
  · obtain ⟨ht, hm, hf⟩ := ht₄.runs_flushWriter (Store.runs_flushWriter (ε := DbError) t₄)
    exact ⟨ht, hm₄.trans hm, hf.trans hf₄⟩
  obtain ⟨c', s', hrun, hd', hcfg, hfresh'⟩ := ht₅.runs_ensureChunk hn (hf₅.symm ▸ hfresh)
  refine ⟨s', Runs.bind hrun (Runs.pure _ _), hd', hcfg ▸ hm₅, ?_⟩
  rw [hfresh', hf₅]

/-- A record whose frame fits a chunk but not after the last chunk's data of a durable log is not
written: the chunk is completed and the writer turns to a new one, so the try returns none and the
log is durable with an empty chunk added. -/
theorem runs_writeOnce_next (hd : Durable s (init ++ [rs])) {r : Record}
    (hframe : r.framed.length ≤ s.db.config.chunkSize)
    (hfull : s.db.config.chunkSize < (Record.frames rs).length + r.framed.length)
    (hn : (init ++ [rs]).length < Nat.pow 2 32) (hfresh : s.world.fresh < Nat.pow 2 64) :
    ∃ s', Runs (writeOnce r) s none s' ∧ Durable s' (init ++ [rs] ++ [[]]) ∧
      s.db.config.MovesWriter s'.db.config ∧ s'.world.fresh = s.world.fresh + 2 := by
  obtain ⟨c, hlen, hck, hr⟩ := hd.last_eq
  obtain ⟨hk, hck'⟩ := List.getElem?_eq_some_iff.1 hck
  have hrs : (init ++ [rs])[init.length]? = some rs := by simp
  have hkept := hd.filed.kept init.length hk
  rw [hck', List.getD_eq_getElem?_getD, hrs, Option.getD_some] at hkept
  obtain ⟨-, hw, -⟩ := hkept.writing_of_active hr.active
  have hsize : s.db.config.chunkSize <
      (Bytes.toByteArray (Record.frames rs)).size + (Bytes.toByteArray r.framed).size := by
    simpa using hfull
  -- the frame length is noted in the writer, which changes nothing the log depends on
  unfold writeOnce
  refine Runs.bind_of (P := (· = _)) (runs_modifyWriter _ s) rfl fun t₁ ht₁ => ?_
  have hcfg₁ : t₁.db.config = s.db.config := by rw [ht₁]
  have hch₁ : t₁.db.chunks = s.db.chunks := by rw [ht₁]
  have hw₁ : t₁.world = s.world := by rw [ht₁]
  have hpo₁ : t₁.db.poisoned = s.db.poisoned := by rw [ht₁]
  have hcl₁ : t₁.db.isClosed = s.db.isClosed := by rw [ht₁]
  have hpos₁ : t₁.writer.position = s.writer.position := by rw [ht₁]
  have hcur₁ : t₁.writer.current = s.writer.current := by rw [ht₁]
  have hr₁ := hr.of_parts hcfg₁ hch₁ hw₁ hpo₁ hpos₁ hcur₁
  refine Runs.bind_exists (runs_config _) ?_
  rw [if_neg (by rw [hcfg₁]; omega)]
  refine Runs.bind_exists hr₁.runs_ensureChunk ?_
  -- the append finds no room and leaves the chunk and its file as they were
  have hwt : Chunk.Writing s.db.config.dir c.name c.header s.db.config.chunkSize c t₁.world.disk
      (Bytes.toByteArray (Record.frames rs)) := by
    rw [hw₁]
    exact hw
  refine Runs.bind_of (P := (· = _)) (runs_withChunk (hwt.runs_append_full hsize)) rfl
    fun t₂ ht₂ => ?_
  rw [if_neg (by decide)]
  have hsame : ChunkList.update t₁.db.chunks c = s.db.chunks := by
    rw [hch₁, ChunkList.update_eq_set hr.layout.laid.handles hk (by rw [hck']), ← hck',
      List.set_getElem_self]
  have hd₂ : Durable t₂ (init ++ [rs]) := hd.of_parts (by rw [ht₂, hcfg₁])
    (by rw [ht₂]; exact hsame) (by rw [ht₂, hw₁]) (by rw [ht₂, hpo₁]) (by rw [ht₂, hcl₁])
    (by rw [ht₂, hpos₁]) (by rw [ht₂, hcur₁])
  have hcfg₂ : t₂.db.config = s.db.config := by rw [ht₂, hcfg₁]
  have hfresh₂ : t₂.world.fresh = s.world.fresh := by rw [ht₂, hw₁]
  obtain ⟨s', hrun, hd', hm, hf⟩ := hd₂.runs_completeChunk hn (by rw [hfresh₂]; exact hfresh)
  refine ⟨s', Runs.bind hrun (Runs.pure _ _), hd', ?_, ?_⟩
  · rw [← hcfg₂]
    exact hm
  · rw [hf, hfresh₂]

/-- A record whose place `placeRecord` gives is written there by the writer: the write returns its
start and end, and the log is durable as `placeRecord` lays it out. A write that turns to a new
chunk draws two fresh numbers. -/
theorem runs_writeRecord {plan plan' : List (List Record)} (hd : Durable s plan)
    {make : Int → Record} (hb : Builds make) {res : Int × Int}
    (hplace : placeRecord s.db.config.chunkSize plan make = some (res, plan'))
    (hfresh : s.world.fresh < Nat.pow 2 64) :
    ∃ s', Runs (writeRecord make) s res s' ∧ Durable s' plan' ∧
      s.db.config.MovesWriter s'.db.config ∧ s'.world.fresh ≤ s.world.fresh + 2 := by
  obtain ⟨init, rs, -, rfl, -, -, -⟩ := hd.last
  obtain ⟨h0, h63⟩ := hd.layout.position_bounds
  have hpos := hd.position
  rw [hpos] at h0 h63
  obtain ⟨hlog, hfit, hmax⟩ := hb _ h0 h63
  unfold placeRecord at hplace
  simp only [List.getLastD_concat, List.dropLast_concat] at hplace
  unfold writeRecord
  refine Runs.bind_exists (runs_writerPosition s) ?_
  rw [hpos]
  split_ifs at hplace with htoo hroom hnext
  · -- the record goes after the last chunk's data
    obtain ⟨rfl, rfl⟩ := Prod.mk.inj (Option.some.inj hplace)
    obtain ⟨s', hrun, hd', hm, hf⟩ := hd.runs_writeOnce_here hlog hfit hmax hroom
    rw [hlog] at hrun
    exact Runs.bind_exists hrun ⟨s', Runs.pure _ _, hd', hm, by omega⟩
  · -- the chunk is completed, and the record, built again for the next chunk's start, goes there
    obtain ⟨rfl, rfl⟩ := Prod.mk.inj (Option.some.inj hplace)
    rw [not_or] at hnext
    obtain ⟨hframe', hn⟩ := hnext
    obtain ⟨s₁, hrun₁, hd₁, hm₁, hf₁⟩ :=
      hd.runs_writeOnce_next (Nat.le_of_not_lt htoo) (Nat.lt_of_not_le hroom) (by omega) hfresh
    refine Runs.bind_exists hrun₁ (Runs.bind_exists (runs_writerPosition s₁) ?_)
    have hpos₁ : s₁.writer.position = (((init ++ [rs]).length * s.db.config.chunkSize : Nat) : Int) := by
      rw [hd₁.position, planEnd_concat, hm₁.chunkSize_eq]
      simp
    obtain ⟨h0₁, h63₁⟩ := hd₁.layout.position_bounds
    rw [hpos₁] at h0₁ h63₁
    obtain ⟨hlog₁, hfit₁, hmax₁⟩ := hb _ h0₁ h63₁
    have hat : (make ↑((init ++ [rs]).length * s.db.config.chunkSize)).logPosition =
        planEnd s₁.db.config.chunkSize (init ++ [rs] ++ [[]]) := by
      rw [hlog₁, ← hpos₁, hd₁.position]
    obtain ⟨s', hrun, hd', hm, hf⟩ := hd₁.runs_writeOnce_here hat hfit₁ hmax₁
      (by rw [hm₁.chunkSize_eq]; simpa using Nat.le_of_not_lt hframe')
    rw [hpos₁]
    rw [hlog₁] at hrun
    simp only [List.nil_append] at hd'
    exact Runs.bind_exists hrun ⟨s', Runs.pure _ _, hd', hm₁.trans hm, by omega⟩

/-- A flushed write of a record placed by `placeRecord` leaves the log durable as placed. -/
theorem runs_writeFlushed {plan plan' : List (List Record)} (hd : Durable s plan)
    {make : Int → Record} (hb : Builds make) {res : Int × Int}
    (hplace : placeRecord s.db.config.chunkSize plan make = some (res, plan'))
    (hfresh : s.world.fresh < Nat.pow 2 64) :
    ∃ s', Runs (writeFlushed make) s res s' ∧ Durable s' plan' ∧
      s.db.config.MovesWriter s'.db.config ∧ s'.world.fresh ≤ s.world.fresh + 2 := by
  obtain ⟨s₁, h₁, hd₁, hm₁, hf₁⟩ := hd.runs_writeRecord hb hplace hfresh
  have h₂ := Store.runs_flushWriter (ε := DbError) s₁
  obtain ⟨hd', hm', hf'⟩ := hd₁.runs_flushWriter h₂
  exact ⟨_, Runs.bind h₁ (Runs.bind h₂ (Runs.pure _ _)), hd', hm₁.trans hm', by omega⟩

/-- Flushed writes of records placed one after another by `placeRecords` run, return where the
records went, and leave the log durable as placed, drawing at most two fresh numbers each. -/
theorem runs_writesFlushed {makes : List (Int → Record)} (hb : ∀ m ∈ makes, Builds m) :
    ∀ {s : Store} {plan plan' : List (List Record)} {res : List (Int × Int)}, Durable s plan →
      placeRecords s.db.config.chunkSize plan makes = some (res, plan') →
      s.world.fresh + 2 * makes.length < Nat.pow 2 64 →
      ∃ s', Runs (makes.mapM writeFlushed) s res s' ∧ Durable s' plan' ∧
        s.db.config.MovesWriter s'.db.config ∧
        s'.world.fresh ≤ s.world.fresh + 2 * makes.length := by
  -- one write at a time, each on the plan the previous one left
  induction makes with
  | nil =>
    intro s plan plan' res hd hplace _
    obtain ⟨rfl, rfl⟩ := Prod.mk.inj (Option.some.inj hplace).symm
    exact ⟨s, Runs.pure _ _, hd, DbConfig.MovesWriter.refl _, by simp⟩
  | cons m ms ih =>
    intro s plan plan' res hd hplace hfresh
    obtain ⟨r, plan₁, rest, hr, hrest, rfl⟩ := placeRecords_cons hplace
    simp only [List.length_cons] at hfresh
    obtain ⟨s₁, h₁, hd₁, hm₁, hf₁⟩ :=
      hd.runs_writeFlushed (hb m List.mem_cons_self) hr (by omega)
    rw [← hm₁.chunkSize_eq] at hrest
    obtain ⟨s', h₂, hd', hm', hf'⟩ :=
      ih (fun m' hm' => hb m' (List.mem_cons_of_mem _ hm')) hd₁ hrest (by omega)
    rw [List.mapM_cons]
    exact ⟨s', Runs.bind h₁ (Runs.bind h₂ (Runs.pure _ _)), hd', hm₁.trans hm',
      by simp only [List.length_cons]; omega⟩

end Durable

end EventStore
