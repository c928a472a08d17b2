import EventStore.Store.Epochs

/-!
# Reading the store

Actions that only read: they leave the state as they found it, whatever they return or however
they fail. Reading the log (records, epochs, chunks) is such an action all the way down to the
disk, which a frame read looks at but does not touch. For a read-only action the values it
returns on a state are what a specification needs; `Yields s m Q` says that every value `m`
returns on `s` satisfies `Q`, and it is built up through binds like a Hoare triple.
-/

namespace EventStore

variable {σ ε δ α β : Type}

/-- An action that leaves the state as it found it, whatever it returns. -/
def ReadOnly (m : ExceptT (Fault ε) (StateM σ) α) : Prop :=
  ∀ s, ((ExceptT.run m).run s).2 = s

/-- `m` run on `s` returns `v` and leaves `s` as it was. -/
def Returns (m : ExceptT (Fault ε) (StateM σ) α) (s : σ) (v : α) : Prop :=
  (ExceptT.run m).run s = (.ok v, s)

/-- Every value `m` returns on `s`, leaving it as it was, satisfies `Q`. -/
def Yields (s : σ) (m : ExceptT (Fault ε) (StateM σ) α) (Q : α → Prop) : Prop :=
  ∀ v, Returns m s v → Q v

namespace ReadOnly

theorem pure (v : α) : ReadOnly (Pure.pure v : ExceptT (Fault ε) (StateM σ) α) := fun _ => rfl

theorem throw (e : Fault ε) : ReadOnly (MonadExcept.throw e : ExceptT (Fault ε) (StateM σ) α) :=
  fun _ => rfl

theorem get : ReadOnly (MonadState.get : ExceptT (Fault ε) (StateM σ) σ) := fun _ => rfl

theorem bind {m : ExceptT (Fault ε) (StateM σ) α} {f : α → ExceptT (Fault ε) (StateM σ) β}
    (hm : ReadOnly m) (hf : ∀ v, ReadOnly (f v)) : ReadOnly (m >>= f) := by
  intro s
  have h := hm s
  rcases hr : (ExceptT.run m).run s with ⟨_ | v, s'⟩ <;> rw [hr] at h <;>
    simp only [ExceptT.run_bind, StateT.run_bind, hr]
  · exact h
  · dsimp only at h
    subst h
    exact hf v _

theorem map {m : ExceptT (Fault ε) (StateM σ) α} (f : α → β) (hm : ReadOnly m) :
    ReadOnly (f <$> m) := by
  rw [map_eq_pure_bind]
  exact hm.bind fun _ => pure _

theorem ite {p : Prop} [Decidable p] {x y : ExceptT (Fault ε) (StateM σ) α} (hx : ReadOnly x)
    (hy : ReadOnly y) : ReadOnly (if p then x else y) := by
  split
  · exact hx
  · exact hy

theorem wrap {m : ExceptT (Fault ε) (StateM σ) α} (f : ε → δ) (h : ReadOnly m) :
    ReadOnly (ExceptT.wrap f m) := by
  intro s
  simp only [ExceptT.wrap, ExceptT.run_adapt, StateT.run_map]
  exact h s

/-- A world action that only reads is a store action that only reads. -/
theorem onWorld {m : WorldM ε α} (h : ReadOnly m) : ReadOnly (Store.onWorld m) := by
  intro s
  have hs := h s.world
  rcases hw : (ExceptT.run m).run s.world with ⟨r, t⟩
  rw [hw] at hs
  dsimp only at hs
  subst hs
  simp only [StateT.run] at hw
  simp only [Store.onWorld, ExceptT.focus, ExceptT.run_mk, StateT.run, hw]

end ReadOnly

namespace Returns

variable {m : ExceptT (Fault ε) (StateM σ) α} {s : σ}

/-- What a bind of a read-only action returns is what its continuation returns on the value the
action returned. -/
theorem bind_inv {f : α → ExceptT (Fault ε) (StateM σ) β} {w : β} (hm : ReadOnly m)
    (h : Returns (m >>= f) s w) : ∃ v, Returns m s v ∧ Returns (f v) s w := by
  have hs := hm s
  rcases hr : (ExceptT.run m).run s with ⟨_ | v, s'⟩ <;> rw [hr] at hs <;> dsimp only at hs <;>
    subst hs <;> simp only [Returns, ExceptT.run_bind, StateT.run_bind, hr] at h
  · cases h
  · exact ⟨v, hr, h⟩

theorem pure_inv {v w : α} (h : Returns (Pure.pure v : ExceptT (Fault ε) (StateM σ) α) s w) :
    w = v := by
  cases h
  rfl

theorem not_throw {e : Fault ε} {w : α} :
    ¬ Returns (MonadExcept.throw e : ExceptT (Fault ε) (StateM σ) α) s w := nofun

/-- An action returns one value on a state. -/
theorem unique {v w : α} (hv : Returns m s v) (hw : Returns m s w) : v = w := by
  have h : ((.ok v, s) : Except (Fault ε) α × σ) = (.ok w, s) := Eq.trans (Eq.symm hv) hw
  cases h
  rfl

/-- A world action run inside a store action returns, on the store's world, what the store
action returns. -/
theorem of_onWorld {m : WorldM ε α} {s : Store} {v : α} (h : Returns (Store.onWorld m) s v) :
    Returns m s.world v := by
  unfold Returns at h ⊢
  rcases hw : (ExceptT.run m).run s.world with ⟨r, t⟩
  simp only [StateT.run] at hw
  simp only [Store.onWorld, ExceptT.focus, ExceptT.run_mk, StateT.run, hw] at h
  obtain ⟨hr, ht⟩ := Prod.mk.inj h
  have hts : t = s.world := congrArg Store.world ht
  rw [hr, hts]

end Returns

namespace Yields

variable {s : σ} {m : ExceptT (Fault ε) (StateM σ) α} {Q Q' : α → Prop}

theorem returns : Yields s m (Returns m s) := fun _ h => h

theorem mono (h : Yields s m Q) (hQ : ∀ v, Q v → Q' v) : Yields s m Q' :=
  fun v hv => hQ v (h v hv)

theorem pure {v : α} (h : Q v) : Yields s (Pure.pure v : ExceptT (Fault ε) (StateM σ) α) Q :=
  fun _ hv => (Returns.pure_inv hv) ▸ h

theorem throw {e : Fault ε} :
    Yields s (MonadExcept.throw e : ExceptT (Fault ε) (StateM σ) α) Q :=
  fun _ hv => absurd hv Returns.not_throw

theorem bind {f : α → ExceptT (Fault ε) (StateM σ) β} {R : β → Prop} (hm : ReadOnly m)
    (h : Yields s m fun v => Yields s (f v) R) : Yields s (m >>= f) R := fun w hw => by
  obtain ⟨v, hv, hfv⟩ := hw.bind_inv hm
  exact h v hv w hfv

theorem ite {p : Prop} [Decidable p] {x y : ExceptT (Fault ε) (StateM σ) α}
    (hx : p → Yields s x Q) (hy : ¬ p → Yields s y Q) : Yields s (if p then x else y) Q := by
  split
  · exact hx ‹_›
  · exact hy ‹_›

theorem onWorld {m : WorldM ε α} {s : Store} {Q : α → Prop} (h : Yields s.world m Q) :
    Yields s (Store.onWorld m) Q :=
  fun v hv => h v hv.of_onWorld

end Yields

/-- Wrapping a nonnegative position to 64 bits never raises it. -/
theorem Word.pos_le {x : Int} (hx : 0 ≤ x) : Word.pos x ≤ x := by
  unfold Word.pos Word.signed
  have hmod : x % ((Nat.pow 2 64 : Nat) : Int) ≤ x := by
    rw [Int.emod_def]
    have := Int.mul_nonneg (Int.natCast_nonneg (Nat.pow 2 64))
      (Int.ediv_nonneg hx (Int.natCast_nonneg (Nat.pow 2 64)))
    omega
  rw [Int.bmod_def]
  split <;> omega

namespace World

theorem readOnly_currentDisk : ReadOnly (World.currentDisk : WorldM ε Disk) := by
  unfold World.currentDisk
  exact ReadOnly.get.bind fun _ => ReadOnly.pure _

end World

namespace DbConfig

theorem readOnly_chunkNumberOf (cfg : DbConfig) (p : Int) :
    ReadOnly (cfg.chunkNumberOf p : WorldM ε Nat) := by
  unfold DbConfig.chunkNumberOf
  exact ReadOnly.ite (ReadOnly.throw _) (ReadOnly.ite (ReadOnly.pure _) (ReadOnly.throw _))

/-- A chunk number is the position divided by a nonzero chunk size. -/
theorem yields_chunkNumberOf (w : World) (cfg : DbConfig) (p : Int) :
    Yields w (cfg.chunkNumberOf p : WorldM ε Nat)
      fun n => 0 < cfg.chunkSize ∧ (n : Int) = p.tdiv cfg.chunkSize := by
  unfold DbConfig.chunkNumberOf
  dsimp only
  refine Yields.ite (fun _ => Yields.throw) fun hcs =>
    Yields.ite (fun hq => ?_) fun _ => Yields.throw
  exact Yields.pure ⟨by omega, Int.toNat_of_nonneg hq.1⟩

end DbConfig

/-- The chunk found for a chunk number is open, and starts at or before it. -/
theorem ChunkList.get?_spec {cs : List Chunk} {n : Nat} {c : Chunk}
    (h : ChunkList.get? cs n = some c) : c ∈ cs ∧ c.header.chunkStartNumber ≤ n := by
  unfold ChunkList.get? at h
  obtain ⟨hlast, _⟩ := Option.filter_eq_some_iff.1 h
  simpa using List.mem_filter.1 (List.mem_of_getLast? hlast)

namespace Chunk

/-- Reading a frame looks at the disk and changes nothing. -/
theorem readOnly_readFrame (c : Chunk) (physical : Nat) : ReadOnly (c.readFrame physical) := by
  unfold Chunk.readFrame
  refine ReadOnly.ite (ReadOnly.pure _) ?_
  refine World.readOnly_currentDisk.bind fun d => ?_
  -- the rest only decodes what was read, and may fail: no step of it touches the world
  dsimp only
  repeat' first
    | exact ReadOnly.pure _
    | exact ReadOnly.throw _
    | refine ReadOnly.ite ?_ ?_
    | refine ReadOnly.bind ?_ fun _ => ?_
    | split

end Chunk

namespace Store

theorem readOnly_config : ReadOnly (config : StoreM ε DbConfig) := by
  unfold config
  exact ReadOnly.get.bind fun _ => ReadOnly.pure _

theorem readOnly_checkpoints : ReadOnly (checkpoints : StoreM ε Checkpoints) := by
  unfold checkpoints
  exact ReadOnly.get.bind fun _ => ReadOnly.pure _

theorem readOnly_writerCheckpoint : ReadOnly (writerCheckpoint : StoreM ε Int) := by
  unfold writerCheckpoint
  exact readOnly_checkpoints.bind fun _ => ReadOnly.pure _

theorem readOnly_cachedEpochs : ReadOnly (cachedEpochs : StoreM ε (List Epoch)) := by
  unfold cachedEpochs
  exact ReadOnly.get.bind fun _ => ReadOnly.pure _

theorem readOnly_recordBound : ReadOnly (recordBound : StoreM ε Nat) := by
  unfold recordBound
  exact readOnly_config.bind fun _ => ReadOnly.pure _

theorem readOnly_chunkList : ReadOnly (chunkList : StoreM ε (List Chunk)) := by
  unfold chunkList
  exact ReadOnly.get.bind fun _ => ReadOnly.ite (ReadOnly.throw _) (ReadOnly.pure _)

theorem readOnly_getChunkFor (position : Int) :
    ReadOnly (getChunkFor position : StoreM ε (Option Chunk)) := by
  unfold getChunkFor getChunk
  refine ReadOnly.ite (ReadOnly.pure _) ?_
  refine readOnly_config.bind fun cfg => ?_
  refine (ReadOnly.onWorld (DbConfig.readOnly_chunkNumberOf cfg position)).bind fun _ => ?_
  exact readOnly_chunkList.bind fun _ => ReadOnly.pure _

/-- Reading forward through at most `fuel` chunks changes nothing. -/
theorem readOnly_readForwardIn (fuel : Nat) (position : Int) :
    ReadOnly (readForwardIn fuel position) := by
  induction fuel generalizing position with
  | zero =>
    rw [readForwardIn]
    exact ReadOnly.pure _
  | succ fuel ih =>
    rw [readForwardIn]
    refine (readOnly_getChunkFor position).bind fun _ => ?_
    dsimp only
    -- locating the record in the chunk, then reading its frame or moving to the next chunk
    repeat' first
      | exact ReadOnly.pure _
      | exact ReadOnly.throw _
      | exact ih _
      | exact ReadOnly.onWorld (Chunk.readOnly_readFrame _ _)
      | refine ReadOnly.ite ?_ ?_
      | refine ReadOnly.bind ?_ fun _ => ?_
      | split

theorem readOnly_readRecordAt (position : Int) : ReadOnly (readRecordAt position) := by
  unfold readRecordAt readForward
  refine (readOnly_chunkList.bind fun _ => readOnly_readForwardIn _ _).bind fun r => ?_
  split
  · exact ReadOnly.ite (ReadOnly.pure _) (ReadOnly.throw _)
  · exact ReadOnly.throw _

theorem readOnly_readEpochAt (position : Int) : ReadOnly (readEpochAt position) := by
  unfold readEpochAt
  refine (ReadOnly.wrap _ (readOnly_readRecordAt position)).bind fun r => ?_
  split
  · exact ReadOnly.pure _
  · exact ReadOnly.throw _

theorem readOnly_findEpochBack (number : Int) (fuel : Nat) (position : Int) :
    ReadOnly (findEpochBack number fuel position) := by
  induction fuel generalizing position with
  | zero =>
    rw [findEpochBack]
    exact ReadOnly.pure _
  | succ fuel ih =>
    rw [findEpochBack]
    refine ReadOnly.ite (ReadOnly.pure _) ?_
    refine (readOnly_readEpochAt position).bind fun _ => ?_
    exact ReadOnly.ite (ReadOnly.pure _) (ReadOnly.ite (ReadOnly.pure _) (ih _))

theorem readOnly_epochNumbered (number : Int) : ReadOnly (epochNumbered number) := by
  unfold epochNumbered
  refine readOnly_cachedEpochs.bind fun _ => ?_
  split
  · exact ReadOnly.pure _
  · split
    · exact ReadOnly.ite (readOnly_recordBound.bind fun _ => readOnly_findEpochBack _ _ _)
        (ReadOnly.pure _)
    · exact ReadOnly.pure _

theorem readOnly_isKnownEpoch (number : Int) (id : Uuid) : ReadOnly (isKnownEpoch number id) := by
  unfold isKnownEpoch
  exact (readOnly_epochNumbered number).bind fun _ => ReadOnly.pure _

theorem readOnly_epochAfterBack (number : Int) (fuel : Nat) (position : Int) (after : Epoch) :
    ReadOnly (epochAfterBack number fuel position after) := by
  induction fuel generalizing position after with
  | zero =>
    rw [epochAfterBack]
    exact ReadOnly.pure _
  | succ fuel ih =>
    rw [epochAfterBack]
    refine ReadOnly.ite (ReadOnly.pure _) ?_
    refine (readOnly_readEpochAt position).bind fun _ => ?_
    exact ReadOnly.ite (ReadOnly.pure _) (ih _ _)

theorem readOnly_epochAfter (number : Int) : ReadOnly (epochAfter number) := by
  unfold epochAfter
  refine readOnly_cachedEpochs.bind fun es => ?_
  dsimp only
  -- the epoch after, from the cache or by walking back from the oldest cached one
  repeat' first
    | exact ReadOnly.pure _
    | exact readOnly_recordBound.bind fun _ => ReadOnly.map _ (readOnly_epochAfterBack _ _ _ _)
    | refine ReadOnly.ite ?_ ?_
    | split

/-! ## What the reads return -/

theorem yields_config (s : Store) : Yields s (config : StoreM ε DbConfig) (· = s.db.config) :=
  fun _ hv => hv.unique rfl

theorem yields_writerCheckpoint (s : Store) :
    Yields s (writerCheckpoint : StoreM ε Int) (· = s.db.config.checkpoints.writer.read) :=
  fun _ hv => hv.unique rfl

theorem yields_chunkList (s : Store) :
    Yields s (chunkList : StoreM ε (List Chunk)) (· = s.db.chunks) := by
  intro cs hcs
  unfold chunkList at hcs
  obtain ⟨s', hs', hcs⟩ := hcs.bind_inv ReadOnly.get
  have hs : s' = s := hs'.unique rfl
  subst hs
  by_cases hp : s'.db.poisoned = true
  · rw [if_pos hp] at hcs
    exact absurd hcs Returns.not_throw
  · rw [if_neg hp] at hcs
    exact hcs.pure_inv

/-- The chunk found for a position starts at or before it, when every open chunk has the chunk
size of the configuration. -/
theorem yields_getChunkFor (s : Store) (position : Int)
    (hsize : ∀ c ∈ s.db.chunks, c.header.chunkSize = s.db.config.chunkSize) :
    Yields s (getChunkFor position : StoreM ε (Option Chunk))
      fun oc => ∀ c, oc = some c → c.startPosition ≤ position := by
  unfold getChunkFor getChunk
  refine Yields.ite (fun _ => Yields.pure nofun) fun hpos => ?_
  refine Yields.bind readOnly_config ((yields_config s).mono fun cfg hcfg => ?_)
  refine Yields.bind (ReadOnly.onWorld (DbConfig.readOnly_chunkNumberOf cfg position)) ?_
  refine (Yields.onWorld (DbConfig.yields_chunkNumberOf s.world cfg position)).mono
    fun n ⟨hcs, hn⟩ => ?_
  refine Yields.bind readOnly_chunkList ((yields_chunkList s).mono fun cs hcs' => ?_)
  refine Yields.pure fun c hc => ?_
  subst hcfg hcs'
  obtain ⟨hmem, hstart⟩ := ChunkList.get?_spec hc
  -- the chunk starts at a multiple of the chunk size no larger than the position
  have hq : (n : Int) * s.db.config.chunkSize ≤ position := by
    rw [hn, Int.tdiv_eq_ediv_of_nonneg (Int.not_lt.1 hpos)]
    exact Int.ediv_mul_le _ (by omega)
  have hle : (c.header.chunkStartNumber : Int) * c.header.chunkSize ≤ position := by
    rw [hsize c hmem]
    exact Int.le_trans (Int.mul_le_mul_of_nonneg_right (by omega) (by omega)) hq
  have hstartPos : c.startPosition =
      Word.pos ((c.header.chunkStartNumber : Int) * c.header.chunkSize) := rfl
  rw [hstartPos]
  exact Int.le_trans (Word.pos_le (Int.mul_nonneg (by omega) (by omega))) hle

end Store

end EventStore
