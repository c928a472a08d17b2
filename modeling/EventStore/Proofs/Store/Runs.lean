import EventStore.Proofs.Store.Reads

/-!
# Runs of store actions

`Runs m s v s'` says that `m`, started on `s`, returns `v` and leaves `s'`. A successful run of a
`do` block is a chain of successful runs of its steps (`Runs.bind_inv`), so what an action does
when it succeeds is found by peeling its steps off one by one, each through the lemma of the
action it calls. The primitive actions of the store (reading the writer, changing it, moving the
writer checkpoint, running a chunk action on an open chunk) get their lemmas here; the chunk
writer's are built from them.
-/

namespace EventStore

variable {σ ε α β : Type}

/-- `m` run on `s` returns `v` and leaves `s'`. -/
def Runs (m : ExceptT (Fault ε) (StateM σ) α) (s : σ) (v : α) (s' : σ) : Prop :=
  (ExceptT.run m).run s = (.ok v, s')

namespace Runs

variable {m : ExceptT (Fault ε) (StateM σ) α} {s s' : σ} {v : α}

/-- A successful bind is a successful run of the action and then of its continuation. -/
theorem bind_inv {f : α → ExceptT (Fault ε) (StateM σ) β} {w : β} {s'' : σ}
    (h : Runs (m >>= f) s w s'') : ∃ v s', Runs m s v s' ∧ Runs (f v) s' w s'' := by
  unfold Runs at h ⊢
  simp only [ExceptT.run_bind, StateT.run_bind] at h
  rcases hm : (ExceptT.run m).run s with ⟨_ | v, s'⟩ <;> rw [show StateT.run _ s = _ from hm] at h
  · cases h
  · exact ⟨v, s', rfl, h⟩

theorem bind {f : α → ExceptT (Fault ε) (StateM σ) β} {w : β} {s'' : σ} (hm : Runs m s v s')
    (hf : Runs (f v) s' w s'') : Runs (m >>= f) s w s'' := by
  unfold Runs at hm hf ⊢
  simp only [ExceptT.run_bind, StateT.run_bind]
  rw [show StateT.run _ s = _ from hm]
  exact hf

theorem pure_inv {w : α} (h : Runs (Pure.pure w : ExceptT (Fault ε) (StateM σ) α) s v s') :
    v = w ∧ s' = s := by
  cases h
  exact ⟨rfl, rfl⟩

theorem pure (w : α) (s : σ) : Runs (Pure.pure w : ExceptT (Fault ε) (StateM σ) α) s w s := rfl

theorem not_throw {e : Fault ε} : ¬ Runs (MonadExcept.throw e : ExceptT (Fault ε) (StateM σ) α) s v s' :=
  nofun

theorem not_fail {e : ε} : ¬ Runs (fail e : ExceptT (Fault ε) (StateM σ) α) s v s' := nofun

theorem not_stop : ¬ Runs (stop : ExceptT (Fault ε) (StateM σ) α) s v s' := nofun

theorem get_inv {w : σ} (h : Runs (MonadState.get : ExceptT (Fault ε) (StateM σ) σ) s w s') :
    w = s ∧ s' = s := by
  cases h
  exact ⟨rfl, rfl⟩

theorem modify_inv {g : σ → σ} {u : PUnit}
    (h : Runs (modify g : ExceptT (Fault ε) (StateM σ) PUnit) s u s') : s' = g s := by
  cases h
  rfl

theorem modify (g : σ → σ) (s : σ) :
    Runs (modify g : ExceptT (Fault ε) (StateM σ) PUnit) s PUnit.unit (g s) := rfl

theorem modifyGet_inv {g : σ → α × σ} (h : Runs (modifyGet g : ExceptT (Fault ε) (StateM σ) α) s v s') :
    v = (g s).1 ∧ s' = (g s).2 := by
  cases h
  exact ⟨rfl, rfl⟩

theorem map_inv {f : α → β} {w : β} (h : Runs (f <$> m) s w s') : ∃ v, Runs m s v s' ∧ w = f v := by
  rw [map_eq_pure_bind] at h
  obtain ⟨v, s₁, hm, hp⟩ := h.bind_inv
  obtain ⟨rfl, rfl⟩ := Runs.pure_inv hp
  exact ⟨v, hm, rfl⟩

/-- A read-only action returns on the state it leaves, which is the one it started on. -/
theorem returns (hm : ReadOnly m) (h : Runs m s v s') : s' = s ∧ Returns m s v := by
  have hs := hm s
  unfold Runs at h
  rw [h] at hs
  subst hs
  exact ⟨rfl, h⟩

theorem of_returns (h : Returns m s v) : Runs m s v s := h

/-- An action that returns a value runs to the state it computes; on a fixed input this is
checked by evaluating the action. -/
theorem of_toOption (h : ((ExceptT.run m).run s).1.toOption = some v) :
    Runs m s v ((ExceptT.run m).run s).2 := by
  unfold Runs
  rcases hm : (ExceptT.run m).run s with ⟨_ | w, s'⟩ <;> rw [hm] at h <;> cases h
  rfl

/-- A world action run inside a store action runs on the store's world. -/
theorem onWorld_inv {m : WorldM ε α} {s s' : Store} (h : Runs (Store.onWorld m) s v s') :
    ∃ w, Runs m s.world v w ∧ s' = { s with world := w } := by
  unfold Runs at h ⊢
  rcases hw : (ExceptT.run m).run s.world with ⟨r, w⟩
  simp only [StateT.run] at hw
  simp only [Store.onWorld, ExceptT.focus, ExceptT.run_mk, StateT.run, hw] at h
  obtain ⟨hr, hs⟩ := Prod.mk.inj h
  subst hr hs
  exact ⟨w, rfl, rfl⟩

theorem onWorld {m : WorldM ε α} {s : Store} {w : World} (h : Runs m s.world v w) :
    Runs (Store.onWorld m) s v { s with world := w } := by
  unfold Runs at h ⊢
  simp only [StateT.run] at h
  simp only [Store.onWorld, ExceptT.focus, ExceptT.run_mk, StateT.run, h]

/-- A walk that gives a result got it from one of its steps. -/
theorem walk_inv {τ : Type} {step : τ → WorldM ε (τ ⊕ α)} {a : α} :
    ∀ {fuel : Nat} {x : τ} {w w' : World}, Runs (World.walk step fuel x) w (some a) w' →
      ∃ y w₁, Runs (step y) w₁ (.inr a) w' := by
  intro fuel
  induction fuel with
  | zero =>
    intro x w w' h
    cases (Runs.pure_inv h).1
  | succ fuel ih =>
    intro x w w' h
    obtain ⟨r, w₁, h₁, h₂⟩ := Runs.bind_inv h
    cases r with
    | inl y => exact ih h₂
    | inr b =>
      obtain ⟨hb, rfl⟩ := Runs.pure_inv h₂
      cases hb
      exact ⟨x, w, h₁⟩

end Runs

namespace Store

variable {s s' : Store}

theorem runs_theWriter_inv {w : ChunkWriter} (h : Runs (theWriter : StoreM ε ChunkWriter) s w s') :
    w = s.writer ∧ s' = s := by
  unfold theWriter at h
  obtain ⟨_, _, hg, hp⟩ := h.bind_inv
  obtain ⟨rfl, rfl⟩ := Runs.get_inv hg
  exact Runs.pure_inv hp

theorem runs_config_inv {cfg : DbConfig} (h : Runs (config : StoreM ε DbConfig) s cfg s') :
    cfg = s.db.config ∧ s' = s := by
  unfold config at h
  obtain ⟨_, _, hg, hp⟩ := h.bind_inv
  obtain ⟨rfl, rfl⟩ := Runs.get_inv hg
  exact Runs.pure_inv hp

theorem runs_chunkList_inv {cs : List Chunk} (h : Runs (chunkList : StoreM ε (List Chunk)) s cs s') :
    cs = s.db.chunks ∧ s' = s ∧ s.db.poisoned = false := by
  unfold chunkList at h
  obtain ⟨x, s₁, hg, hp⟩ := h.bind_inv
  obtain ⟨hx, hs₁⟩ := Runs.get_inv hg
  subst x s₁
  by_cases hpo : s.db.poisoned = true
  · rw [if_pos hpo] at hp
    exact absurd hp Runs.not_stop
  · rw [if_neg hpo] at hp
    obtain ⟨rfl, rfl⟩ := Runs.pure_inv hp
    exact ⟨rfl, rfl, by simpa using hpo⟩

theorem runs_chunkList {s : Store} (h : s.db.poisoned = false) :
    Runs (chunkList : StoreM ε (List Chunk)) s s.db.chunks s := by
  unfold chunkList
  refine Runs.bind (Runs.pure s s) ?_
  rw [if_neg (by simp [h])]
  exact Runs.pure _ _

theorem runs_modifyWriter_inv {f : ChunkWriter → ChunkWriter} {u : Unit}
    (h : Runs (modifyWriter f : StoreM ε Unit) s u s') : s' = { s with writer := f s.writer } :=
  Runs.modify_inv h

/-- Moving the writer writes the writer checkpoint, without flushing it. -/
theorem runs_setWriterPosition_inv {p : Int} {u : Unit}
    (h : Runs (setWriterPosition p : StoreM ε Unit) s u s') :
    s' = { s with writer := { s.writer with position := p },
                  db.config.checkpoints.writer := s.db.config.checkpoints.writer.write p } := by
  unfold setWriterPosition at h
  obtain ⟨_, s₁, h₁, h₂⟩ := h.bind_inv
  rw [runs_modifyWriter_inv h₁] at h₂
  exact Runs.modify_inv h₂

/-- Flushing the writer checkpoint makes its written value durable; on a file checkpoint the
value is written to the file's first eight bytes. -/
theorem runs_flushWriter_inv {u : Unit} (h : Runs (flushWriter : StoreM ε Unit) s u s') :
    s' = { s with
      world.disk := (s.db.config.checkpoints.writer.flush s.world.disk).1,
      db.config.checkpoints.writer := (s.db.config.checkpoints.writer.flush s.world.disk).2 } := by
  unfold flushWriter flushCheckpointOf at h
  obtain ⟨cps, s₁, h₁, h₂⟩ := h.bind_inv
  unfold checkpoints at h₁
  obtain ⟨_, _, hg, hp⟩ := h₁.bind_inv
  obtain ⟨rfl, rfl⟩ := Runs.get_inv hg
  obtain ⟨rfl, rfl⟩ := Runs.pure_inv hp
  obtain ⟨c, s₂, h₂, h₃⟩ := h₂.bind_inv
  obtain ⟨w, hw, rfl⟩ := Runs.onWorld_inv h₂
  unfold DbConfig.flushCheckpoint at hw
  obtain ⟨rfl, rfl⟩ := Runs.modifyGet_inv hw
  obtain ⟨cps', s₃, h₃, h₄⟩ := h₃.bind_inv
  unfold checkpoints at h₃
  obtain ⟨_, _, hg, hp⟩ := h₃.bind_inv
  obtain ⟨rfl, rfl⟩ := Runs.get_inv hg
  obtain ⟨rfl, rfl⟩ := Runs.pure_inv hp
  exact Runs.modify_inv h₄

/-- A chunk action run on an open chunk: the world moves and the changed chunk is put back by
its handle. -/
theorem runs_withChunk_inv {γ : Type} {c : Chunk} {f : Chunk → WorldM DbError (γ × Chunk)}
    {a : γ} (h : Runs (withChunk c f) s a s') :
    ∃ c' w, Runs (f c) s.world (a, c') w ∧
      s' = { s with world := w, db.chunks := ChunkList.update s.db.chunks c' } := by
  unfold withChunk at h
  obtain ⟨⟨a', c'⟩, s₁, h₁, h₂⟩ := h.bind_inv
  obtain ⟨w, hw, rfl⟩ := Runs.onWorld_inv h₁
  obtain ⟨_, s₂, h₂, h₃⟩ := h₂.bind_inv
  rw [Runs.modify_inv h₂] at h₃
  obtain ⟨rfl, rfl⟩ := Runs.pure_inv h₃
  exact ⟨c', w, hw, rfl⟩

/-- An action holding the chunk list succeeds exactly as the action does. -/
theorem runs_holdingChunks_inv {m : StoreM ε α} {v : α} (h : Runs (holdingChunks m) s v s') :
    Runs m s v s' := by
  unfold holdingChunks Runs at h
  unfold Runs
  change StateT.run (ExceptT.run (ExceptT.tryCatch m _)) s = _ at h
  simp only [ExceptT.tryCatch, ExceptT.run_mk, StateT.run_bind] at h
  rcases hm : (ExceptT.run m).run s with ⟨_ | v', s₁⟩ <;>
    rw [show StateT.run m s = _ from hm] at h
  · -- a failure is caught only to be thrown again, after marking a stop
    rename_i e
    cases e <;> cases h
  · exact h

end Store

end EventStore
