import Mathlib.Logic.Relation
import EventStore.Proofs.Service.WriteRanges
import EventStore.Proofs.Store.WriterSync
import EventStore.Service.StorageChaser

/-!
# The chaser stays behind the writer

The storage chaser reads the log up to the flushed writer checkpoint and records in the chaser
checkpoint how far it got. Three kinds of steps move a node's storage: an operation of the chunk
writer, a truncation of the log (the writer's, then the epoch history's), and a pass of the chaser.
`ChaserBehind` is what they keep:

* the chaser checkpoint is at most the writer checkpoint, both flushed values;
* while the chaser belongs to the database's current generation, its position is its checkpoint;
* the chaser never belongs to a generation the database has not reached.

A pass of the chaser first catches up with the generation, restarting from its checkpoint after a
truncation; it reads only records that end within the flushed writer checkpoint and steps over
the empty tails of completed chunks that do too (`follows_follow`), then records how far it got.
A truncation pulls both checkpoints back to the same position and counts a new generation, so the
position the chaser held before it no longer counts: until the next pass it may lie past the
writer (`chaser_position_outlives_truncation`). The writer's operations keep the chaser checkpoint
and the generation (`WriterMoves`); that they do not move the writer checkpoint back is a premise
of their step, since a raw chunk whose file starts before its announced header moves the writer to
its end, wherever that is.

Main statement: in every state reached from one where the chaser is behind the writer, it still
is, the chaser's position is within the writer checkpoint whenever it belongs to the current
generation, reopening the database with its checkpoints passes the check of the chaser against the
writer, and the next pass reports catching up only with the chaser checkpoint at the writer
checkpoint (`chaser_stays_behind_writer`).
-/

namespace EventStore

open Store

/-! ## Store actions the chaser runs -/

/-- A store step that keeps all the chaser relies on: the writer and chaser checkpoints and the
database generation. -/
structure MarksKept (s s' : Store) : Prop where
  writer : s'.db.config.checkpoints.writer = s.db.config.checkpoints.writer
  chaser : s'.db.config.checkpoints.chaser = s.db.config.checkpoints.chaser
  generation : s'.db.generation = s.db.generation

/-- `MarksKept` as a relation between the states before and after a step. -/
def marksKept : StepRel Store where
  holds := MarksKept
  refl _ := ⟨rfl, rfl, rfl⟩
  trans h₁ h₂ := ⟨h₂.writer.trans h₁.writer, h₂.chaser.trans h₁.chaser,
    h₂.generation.trans h₁.generation⟩

namespace Store

variable {ε : Type}

theorem marksKept_setCachedEpochs (es : List Epoch) :
    Relates marksKept (setCachedEpochs es : StoreM ε Unit) :=
  Relates.modify fun _ => ⟨rfl, rfl, rfl⟩

theorem marksKept_raiseCommit (position : Int) :
    Relates marksKept (raiseCommit position : StoreM ε Unit) :=
  Relates.modify fun _ => ⟨rfl, rfl, rfl⟩

/-- Writing and flushing the epoch checkpoint touches no other checkpoint. -/
theorem marksKept_storeEpochCheckpoint (position : Int) :
    Relates marksKept (storeEpochCheckpoint position : StoreM ε Unit) := by
  unfold storeEpochCheckpoint modifyCheckpoints
  refine Relates.bind (Relates.modify fun _ => ⟨rfl, rfl, rfl⟩) fun _ => ?_
  intro s _ _ h
  obtain ⟨-, rfl⟩ := Runs.unique h (runs_flushCheckpointOf _ _ s)
  exact ⟨rfl, rfl, rfl⟩

theorem marksKept_cacheEpoch (e : Epoch) : Relates marksKept (cacheEpoch e) := by
  unfold cacheEpoch
  refine Relates.bind (.of_readOnly readOnly_cachedEpochs) fun es => ?_
  -- an epoch out of order is refused; any other is cached and made the checkpoint's
  have hcache : Relates marksKept (do
      setCachedEpochs (keepNewest (← get).epochs.cacheSize (es ++ [e]))
      storeEpochCheckpoint e.epochPosition : StoreM EpochError Unit) :=
    Relates.bind (.of_readOnly ReadOnly.get) fun _ =>
      (marksKept_setCachedEpochs _).bind fun _ => marksKept_storeEpochCheckpoint _
  dsimp only
  split
  · exact Relates.ite (fun _ => Relates.pure _) fun _ => Relates.guarded hcache
  · exact hcache

/-- Following epoch links back reads the log and changes nothing. -/
theorem readOnly_epochChain (position : Int) (room : Nat) (acc : List Epoch) :
    ReadOnly (epochChain position room acc) := by
  induction room generalizing position acc with
  | zero =>
    rw [epochChain]
    exact ReadOnly.pure _
  | succ room ih =>
    rw [epochChain]
    exact ReadOnly.ite (ReadOnly.pure _) ((readOnly_readEpochAt position).bind fun _ => ih _ _)

/-- Scanning the log for epochs changes nothing. -/
theorem readOnly_scanEpochs (writer : Int) (cacheSize : Nat) (fuel : Nat) (position : Int)
    (acc : List Epoch) : ReadOnly (scanEpochs writer cacheSize fuel position acc) := by
  induction fuel generalizing position acc with
  | zero =>
    rw [scanEpochs]
    exact ReadOnly.pure _
  | succ fuel ih =>
    rw [scanEpochs]
    refine (ReadOnly.wrap _ ?_).bind fun found => ?_
    · unfold readForward
      exact readOnly_chunkList.bind fun _ => readOnly_readForwardIn _ _
    · split
      · exact ReadOnly.pure _
      · exact ReadOnly.ite (ReadOnly.pure _) (ih _ _)

/-- Rebuilding the epoch cache writes at most the epoch checkpoint. -/
theorem marksKept_reloadEpochs : Relates marksKept reloadEpochs := by
  unfold reloadEpochs
  refine Relates.bind (.of_readOnly readOnly_checkpoints) fun cps => ?_
  refine Relates.bind (.of_readOnly ReadOnly.get) fun st => ?_
  dsimp only
  -- the chain from the epoch checkpoint, or a scan that restores the checkpoint
  refine Relates.ite (fun _ => ?_) fun _ => Relates.ite (fun _ => ?_) fun _ => ?_
  · exact Relates.bind (.of_readOnly (readOnly_epochChain _ _ _)) marksKept_setCachedEpochs
  · refine Relates.bind (.of_readOnly readOnly_recordBound) fun fuel => ?_
    refine Relates.bind (.of_readOnly (readOnly_scanEpochs _ _ _ _ _)) fun found => ?_
    split
    · exact (marksKept_storeEpochCheckpoint _).bind fun _ =>
        Relates.bind (Relates.pure _) marksKept_setCachedEpochs
    · exact Relates.bind (Relates.pure _) marksKept_setCachedEpochs
  · exact Relates.bind (Relates.pure _) marksKept_setCachedEpochs

/-- Forgetting the epochs past a truncation writes at most the epoch checkpoint. -/
theorem marksKept_epochsTruncated (position : Int) :
    Relates marksKept (epochsTruncated position) := by
  unfold epochsTruncated
  refine Relates.bind (.of_readOnly readOnly_cachedEpochs) fun es => ?_
  refine (marksKept_setCachedEpochs _).bind fun _ => ?_
  split
  · exact marksKept_reloadEpochs
  · split
    · refine Relates.bind (.of_readOnly readOnly_checkpoints) fun cps => ?_
      exact Relates.ite (fun _ => marksKept_storeEpochCheckpoint _) fun _ => Relates.pure _
    · exact Relates.pure _

/-- The newest epoch is read from the cache. -/
theorem readOnly_lastEpoch : ReadOnly (lastEpoch : StoreM ε (Option Epoch)) := by
  unfold lastEpoch
  exact readOnly_cachedEpochs.bind fun _ => ReadOnly.pure _

end Store

namespace Actor

variable {σ ε α : Type} {a a' : Actor σ} {v : α}

theorem readOnly_me : ReadOnly (me : ActorM σ ε σ) := by
  unfold me
  exact ReadOnly.get.bind fun _ => ReadOnly.pure _

/-- A store read run by a service changes nothing. -/
theorem runs_onStore_readOnly {m : StoreM ε α} (hm : ReadOnly m)
    (h : Runs (onStore m : ActorM σ ε α) a v a') : a' = a ∧ Returns m a.store v := by
  obtain ⟨hrun, hself, hout⟩ := runs_onStore_inv h
  obtain ⟨hstore, hret⟩ := Runs.returns hm hrun
  exact ⟨eq_of_parts hstore hself hout, hret⟩

end Actor

/-- A store action run by a service relates its states as the action relates the stores. -/
theorem Relates.onStore {σ ε α : Type} {R : StepRel (Actor σ)} {Q : StepRel Store}
    {m : StoreM ε α} (hm : Relates Q m)
    (hq : ∀ (a : Actor σ) st, Q.holds a.store st → R.holds a { a with store := st }) :
    Relates R (Actor.onStore m) := fun a _ a' h => by
  obtain ⟨hrun, hself, hout⟩ := Actor.runs_onStore_inv h
  have ha' : a' = { a with store := a'.store } := Actor.eq_of_parts rfl hself hout
  rw [ha']
  exact hq a _ (hm hrun)

/-! ## Following the writer -/

namespace StorageChaser

/-- A step of the chaser that moves only its position and the epoch history: the position stays
within `writer` once it is, and the marks of the store stay as they are. -/
structure Follows (writer : Int) (a a' : Actor StorageChaser) : Prop where
  marks : MarksKept a.store a'.store
  generation : a'.self.generation = a.self.generation
  waiting : a'.self.waiting = a.self.waiting
  state : a'.self.state = a.self.state
  outbox : a'.outbox = a.outbox
  within : a.self.position ≤ writer → a'.self.position ≤ writer

/-- `Follows writer` as a relation between the states before and after a step. -/
def follows (writer : Int) : StepRel (Actor StorageChaser) where
  holds := Follows writer
  refl _ := ⟨marksKept.refl _, rfl, rfl, rfl, rfl, id⟩
  trans h₁ h₂ := ⟨marksKept.trans h₁.marks h₂.marks, h₂.generation.trans h₁.generation,
    h₂.waiting.trans h₁.waiting, h₂.state.trans h₁.state, h₂.outbox.trans h₁.outbox,
    h₂.within ∘ h₁.within⟩

variable {writer : Int}

theorem follows_onStore {ε α : Type} {m : StoreM ε α} (hm : Relates marksKept m) :
    Relates (follows writer) (Actor.onStore m) :=
  Relates.onStore hm fun _ _ h => ⟨h, rfl, rfl, rfl, rfl, id⟩

/-- Moving to a position within the writer. -/
theorem follows_moveTo {p : Int} (hp : p ≤ writer) :
    Relates (follows writer)
      (Actor.modifyMe fun c => { c with position := p } : ActorM StorageChaser ServiceError Unit) :=
  Relates.modify fun _ => ⟨marksKept.refl _, rfl, rfl, rfl, rfl, fun _ => hp⟩

/-- The chaser follows the writer only as far as `writer`: it moves past a record only when the
record ends within it, and past the empty tail of a completed chunk only when the chunk ends
within it. -/
theorem follows_follow (writer : Int) (fuel : Nat) :
    Relates (follows writer) (follow writer fuel) := by
  induction fuel with
  | zero =>
    rw [follow]
    exact Relates.pure _
  | succ fuel ih =>
    rw [follow]
    refine Relates.bind (.of_readOnly Actor.readOnly_me) fun c => ?_
    dsimp only
    refine Relates.ite (fun _ => Relates.pure _) fun _ => ?_
    refine Relates.bind (follows_onStore (.of_readOnly (ReadOnly.wrap _ ?_))) fun found => ?_
    · unfold readForward
      exact readOnly_chunkList.bind fun _ => readOnly_readForwardIn _ _
    split
    · -- a record that ends within the writer is passed, its epoch cached when it is new
      refine Relates.ite (fun _ => Relates.pure _) fun hnext => ?_
      have hmove := (follows_moveTo (Int.not_lt.1 hnext)).bind fun _ => ih
      split
      · refine Relates.bind (follows_onStore (.of_readOnly readOnly_lastEpoch)) fun last => ?_
        refine Relates.ite (fun _ => ?_) fun _ => hmove
        exact (follows_onStore (Relates.wrap (marksKept_cacheEpoch _))).bind fun _ => hmove
      · exact hmove
    · -- no record: the empty tail of a completed chunk that ends within the writer is passed
      refine Relates.bind (follows_onStore (.of_readOnly (readOnly_getChunkFor _))) fun found => ?_
      split
      · refine Relates.ite (fun hc => ?_) fun _ => Relates.pure _
        obtain ⟨-, hend⟩ := Bool.and_eq_true_iff.1 hc
        exact (follows_moveTo (of_decide_eq_true hend)).bind fun _ => ih
      · exact Relates.pure _

end StorageChaser

/-! ## A pass of the chaser -/

/-- What the steps of a node's storage keep of the chaser: its checkpoint at most the writer
checkpoint, its position at its checkpoint while it belongs to the current generation, and no
generation of its own past the database's. -/
structure ChaserBehind (a : Actor StorageChaser) : Prop where
  checkpoint : a.store.db.config.checkpoints.chaser.read ≤ a.store.db.config.checkpoints.writer.read
  position : a.self.generation = a.store.db.generation →
    a.self.position = a.store.db.config.checkpoints.chaser.read
  generation : a.self.generation ≤ a.store.db.generation

/-- What a step adds to the outbox: nothing, or one report of catching up, made with the chaser
checkpoint at the writer checkpoint. -/
def ReportsCaughtUp (a a' : Actor StorageChaser) : Prop :=
  a'.outbox = a.outbox ∨ ∃ corr, a'.outbox = a.outbox.push (.system (.chaserCaughtUp corr)) ∧
    a'.store.db.config.checkpoints.chaser.read = a'.store.db.config.checkpoints.writer.read

namespace Store

variable {ε : Type} {s s₁ s₂ : Store}

/-- Writing and flushing the chaser checkpoint sets its flushed value and touches no other mark. -/
theorem runs_storeChaserCheckpoint {p : Int} {u u' : Unit}
    (h₁ : Runs (modifyCheckpoints fun c => { c with chaser := c.chaser.write p } : StoreM ε Unit)
      s u s₁)
    (h₂ : Runs (flushCheckpointOf (·.chaser) fun c x => { c with chaser := x } : StoreM ε Unit)
      s₁ u' s₂) :
    s₂.db.config.checkpoints.chaser.read = p ∧
      s₂.db.config.checkpoints.writer = s.db.config.checkpoints.writer ∧
      s₂.db.generation = s.db.generation := by
  unfold modifyCheckpoints at h₁
  rw [Runs.modify_inv h₁] at h₂
  obtain ⟨-, rfl⟩ := Runs.unique h₂ (runs_flushCheckpointOf _ _ _)
  exact ⟨(Checkpoint.flush_spec _ _).2.2, rfl, rfl⟩

end Store

namespace StorageChaser

/-- A pass of the chaser joins the current generation, ends within the writer checkpoint with its
checkpoint at its position, and reports catching up only with the chaser checkpoint at the writer
checkpoint. -/
theorem runs_chase_inv {a a' : Actor StorageChaser} {u : Unit} (h : Runs chase a u a')
    (hb : ChaserBehind a) :
    ChaserBehind a' ∧ a'.self.generation = a'.store.db.generation ∧ ReportsCaughtUp a a' := by
  unfold chase at h
  obtain ⟨st, a₀, hget, hrun⟩ := h.bind_inv
  obtain ⟨hst, ha₀⟩ := Runs.get_inv hget
  subst st a₀
  extract_lets resume at hrun
  -- the chaser joins the current generation, from its checkpoint when it was in an older one
  obtain ⟨a₁, hstore₁, hout₁, hgen₁, hpos₁, h⟩ : ∃ a₁ : Actor StorageChaser,
      a₁.store = a.store ∧ a₁.outbox = a.outbox ∧ a₁.self.generation = a.store.db.generation ∧
      a₁.self.position = a.store.db.config.checkpoints.chaser.read ∧ Runs (resume ()) a₁ u a' := by
    split at hrun
    · obtain ⟨⟨⟩, a₁, h₁, h₂⟩ := hrun.bind_inv
      rw [Runs.modify_inv h₁] at h₂
      refine ⟨_, ?_, ?_, ?_, ?_, h₂⟩ <;> rfl
    · rename_i hsame
      have hgen : a.self.generation = a.store.db.generation := (Decidable.of_not_not hsame).symm
      exact ⟨a, rfl, rfl, hgen, hb.position hgen, hrun⟩
  unfold resume at h
  -- it reads the flushed writer checkpoint and its own position, then follows the writer
  obtain ⟨cps, a₂, h₂, h⟩ := h.bind_inv
  obtain ⟨ha₂, hcps⟩ := Actor.runs_onStore_readOnly readOnly_checkpoints h₂
  subst a₂
  have hcps : cps = a₁.store.db.config.checkpoints := hcps.unique rfl
  subst cps
  obtain ⟨c, a₃, h₃, h⟩ := h.bind_inv
  obtain ⟨hc, ha₃⟩ := Actor.runs_me_inv h₃
  subst c a₃
  obtain ⟨fuel, a₄, h₄, h⟩ := h.bind_inv
  obtain ⟨ha₄, -⟩ := Actor.runs_onStore_readOnly readOnly_recordBound h₄
  subst a₄
  obtain ⟨cs, a₅, h₅, h⟩ := h.bind_inv
  obtain ⟨ha₅, -⟩ := Actor.runs_onStore_readOnly readOnly_chunkList h₅
  subst a₅
  obtain ⟨_, a₆, h₆, h⟩ := h.bind_inv
  have hf := follows_follow _ _ h₆
  have hstart : a₁.self.position ≤ a₁.store.db.config.checkpoints.writer.read := by
    rw [hpos₁, hstore₁]
    exact hb.checkpoint
  have hreached := hf.within hstart
  obtain ⟨c', a₇, h₇, h⟩ := h.bind_inv
  obtain ⟨hc', ha₇⟩ := Actor.runs_me_inv h₇
  subst c' a₇
  extract_lets reached report at h
  have hmarks := hf.marks
  -- a move is recorded in the chaser checkpoint; without one, the checkpoint is the position
  obtain ⟨a₈, hself₈, hout₈, hchaser₈, hwriter₈, hgen₈, h⟩ : ∃ a₈ : Actor StorageChaser,
      a₈.self = a₆.self ∧ a₈.outbox = a₆.outbox ∧
      a₈.store.db.config.checkpoints.chaser.read = reached ∧
      a₈.store.db.config.checkpoints.writer = a₁.store.db.config.checkpoints.writer ∧
      a₈.store.db.generation = a₁.store.db.generation ∧ Runs (report ()) a₈ u a' := by
    split at h
    · obtain ⟨_, b₁, h₁, h⟩ := h.bind_inv
      obtain ⟨_, b₂, h₂, h⟩ := h.bind_inv
      obtain ⟨hs₁, hself₁, hout₁⟩ := Actor.runs_onStore_inv h₁
      obtain ⟨hs₂, hself₂, hout₂⟩ := Actor.runs_onStore_inv h₂
      obtain ⟨hchaser, hwriter, hgen⟩ := runs_storeChaserCheckpoint hs₁ hs₂
      obtain ⟨c₃, b₃, h₃, h⟩ := h.bind_inv
      obtain ⟨hc₃, hb₃⟩ := Actor.runs_me_inv h₃
      subst c₃ b₃
      have hb₂ : b₂.self = a₆.self ∧ b₂.outbox = a₆.outbox :=
        ⟨hself₂.trans hself₁, hout₂.trans hout₁⟩
      have hw₂ := hwriter.trans hmarks.writer
      have hg₂ := hgen.trans hmarks.generation
      -- on a replica the position reached is also committed, which moves no checkpoint
      extract_lets state at h
      split at h
      · obtain ⟨⟨⟩, b₄, h₄, h⟩ := h.bind_inv
        obtain ⟨hs₄, hself₄, hout₄⟩ := Actor.runs_onStore_inv h₄
        have hk := marksKept_raiseCommit _ hs₄
        exact ⟨b₄, hself₄.trans hb₂.1, hout₄.trans hb₂.2,
          (congrArg Checkpoint.read hk.chaser).trans hchaser,
          hk.writer.trans hw₂, hk.generation.trans hg₂, h⟩
      · exact ⟨b₂, hb₂.1, hb₂.2, hchaser, hw₂, hg₂, h⟩
    · rename_i hsame
      have hstay : a₁.self.position = reached := Decidable.of_not_not hsame
      refine ⟨a₆, rfl, rfl, ?_, hmarks.writer, hmarks.generation, h⟩
      rw [hmarks.chaser, ← hstay, hpos₁, hstore₁]
  -- the report of catching up is made only once the chaser reached the writer
  unfold report at h
  obtain ⟨c₄, b₅, h₅, h⟩ := h.bind_inv
  obtain ⟨hc₄, hb₅⟩ := Actor.runs_me_inv h₅
  subst c₄ b₅
  obtain ⟨hstore', hpos', hgen', hreport⟩ : a'.store = a₈.store ∧
      a'.self.position = a₈.self.position ∧ a'.self.generation = a₈.self.generation ∧
      (a'.outbox = a₈.outbox ∨ ∃ corr, a'.outbox = a₈.outbox.push (.system (.chaserCaughtUp corr)) ∧
        a₁.store.db.config.checkpoints.writer.read ≤ reached) := by
    split at h
    · rename_i corr _
      split at h
      · rename_i hcaught
        obtain ⟨_, b₆, h₆, h⟩ := h.bind_inv
        rw [Runs.modify_inv h₆] at h
        rw [Actor.runs_publish_inv h]
        exact ⟨rfl, rfl, rfl, .inr ⟨corr, rfl, hcaught⟩⟩
      · obtain ⟨-, rfl⟩ := Runs.pure_inv h
        exact ⟨rfl, rfl, rfl, .inl rfl⟩
    · obtain ⟨-, rfl⟩ := Runs.pure_inv h
      exact ⟨rfl, rfl, rfl, .inl rfl⟩
  -- the chaser ends at its checkpoint, in the current generation, within the writer checkpoint
  have hwriter' : a'.store.db.config.checkpoints.writer.read =
      a₁.store.db.config.checkpoints.writer.read := by
    rw [hstore', hwriter₈]
  have hchaser' : a'.store.db.config.checkpoints.chaser.read = reached := by
    rw [hstore', hchaser₈]
  have hposition' : a'.self.position = reached := by
    rw [hpos', hself₈]
  have hgeneration' : a'.self.generation = a'.store.db.generation := by
    rw [hgen', hself₈, hf.generation, hgen₁, hstore', hgen₈, hstore₁]
  refine ⟨⟨?_, fun _ => hposition'.trans hchaser'.symm, Nat.le_of_eq hgeneration'⟩,
    hgeneration', ?_⟩
  · rw [hchaser', hwriter']
    exact hreached
  · have hout : a₈.outbox = a.outbox := by
      rw [hout₈, hf.outbox, hout₁]
    rcases hreport with hsame | ⟨corr, hpush, hcaught⟩
    · exact .inl (hsame.trans hout)
    · refine .inr ⟨corr, by rw [hpush, hout], ?_⟩
      rw [hchaser', hwriter']
      exact Int.le_antisymm hreached hcaught

end StorageChaser

/-! ## Runs of a node's storage -/

/-- The steps that move a node's storage as the chaser sees it. -/
inductive ChaserStep : Actor StorageChaser → Actor StorageChaser → Prop
  /-- An operation of the chunk writer other than truncation, flushes included, that does not
  move the flushed writer checkpoint back. -/
  | write {a : Actor StorageChaser} {s : Store} (op : WriterOp) (hop : op.isTruncate = false)
      (h : Runs op.run a.store () s)
      (hforward : a.store.db.config.checkpoints.writer.read ≤ s.db.config.checkpoints.writer.read) :
      ChaserStep a { a with store := s }
  /-- A truncation of the log, then of the epoch history at the writer's new position. -/
  | truncate {a : Actor StorageChaser} {s₁ s₂ : Store} (position : Int)
      (h₁ : Runs (truncateWriter position) a.store () s₁)
      (h₂ : Runs (epochsTruncated s₁.writer.position) s₁ () s₂) :
      ChaserStep a { a with store := s₂ }
  /-- A pass of the chaser. -/
  | chase {a a' : Actor StorageChaser} (h : Runs StorageChaser.chase a () a') : ChaserStep a a'

namespace ChaserBehind

variable {a a' : Actor StorageChaser}

/-- A chaser made for a store whose chaser checkpoint is at most its writer checkpoint is behind
the writer. -/
theorem ofStore (s : Store) (out : Array Message)
    (h : s.db.config.checkpoints.chaser.read ≤ s.db.config.checkpoints.writer.read) :
    ChaserBehind ⟨s, StorageChaser.ofStore s, out⟩ :=
  ⟨h, fun _ => rfl, Nat.le_refl _⟩

/-- An operation of the writer keeps the chaser checkpoint and the generation, and by its premise
does not move the writer checkpoint back. -/
theorem write {s : Store} (hb : ChaserBehind a) {op : WriterOp} (hop : op.isTruncate = false)
    (h : Runs op.run a.store () s)
    (hforward : a.store.db.config.checkpoints.writer.read ≤ s.db.config.checkpoints.writer.read) :
    ChaserBehind { a with store := s } := by
  have hm := WriterOp.writerMoves_run op hop h
  have hchaser : s.db.config.checkpoints.chaser.read = a.store.db.config.checkpoints.chaser.read :=
    congrArg Checkpoint.read hm.chaser
  refine ⟨?_, fun hgen => ?_, ?_⟩
  · calc s.db.config.checkpoints.chaser.read
        = a.store.db.config.checkpoints.chaser.read := hchaser
      _ ≤ a.store.db.config.checkpoints.writer.read := hb.checkpoint
      _ ≤ s.db.config.checkpoints.writer.read := hforward
  · rw [hchaser]
    exact hb.position (hgen.trans hm.generation)
  · exact hm.generation ▸ hb.generation

/-- A truncation pulls both checkpoints back to one position and leaves the chaser a generation
behind. -/
theorem truncate {s₁ s₂ : Store} (hb : ChaserBehind a) {T : Int}
    (h₁ : Runs (truncateWriter T) a.store () s₁)
    (h₂ : Runs (epochsTruncated s₁.writer.position) s₁ () s₂) :
    ChaserBehind { a with store := s₂ } := by
  obtain ⟨-, hgen, -, T', hclamp, -⟩ := runs_truncateWriter_inv h₁
  have hk := marksKept_epochsTruncated _ h₂
  have hgen₂ : s₂.db.generation = a.store.db.generation + 1 := hk.generation.trans hgen
  refine ⟨?_, fun hsame => ?_, ?_⟩
  · -- both checkpoints end at most the position rolled back to, each at most where it was
    rw [hk.chaser, hk.writer, hclamp.chaser, hclamp.writer]
    have hle := hb.checkpoint
    omega
  · -- the chaser's generation is older than the one the truncation counts
    have hlt : a.self.generation < s₂.db.generation := by
      rw [hgen₂]
      exact Nat.lt_succ_of_le hb.generation
    exact absurd hsame (Nat.ne_of_lt hlt)
  · show a.self.generation ≤ s₂.db.generation
    rw [hgen₂]
    exact Nat.le_succ_of_le hb.generation

/-- A pass of the chaser keeps it behind the writer. -/
theorem chase (hb : ChaserBehind a) (h : Runs StorageChaser.chase a () a') : ChaserBehind a' :=
  (StorageChaser.runs_chase_inv h hb).1

/-- Every step keeps the chaser behind the writer. -/
theorem step (hb : ChaserBehind a) : ChaserStep a a' → ChaserBehind a'
  | .write _ hop h hforward => hb.write hop h hforward
  | .truncate _ h₁ h₂ => hb.truncate h₁ h₂
  | .chase h => hb.chase h

/-- Every run keeps the chaser behind the writer. -/
theorem reaches (hb : ChaserBehind a) (h : Relation.ReflTransGen ChaserStep a a') :
    ChaserBehind a' := by
  induction h with
  | refl => exact hb
  | tail _ hstep ih => exact ih.step hstep

/-- Reopening the database with the checkpoints it has passes the check of the chaser against
the writer: whenever its chunks load, it opens. -/
theorem openChunks (hb : ChaserBehind a) {w w' : World} {cs : List Chunk}
    (h : Runs a.store.db.config.loadChunks w cs w') :
    Runs (ChunkDb.openChunks a.store.db.config) w
      { config := a.store.db.config, chunks := cs } w' := by
  unfold ChunkDb.openChunks
  refine Runs.bind h ?_
  dsimp only
  rw [if_neg (Int.not_lt.2 hb.checkpoint)]
  exact Runs.pure _ _

end ChaserBehind

/-- In every state reached from one where the chaser is behind the writer: the chaser checkpoint
is at most the writer checkpoint; the chaser's position is within the writer checkpoint whenever
the chaser belongs to the current generation; reopening the database with its checkpoints passes
the check of the chaser against the writer; and the next pass of the chaser joins the current
generation and reports catching up only with the chaser checkpoint at the writer checkpoint. -/
theorem chaser_stays_behind_writer {a₀ a : Actor StorageChaser} (h₀ : ChaserBehind a₀)
    (h : Relation.ReflTransGen ChaserStep a₀ a) :
    a.store.db.config.checkpoints.chaser.read ≤ a.store.db.config.checkpoints.writer.read ∧
      (a.self.generation = a.store.db.generation →
        a.self.position ≤ a.store.db.config.checkpoints.writer.read) ∧
      (∀ w cs w', Runs a.store.db.config.loadChunks w cs w' →
        Runs (ChunkDb.openChunks a.store.db.config) w
          { config := a.store.db.config, chunks := cs } w') ∧
      ∀ a' (u : Unit), Runs StorageChaser.chase a u a' →
        a'.self.generation = a'.store.db.generation ∧ ReportsCaughtUp a a' := by
  have hb := h₀.reaches h
  refine ⟨hb.checkpoint, fun hgen => ?_, fun _ _ _ hload => hb.openChunks hload,
    fun _ _ hchase => (StorageChaser.runs_chase_inv hchase hb).2⟩
  rw [hb.position hgen]
  exact hb.checkpoint

/-- A node with an empty log, its chaser made for it. -/
def emptyNode : Actor StorageChaser := ⟨smallEmptyLog, StorageChaser.ofStore smallEmptyLog, #[]⟩

/-- `emptyNode` after a record written, the writer flushed and a pass of the chaser. -/
def chasedNode : Actor StorageChaser :=
  let s₁ := ((ExceptT.run (WriterOp.writeRecord oneByteRecordAt).run).run emptyNode.store).2
  let s₂ := ((ExceptT.run WriterOp.flush.run).run s₁).2
  ((ExceptT.run StorageChaser.chase).run { emptyNode with store := s₂ }).2

/-- `chasedNode` is reached from `emptyNode`, where the chaser is behind the writer. -/
theorem emptyNode_reaches_chasedNode :
    ChaserBehind emptyNode ∧ Relation.ReflTransGen ChaserStep emptyNode chasedNode := by
  let s₁ := ((ExceptT.run (WriterOp.writeRecord oneByteRecordAt).run).run emptyNode.store).2
  let s₂ := ((ExceptT.run WriterOp.flush.run).run s₁).2
  have hruns :
      ((ExceptT.run (WriterOp.writeRecord oneByteRecordAt).run).run emptyNode.store).1.toOption =
        some () ∧
      ((ExceptT.run WriterOp.flush.run).run s₁).1.toOption = some () ∧
      ((ExceptT.run StorageChaser.chase).run { emptyNode with store := s₂ }).1.toOption =
        some () ∧
      emptyNode.store.db.config.checkpoints.writer.read ≤ s₁.db.config.checkpoints.writer.read ∧
      s₁.db.config.checkpoints.writer.read ≤ s₂.db.config.checkpoints.writer.read := by
    decide +kernel +revert
  obtain ⟨hwrite, hflush, hchase, hforward₁, hforward₂⟩ := hruns
  have step₁ : ChaserStep emptyNode { emptyNode with store := s₁ } :=
    ChaserStep.write _ rfl (Runs.of_toOption hwrite) hforward₁
  have step₂ : ChaserStep { emptyNode with store := s₁ } { emptyNode with store := s₂ } :=
    ChaserStep.write _ rfl (Runs.of_toOption hflush) hforward₂
  have step₃ : ChaserStep { emptyNode with store := s₂ } chasedNode :=
    ChaserStep.chase (Runs.of_toOption hchase)
  exact ⟨ChaserBehind.ofStore _ _ (Int.le_refl _),
    ((Relation.ReflTransGen.single step₁).tail step₂).tail step₃⟩

/-- A record written, flushed and chased: the chaser is at the writer checkpoint and all that the
theorem says holds there. -/
theorem chaser_behind_after_write_flush_and_pass :
    ChaserBehind emptyNode ∧ Relation.ReflTransGen ChaserStep emptyNode chasedNode ∧
      (chasedNode.store.db.config.checkpoints.chaser.read ≤
          chasedNode.store.db.config.checkpoints.writer.read ∧
        (chasedNode.self.generation = chasedNode.store.db.generation →
          chasedNode.self.position ≤ chasedNode.store.db.config.checkpoints.writer.read) ∧
        (∀ w cs w', Runs chasedNode.store.db.config.loadChunks w cs w' →
          Runs (ChunkDb.openChunks chasedNode.store.db.config) w
            { config := chasedNode.store.db.config, chunks := cs } w') ∧
        ∀ a' (u : Unit), Runs StorageChaser.chase chasedNode u a' →
          a'.self.generation = a'.store.db.generation ∧ ReportsCaughtUp chasedNode a') :=
  ⟨emptyNode_reaches_chasedNode.1, emptyNode_reaches_chasedNode.2,
    chaser_stays_behind_writer emptyNode_reaches_chasedNode.1 emptyNode_reaches_chasedNode.2⟩

/-- After a record written, flushed and chased, a truncation to the start of the log pulls both
checkpoints back to 0, while the chaser's position stays past the record until its next pass. -/
theorem chaser_position_outlives_truncation :
    let s₄ := ((ExceptT.run (truncateWriter 0)).run chasedNode.store).2
    let s₅ := ((ExceptT.run (epochsTruncated s₄.writer.position)).run s₄).2
    Relation.ReflTransGen ChaserStep emptyNode { chasedNode with store := s₅ } ∧
      s₅.db.config.checkpoints.writer.read < chasedNode.self.position := by
  intro s₄ s₅
  have hruns : ((ExceptT.run (truncateWriter 0)).run chasedNode.store).1.toOption = some () ∧
      ((ExceptT.run (epochsTruncated s₄.writer.position)).run s₄).1.toOption = some () ∧
      s₅.db.config.checkpoints.writer.read < chasedNode.self.position := by
    decide +kernel +revert
  obtain ⟨htruncate, hepochs, hpast⟩ := hruns
  have htruncate : Runs (truncateWriter 0) chasedNode.store () s₄ := Runs.of_toOption htruncate
  have hstep : ChaserStep chasedNode { chasedNode with store := s₅ } :=
    ChaserStep.truncate 0 htruncate (Runs.of_toOption hepochs)
  exact ⟨emptyNode_reaches_chasedNode.2.tail hstep, hpast⟩

end EventStore
