import Mathlib.Logic.Relation
import EventStore.Proofs.Log.RoundTrip
import EventStore.Proofs.Store.EpochChain
import EventStore.Proofs.Service.WriteRanges
import EventStore.Proofs.Store.WriterSync

/-!
# The epoch cache follows the history

A node's epoch bookkeeping caches the newest epochs of the history that ends at its newest epoch
and keeps the epoch checkpoint at that epoch. It rebuilds the cache from the log, by following
links back from the epoch checkpoint or, when the checkpoint is lost, by scanning the log below
the writer checkpoint (`reloadEpochs`); it writes the record of a new epoch and caches it
(`writeNewEpoch`); it caches an epoch that is already in the log (`cacheEpoch`); and after a
truncation it forgets the epochs past it, rebuilding the cache if none is left
(`epochsTruncated`).

Over a laid-out log, each of these keeps `EpochsKept`: the cache is the newest part of a history
of the log below the writer checkpoint, the epoch checkpoint points at the end of that history,
and a lost checkpoint leaves nothing cached over a log whose epochs below the writer checkpoint
form one history. A log whose epochs form one history, with nothing cached, starts it
(`EpochsKept.of_epochLog`).

Main statement: `epoch_lookups_follow_history`. After any sequence of these steps from such a
log, the history that ends at the newest epoch exists, and every lookup answers as it does.
-/

namespace EventStore

open Store Record

/-! ## Store actions of the epoch bookkeeping -/

namespace Store

variable {ε : Type} {s s' : Store}

/-- Storing the epoch checkpoint writes and flushes it, and moves nothing else a layout or the
epoch bookkeeping reads. -/
theorem runs_storeEpochCheckpoint {p : Int} {u : Unit}
    (h : Runs (storeEpochCheckpoint p : StoreM ε Unit) s u s') :
    s'.db.config.checkpoints.epoch.read = p ∧ s'.epochs = s.epochs ∧
      s'.db.config.checkpoints.writer = s.db.config.checkpoints.writer ∧
      ∀ plan, Layout s plan → Layout s' plan := by
  unfold storeEpochCheckpoint modifyCheckpoints at h
  obtain ⟨⟨⟩, s₁, h₁, h₂⟩ := h.bind_inv
  rw [Runs.modify_inv h₁] at h₂
  obtain ⟨-, rfl⟩ := Runs.unique h₂ (runs_flushCheckpointOf _ _ _)
  refine ⟨(Checkpoint.flush_spec _ _).2.2, rfl, rfl, fun plan hl => ?_⟩
  exact { laid := hl.laid.flush _, sound := hl.sound, position := hl.position,
          written := hl.written, current := hl.current }

/-- Replacing the cache keeps the layout. -/
theorem layout_setCachedEpochs {plan : List (List Record)} (hl : Layout s plan) (es : List Epoch) :
    Layout { s with epochs.epochs := es } plan :=
  hl.of_parts rfl rfl rfl rfl rfl rfl rfl rfl

/-- Caching an epoch either finds it the newest already and changes nothing, or finds it after
the newest in number and position, caches it and points the epoch checkpoint at it. -/
theorem runs_cacheEpoch_inv {e : Epoch} {u : Unit} (h : Runs (cacheEpoch e) s u s') :
    (s.epochs.epochs.getLast? = some e ∧ s' = s) ∨
      ((∀ l ∈ s.epochs.epochs.getLast?,
          l.epochNumber < e.epochNumber ∧ l.epochPosition < e.epochPosition) ∧
        Runs (storeEpochCheckpoint e.epochPosition : StoreM EpochError Unit)
          { s with epochs.epochs := keepNewest s.epochs.cacheSize (s.epochs.epochs ++ [e]) } () s') := by
  unfold cacheEpoch at h
  replace h := h.bind_returns readOnly_cachedEpochs rfl
  extract_lets jp at h
  -- an epoch in order is cached and made the checkpoint's
  have hjp : ∀ v : Unit, Runs (jp v) s u s' →
      Runs (storeEpochCheckpoint e.epochPosition : StoreM EpochError Unit)
        { s with epochs.epochs := keepNewest s.epochs.cacheSize (s.epochs.epochs ++ [e]) } () s' := by
    intro v hv
    replace hv := hv.bind_returns ReadOnly.get rfl
    obtain ⟨⟨⟩, s₃, h₃, hv⟩ := hv.bind_inv
    rw [Runs.modify_inv h₃] at hv
    obtain rfl : u = () := rfl
    exact hv
  rcases hlast : s.epochs.epochs.getLast? with _ | last <;> rw [hlast] at h <;> dsimp only at h
  · exact .inr ⟨nofun, hjp () h⟩
  · split at h
    · rename_i heq
      obtain ⟨-, rfl⟩ := Runs.pure_inv h
      exact .inl ⟨heq ▸ rfl, rfl⟩
    · split at h
      · obtain ⟨_, _, hf, -⟩ := h.bind_inv
        exact absurd hf Runs.not_fail
      · rename_i hin
        simp only [Bool.or_eq_true, decide_eq_true_eq, not_or, Int.not_le] at hin
        exact .inr ⟨fun l hl => (Option.some.inj hl) ▸ hin, hjp () h⟩

/-- The epoch a new term writes at position `p`: one past the newest cached epoch and linked to
it, or the first epoch when nothing is cached, with the identifier the world draws next. -/
def nextEpoch (s : Store) (leader : Uuid) (p : Int) : Epoch :=
  ⟨p, s.epochs.epochs.getLast?.elim 0 fun l => Word.signed 32 (l.epochNumber + 1),
    ⟨freshIdBase + s.world.fresh⟩, s.epochs.epochs.getLast?.elim (-1) (·.epochPosition), wallClock,
    leader⟩

/-- Writing a new epoch draws an identifier, writes the epoch's record where the writer lands,
flushes the writer and caches the epoch. -/
theorem runs_writeNewEpoch_inv {leader : Uuid} {e : Epoch} (h : Runs (writeNewEpoch leader) s e s') :
    ∃ st en s₂ s₃, Runs (writeRecord fun p => (s.nextEpoch leader p).toRecord)
        { s with world.fresh := s.world.fresh + 1 } (st, en) s₂ ∧
      Runs (flushWriter : StoreM EpochError Unit) s₂ () s₃ ∧ e = s.nextEpoch leader st ∧
      Runs (cacheEpoch e) s₃ () s' := by
  unfold writeNewEpoch at h
  replace h := h.bind_returns (readOnly_cachedEpochs.bind fun _ => ReadOnly.pure _) rfl
  dsimp only at h
  obtain ⟨id, s₁, h₁, h⟩ := h.bind_inv
  obtain ⟨w, hw, rfl⟩ := Runs.onWorld_inv h₁
  obtain ⟨rfl, rfl⟩ := Runs.modifyGet_inv hw
  obtain ⟨⟨st, en⟩, s₂, h₂, h⟩ := h.bind_inv
  obtain ⟨⟨⟩, s₃, h₃, h⟩ := h.bind_inv
  obtain ⟨⟨⟩, s₄, h₄, h⟩ := h.bind_inv
  obtain ⟨rfl, rfl⟩ := Runs.pure_inv h
  exact ⟨st, en, s₂, s₃, Runs.wrap_inv h₂, h₃, rfl, h₄⟩

end Store

/-! ## Epochs on a growing log -/

section Growing

variable {s : Store} {plan plan' : List (List Record)} {added : List Record}

/-- Drawing an identifier from the world keeps the layout: the chunks' handles stay below the
world's counter. -/
theorem Layout.drawFresh (hl : Layout s plan) :
    Layout { s with world.fresh := s.world.fresh + 1 } plan where
  laid := { hl.laid with fresh := fun c hc => Nat.lt_succ_of_lt (hl.laid.fresh c hc) }
  sound := hl.sound
  position := hl.position
  written := hl.written
  current := hl.current

/-- The records of a layout stand at positions a 64-bit word holds. -/
theorem Layout.word_logPosition (hl : Layout s plan) {r : Record} (hr : r ∈ plan.flatten) :
    0 ≤ r.logPosition ∧ r.logPosition < Nat.pow 2 63 := by
  have hend := hl.record_lt_end (a := 0) (by rwa [List.drop_zero])
  exact ⟨hl.records_ordered.2 r hr, Int.lt_trans hend (Int.ofNat_lt.2 hl.laid.span_lt)⟩

/-- A logged epoch stands at a position a 64-bit word holds. -/
theorem Logged.word_position (hl : Layout s plan) {e : Epoch} (h : Logged plan e) :
    Word.signed 64 e.epochPosition = e.epochPosition := by
  obtain ⟨r, hr, hpos, -⟩ := h
  obtain ⟨h0, h1⟩ := hl.word_logPosition hr
  rw [← hpos]
  exact Word.pos_of_lt h0 h1

/-- A history of a log is a history of the log with records added after it. -/
theorem EpochChain.append_log {es : List Epoch} (h : EpochChain plan es)
    (hplan : plan'.flatten = plan.flatten ++ added) : EpochChain plan' es where
  logged e he := (h.logged e he).append hplan
  first := h.first
  linked := h.linked

/-- The epoch a new term writes fits the widths of its record's fields at every position a log can
reach, when the world's next identifier fits 128 bits, the leader's identifier fits, and the
newest cached epoch stands at a position a word holds. -/
theorem fits_nextEpoch {leader : Uuid} (hfresh : freshIdBase + s.world.fresh < Nat.pow 2 128)
    (hleader : leader.Fits)
    (hprev : ∀ l ∈ s.epochs.epochs.getLast?, Word.signed 64 l.epochPosition = l.epochPosition)
    {p : Int} (h0 : 0 ≤ p) (h1 : p < Nat.pow 2 63) : (s.nextEpoch leader p).Fits := by
  have hclock : Word.signed 64 wallClock = wallClock := Word.pos_of_lt (by decide) (by decide)
  unfold Store.nextEpoch
  refine ⟨Word.pos_of_lt h0 h1, ?_, hfresh, ?_, hclock, hleader⟩
  · -- one past a number is wrapped to 32 bits already
    rcases s.epochs.epochs.getLast? with _ | l
    · exact (by decide : Word.signed 32 0 = 0)
    · exact Int.bmod_bmod
  · rcases hl : s.epochs.epochs.getLast? with _ | l
    · exact (by decide : Word.signed 64 (-1) = -1)
    · exact hprev l hl

/-- The record of a new term's epoch is one the writer takes. -/
theorem builds_nextEpoch {leader : Uuid} (hfresh : freshIdBase + s.world.fresh < Nat.pow 2 128)
    (hleader : leader.Fits)
    (hprev : ∀ l ∈ s.epochs.epochs.getLast?, Word.signed 64 l.epochPosition = l.epochPosition) :
    Builds fun p => (s.nextEpoch leader p).toRecord := by
  intro p h0 h1
  have hmax : (s.nextEpoch leader p).toRecord.encode.length ≤ maxRecordSize := by
    rw [Epoch.length_encode_toRecord]
    decide
  exact ⟨rfl, Record.fits_of_words (Epoch.toRecord_words (fits_nextEpoch hfresh hleader hprev h0 h1))
    hmax, hmax⟩

/-- Writing and flushing the record of a new term's epoch on a laid-out log: the log gains the
record, which carries the epoch at the position it lands at, past every epoch logged before and
below the flushed writer checkpoint; the cache stays. -/
theorem runs_writeEpochRecord (hl : Layout s plan) {leader : Uuid}
    (hfresh : freshIdBase + s.world.fresh < Nat.pow 2 128) (hleader : leader.Fits)
    (hprev : ∀ l ∈ s.epochs.epochs.getLast?, Word.signed 64 l.epochPosition = l.epochPosition)
    {st en : Int} {s₂ s₃ : Store}
    (hw : Runs (writeRecord fun p => (s.nextEpoch leader p).toRecord)
      { s with world.fresh := s.world.fresh + 1 } (st, en) s₂)
    (hf : Runs (flushWriter : StoreM EpochError Unit) s₂ () s₃) :
    ∃ plan', Layout s₃ plan' ∧ plan'.flatten = plan.flatten ++ [(s.nextEpoch leader st).toRecord] ∧
      Logged plan' (s.nextEpoch leader st) ∧ (∀ x, Logged plan x → x.epochPosition < st) ∧
      st < s₃.db.config.checkpoints.writer.read ∧ s₃.epochs = s.epochs := by
  obtain ⟨-, plan', hl₂, hflat, -, hen, hwp, -, -⟩ :=
    runs_writeRecord hl.drawFresh (builds_nextEpoch hfresh hleader hprev) hw
  obtain ⟨hl₃, hread, -⟩ := runs_flushWriter_layout hl₂ hf
  have hmv : WriterMoves _ s₃ :=
    writerMoves.trans (writerMoves_writeRecord _ hw) (writerMoves_flushWriter hf)
  -- the new record stands past every record before it, below the flushed writer checkpoint
  have hrec : (s.nextEpoch leader st).toRecord ∈ plan'.flatten := by simp [hflat]
  have hpast : ∀ x, Logged plan x → x.epochPosition < st := by
    rintro x ⟨r, hr, hpos, -⟩
    have hle : r.logPosition + r.framed.length ≤ st :=
      (List.pairwise_append.1 (hflat ▸ hl₂.records_ordered.1)).2.2 r hr _
        (List.mem_singleton_self _)
    have := length_framed_pos r
    omega
  have hW : st < s₃.db.config.checkpoints.writer.read := by
    have := length_framed_pos (s.nextEpoch leader st).toRecord
    rw [hread, (Appended.flushWriter hl₂ hf).2, hwp, hen]
    omega
  obtain ⟨h0, h1⟩ := hl₂.word_logPosition hrec
  have hnew : Logged plan' (s.nextEpoch leader st) :=
    ⟨_, hrec, rfl, Epoch.epoch?_toRecord (fits_nextEpoch (p := st) hfresh hleader hprev h0 h1)⟩
  exact ⟨plan', hl₃, hflat, hnew, hpast, hW, hmv.epochs⟩

/-- A scan is fixed by where it starts. -/
theorem Scans.unique {limit p : Int} {es es' : List (Record × Int)} (h : Scans s limit p es)
    (h' : Scans s limit p es') : es = es' := by
  -- induction on the first scan, each read of the second agreeing with the first's
  induction h generalizing es' with
  | last hr =>
    cases h' with
    | last _ => rfl
    | beyond hr' _ => cases hr.unique hr'
    | next hr' _ _ => cases hr.unique hr'
  | beyond hr hlim =>
    cases h' with
    | last hr' => cases hr.unique hr'
    | beyond _ _ => rfl
    | next hr' hlim' _ =>
      cases hr.unique hr'
      omega
  | next hr hlim _ ih =>
    cases h' with
    | last hr' => cases hr.unique hr'
    | beyond hr' hlim' =>
      cases hr.unique hr'
      omega
    | next hr' _ hrest =>
      cases hr.unique hr'
      rw [ih hrest]

/-- A store fixes the records of its log: two layouts of it hold the records a scan from the start
reads. -/
theorem Layout.flatten_eq (hl : Layout s plan) (hl' : Layout s plan')
    (hn : s.db.chunks.length < Nat.pow 2 32) : plan.flatten = plan'.flatten :=
  List.map_injective_iff.2 (fun _ _ h => congrArg Prod.fst h)
    ((hl.scans_log hn).unique (hl'.scans_log hn))

end Growing

/-! ## What the bookkeeping keeps -/

section Kept

variable {plan : List (List Record)} {W : Int}

/-- Below position `W` the epoch records of the log of `plan` stand at the positions their epochs
name, and in log order they form one history. -/
structure OneHistoryBelow (plan : List (List Record)) (W : Int) : Prop where
  own : ∀ r ∈ plan.flatten, r.logPosition < W → ∀ e ∈ r.epoch?, e.epochPosition = r.logPosition
  chain : EpochChain plan (epochsBelow plan W)

/-- The epochs of such a log below `W` stand below `W`. -/
theorem OneHistoryBelow.below (h : OneHistoryBelow plan W) :
    ∀ e ∈ epochsBelow plan W, e.epochPosition < W := by
  intro e he
  obtain ⟨r, hr, hre⟩ := List.mem_filterMap.1 he
  obtain ⟨hr, hW⟩ := List.mem_filter.1 hr
  have hW : r.logPosition < W := by simpa using hW
  rw [h.own r hr hW e hre]
  exact hW

/-- A log whose epoch records below the writer checkpoint form one history, each at its own
position, with the epoch checkpoint, when set, at one of them: where a node's epoch bookkeeping
starts. -/
structure EpochLog (s : Store) (plan : List (List Record)) : Prop where
  layout : Layout s plan
  history : OneHistoryBelow plan s.db.config.checkpoints.writer.read
  checkpoint : 0 ≤ s.db.config.checkpoints.epoch.read →
    ∃ e ∈ epochsBelow plan s.db.config.checkpoints.writer.read,
      e.epochPosition = s.db.config.checkpoints.epoch.read

/-- The history `hist` ends at the epoch the epoch checkpoint of `s` points at, when it is set. -/
def EndsAtCheckpoint (s : Store) (hist : List Epoch) : Prop :=
  0 ≤ s.db.config.checkpoints.epoch.read →
    ∃ e ∈ hist.getLast?, e.epochPosition = s.db.config.checkpoints.epoch.read

/-- What the epoch bookkeeping of `s` keeps true of its laid-out log `plan`: the cache is the
newest part of a history of the log below the writer checkpoint, which ends where the epoch
checkpoint points; and with the checkpoint lost nothing is cached, and the epoch records below the
writer checkpoint form one history. -/
structure EpochsKept (s : Store) (plan : List (List Record)) : Prop where
  layout : Layout s plan
  history : ∃ hist, CachesHistory s plan hist ∧ EndsAtCheckpoint s hist
  lost : s.db.config.checkpoints.epoch.read < 0 →
    s.epochs.epochs = [] ∧ OneHistoryBelow plan s.db.config.checkpoints.writer.read

/-- The log of `plan` holds `e` below the writer checkpoint of `s`, right after the epoch the epoch
checkpoint points at, or as the first epoch of a history when the checkpoint is lost: the epoch a
node caches next when it caches the epochs of its log in order. -/
structure NextInLog (s : Store) (plan : List (List Record)) (e : Epoch) : Prop where
  logged : Logged plan e
  below : e.epochPosition < s.db.config.checkpoints.writer.read
  follows : 0 ≤ s.db.config.checkpoints.epoch.read →
    ∃ l, Logged plan l ∧ l.epochPosition = s.db.config.checkpoints.epoch.read ∧ Epoch.Follows l e
  first : s.db.config.checkpoints.epoch.read < 0 → e.prevEpochPosition < 0

/-- The next epoch of a log is the next epoch of any layout with the same records. -/
theorem NextInLog.of_flatten {plan' : List (List Record)} {e : Epoch} (h : NextInLog s plan' e)
    (hflat : plan'.flatten = plan.flatten) : NextInLog s plan e where
  logged := h.logged.append (by rw [hflat, List.append_nil])
  below := h.below
  follows hck := by
    obtain ⟨l, hl, hpos, hfol⟩ := h.follows hck
    exact ⟨l, hl.append (by rw [hflat, List.append_nil]), hpos, hfol⟩
  first := h.first

/-- One step of a node's epoch bookkeeping that returns: rebuilding the cache from the log, writing
a new epoch, caching the next epoch of the log or the newest one again, and forgetting the epochs
past a truncation point. A step that reads the log has fewer than `2 ^ 32` chunks to read; a new
epoch gets an identifier of 128 bits and a leader whose identifier fits. -/
inductive EpochStep : Store → Store → Prop
  | reload {s s' : Store} {u : Unit} (hn : s.db.chunks.length < Nat.pow 2 32)
      (hr : Runs reloadEpochs s u s') : EpochStep s s'
  | writeNew {s s' : Store} {leader : Uuid} {e : Epoch}
      (hfresh : freshIdBase + s.world.fresh < Nat.pow 2 128) (hleader : leader.Fits)
      (hr : Runs (writeNewEpoch leader) s e s') : EpochStep s s'
  | cache {s s' : Store} {e : Epoch} {u : Unit} (hn : s.db.chunks.length < Nat.pow 2 32)
      (hnext : (∃ plan, Layout s plan ∧ NextInLog s plan e) ∨ s.epochs.epochs.getLast? = some e)
      (hr : Runs (cacheEpoch e) s u s') : EpochStep s s'
  | truncated {s s' : Store} {p : Int} {u : Unit} (hn : s.db.chunks.length < Nat.pow 2 32)
      (hr : Runs (epochsTruncated p) s u s') : EpochStep s s'

/-- A nonempty end of a list ends where the list does. -/
theorem getLast?_of_suffix {l l' : List Epoch} (h : l <:+ l') {x : Epoch}
    (hx : l.getLast? = some x) : l'.getLast? = some x := by
  obtain ⟨t, rfl⟩ := h
  simp [List.getLast?_append, hx]

namespace EpochsKept

variable {s s' : Store}

/-- A log whose epochs form one history, with nothing cached, is where the bookkeeping starts: the
history up to the epoch checkpoint's epoch is the one the empty cache is the end of. -/
theorem of_epochLog (h : EpochLog s plan) (hempty : s.epochs.epochs = []) : EpochsKept s plan where
  layout := h.layout
  history := by
    by_cases hck : 0 ≤ s.db.config.checkpoints.epoch.read
    · obtain ⟨e, he, hpos⟩ := h.checkpoint hck
      obtain ⟨a, b, hab⟩ := List.append_of_mem he
      have hchain : EpochChain plan ((a ++ [e]) ++ b) := by
        rw [List.append_assoc, List.singleton_append, ← hab]
        exact h.history.chain
      refine ⟨a ++ [e], ⟨hchain.of_append, fun x hx => h.history.below x ?_, ?_⟩, fun _ => ?_⟩
      · rw [hab]
        rcases List.mem_append.1 hx with hx | hx
        · exact List.mem_append_left _ hx
        · exact List.mem_append_right _ (List.mem_cons.2 (.inl (List.mem_singleton.1 hx)))
      · rw [hempty]
        exact List.nil_suffix
      · exact ⟨e, by simp, hpos⟩
    · exact ⟨[], ⟨EpochChain.nil, nofun, List.suffix_nil.2 hempty⟩,
      fun hck' => absurd hck' hck⟩
  lost hlt := ⟨hempty, h.history⟩

/-- Forgetting the whole cache keeps the bookkeeping. -/
theorem forget (h : EpochsKept s plan) : EpochsKept { s with epochs.epochs := [] } plan where
  layout := layout_setCachedEpochs h.layout []
  history := by
    obtain ⟨hist, hc, hend⟩ := h.history
    exact ⟨hist, ⟨hc.chain, hc.below, List.nil_suffix⟩, hend⟩
  lost hlt := ⟨rfl, (h.lost hlt).2⟩

/-- Caching `e` after a cache that is the newest part of a history whose next epoch is `e`, all of
it below the writer checkpoint, and pointing the epoch checkpoint at `e`, keeps the
bookkeeping. -/
theorem of_cached (hl : Layout s plan) {hist : List Epoch} {e : Epoch}
    (hchain : EpochChain plan (hist ++ [e]))
    (hbelow : ∀ x ∈ hist, x.epochPosition < s.db.config.checkpoints.writer.read)
    (he : e.epochPosition < s.db.config.checkpoints.writer.read) (hsuffix : s.epochs.epochs <:+ hist) {u : Unit}
    (hr : Runs (storeEpochCheckpoint e.epochPosition : StoreM EpochError Unit)
      { s with epochs.epochs := keepNewest s.epochs.cacheSize (s.epochs.epochs ++ [e]) } u s') :
    EpochsKept s' plan := by
  obtain ⟨hck, hep, hwr, hlay⟩ := runs_storeEpochCheckpoint hr
  have hnonneg := (hchain.logged e (by simp)).nonneg hl
  have hbelow' : ∀ x ∈ hist ++ [e], x.epochPosition < s'.db.config.checkpoints.writer.read := by
    rw [hwr]
    intro x hx
    rcases List.mem_append.1 hx with hx | hx
    · exact hbelow x hx
    · exact (List.mem_singleton.1 hx) ▸ he
  refine ⟨hlay _ (layout_setCachedEpochs hl _),
    ⟨hist ++ [e], ⟨hchain, hbelow', ?_⟩, fun _ => ⟨e, by simp, hck.symm⟩⟩,
    fun hlt => absurd hlt (by omega)⟩
  rw [hep]
  obtain ⟨t, rfl⟩ := hsuffix
  exact (keepNewest_suffix _ _).trans ⟨t, by simp⟩

/-- Rebuilding the cache keeps the bookkeeping: following links back from the epoch checkpoint
gives the newest part of the history ending there, and a scan of a log whose epochs form one
history gives the newest part of that history and points the checkpoint at its end. -/
theorem reload (h : EpochsKept s plan) (hn : s.db.chunks.length < Nat.pow 2 32) {u : Unit}
    (hr : Runs reloadEpochs s u s') :
    EpochsKept s' plan := by
  obtain ⟨hist, hc, hend⟩ := h.history
  unfold reloadEpochs setCachedEpochs at hr
  replace hr := hr.bind_returns readOnly_checkpoints rfl
  replace hr := hr.bind_returns ReadOnly.get rfl
  extract_lets size setCache at hr
  -- every branch ends by caching what it found
  have hset : ∀ {es : List Epoch} {s₁ : Store} {v : Unit}, Runs (setCache es) s₁ v s' →
      s' = { s₁ with epochs.epochs := es } := fun h => Runs.modify_inv h
  split at hr
  · -- from the epoch checkpoint: the newest part of the history that ends there
    rename_i hck
    obtain ⟨es, s₁, h₁, h₂⟩ := hr.bind_inv
    rw [hset h₂]
    obtain ⟨e, he, hpos⟩ := hend hck
    have hreach : Reaches s.db.config.checkpoints.epoch.read hist := by
      simp only [Reaches, Option.mem_def.1 he, Option.elim_some, hpos]
    obtain ⟨rfl, hs₁⟩ := Runs.unique h₁
      (returns_epochChain h.layout hn s.epochs.cacheSize hc.chain hreach)
    subst s₁
    refine ⟨layout_setCachedEpochs h.layout _,
      ⟨hist, ⟨hc.chain, hc.below, ?_⟩, hend⟩, fun hlt => by simp only at hlt; omega⟩
    simpa using keepNewest_suffix s.epochs.cacheSize hist
  · rename_i hck
    obtain ⟨-, hone⟩ := h.lost (by omega)
    split at hr
    · -- the checkpoint is lost: a scan of the log below the writer checkpoint
      obtain ⟨bound, s₂, h₃, hr⟩ := hr.bind_inv
      obtain ⟨rfl, hs₂⟩ := Runs.unique h₃ (returns_recordBound s)
      subst s₂
      obtain ⟨found, s₂, h₃, hr⟩ := hr.bind_inv
      obtain ⟨rfl, hs₂⟩ := Runs.unique h₃ (h.layout.returns_scanEpochs_log hn _)
      subst s₂
      extract_lets restore at hr
      have hsuffix := keepNewest_suffix s.epochs.cacheSize
        (epochsBelow plan s.db.config.checkpoints.writer.read)
      have hrestore : ∀ {s₁ : Store} (v : Unit), Runs (restore v) s₁ u s' →
          s' = { s₁ with epochs.epochs :=
            (keepNewest s.epochs.cacheSize (epochsBelow plan s.db.config.checkpoints.writer.read)) } :=
        fun _ h => by
        obtain ⟨es, s₄, h₄, h⟩ := h.bind_inv
        obtain ⟨rfl, rfl⟩ := Runs.pure_inv h₄
        exact hset h
      rcases hlast : (keepNewest s.epochs.cacheSize
          (epochsBelow plan s.db.config.checkpoints.writer.read)).getLast? with _ | last <;>
        rw [hlast] at hr <;> dsimp only at hr
      · -- nothing found: nothing cached, and the checkpoint stays lost
        rw [hrestore () hr, List.getLast?_eq_none_iff.1 hlast]
        exact (EpochsKept.forget ⟨h.layout, ⟨hist, hc, hend⟩, h.lost⟩)
      · -- the newest epoch found restores the checkpoint
        obtain ⟨⟨⟩, s₃, h₃, hr⟩ := hr.bind_inv
        rw [hrestore () hr]
        obtain ⟨hck₃, hep₃, hwr₃, hlay₃⟩ := runs_storeEpochCheckpoint h₃
        have hlog := getLast?_of_suffix hsuffix hlast
        have hnonneg := (hone.chain.logged last (List.mem_of_getLast? hlog)).nonneg h.layout
        refine ⟨layout_setCachedEpochs (hlay₃ _ h.layout) _,
          ⟨epochsBelow plan s.db.config.checkpoints.writer.read,
            ⟨hone.chain, by rw [hwr₃]; exact hone.below, by rw [hep₃]; exact hsuffix⟩,
            fun _ => ⟨last, hlog, hck₃.symm⟩⟩,
          fun hlt => absurd hlt (by simp only [hck₃]; omega)⟩
    · -- nothing below the writer checkpoint: nothing cached
      obtain ⟨es, s₁, h₁, h₂⟩ := hr.bind_inv
      obtain ⟨rfl, rfl⟩ := Runs.pure_inv h₁
      rw [hset h₂]
      exact (EpochsKept.forget ⟨h.layout, ⟨hist, hc, hend⟩, h.lost⟩)

/-- Caching the next epoch of the log, or the newest cached epoch again, keeps the bookkeeping: the
next epoch follows the one the epoch checkpoint points at, which ends the history, or starts a
history when the checkpoint is lost and nothing is cached. -/
theorem cache (h : EpochsKept s plan) {e : Epoch}
    (he : NextInLog s plan e ∨ s.epochs.epochs.getLast? = some e) {u : Unit}
    (hr : Runs (cacheEpoch e) s u s') : EpochsKept s' plan := by
  rcases runs_cacheEpoch_inv hr with ⟨-, rfl⟩ | ⟨horder, hr⟩
  · exact h
  rcases he with hnext | hlast
  swap
  · exact absurd (horder e hlast).1 (Int.lt_irrefl _)
  obtain ⟨hist, hc, hend⟩ := h.history
  by_cases hck : 0 ≤ s.db.config.checkpoints.epoch.read
  · -- the history ends at the checkpoint's epoch, which `e` follows
    obtain ⟨l, hlog, hpos, hfol⟩ := hnext.follows hck
    obtain ⟨l', hl', hpos'⟩ := hend hck
    obtain rfl : l' = l := (hc.chain.logged l' (List.mem_of_getLast? hl')).unique h.layout hlog
      (hpos'.trans hpos.symm)
    have hchain := hc.chain.concat hnext.logged (fun hnil => by simp [hnil] at hl')
      fun x hx => Option.mem_unique hl' hx ▸ hfol
    exact of_cached h.layout hchain hc.below hnext.below hc.suffix hr
  · -- a lost checkpoint: nothing is cached and `e` starts a history
    obtain ⟨hempty, -⟩ := h.lost (by omega)
    have hchain := (EpochChain.nil : EpochChain plan []).concat hnext.logged
      (fun _ => hnext.first (by omega)) nofun
    exact of_cached h.layout hchain nofun hnext.below (List.suffix_nil.2 hempty) hr

/-- Positions rise along the cache. -/
theorem cached_rising (h : EpochsKept s plan) :
    s.epochs.epochs.Pairwise fun a b => a.epochPosition < b.epochPosition := by
  obtain ⟨hist, hc, -⟩ := h.history
  exact hc.chain.pairwise_position.sublist hc.suffix.sublist

/-- Keeping an older part of the cache that is not empty, with the epoch checkpoint at its newest
epoch, keeps the bookkeeping: the history is cut back to that epoch. -/
theorem of_kept (h : EpochsKept s plan) {kept dropped : List Epoch}
    (hsplit : s.epochs.epochs = kept ++ dropped) {last : Epoch} (hlast : kept.getLast? = some last)
    {t : Store} (hl : Layout t plan) (hep : t.epochs.epochs = kept)
    (hwr : t.db.config.checkpoints.writer.read = s.db.config.checkpoints.writer.read)
    (hck : t.db.config.checkpoints.epoch.read = last.epochPosition) : EpochsKept t plan := by
  obtain ⟨hist, hc, -⟩ := h.history
  obtain ⟨older, hhist⟩ := hc.suffix
  have hchain : EpochChain plan ((older ++ kept) ++ dropped) := by
    rw [List.append_assoc, ← hsplit, hhist]
    exact hc.chain
  have hend := getLast?_of_suffix (List.suffix_append older kept) hlast
  have hnonneg := (hchain.of_append.logged last (List.mem_of_getLast? hend)).nonneg hl
  refine ⟨hl, ⟨older ++ kept, ⟨hchain.of_append, fun x hx => ?_, ?_⟩, fun _ => ⟨last, hend, hck.symm⟩⟩,
    fun hlt => by omega⟩
  · rw [hwr]
    exact hc.below x (by rw [← hhist, hsplit, ← List.append_assoc]; exact List.mem_append_left _ hx)
  · rw [hep]
    exact List.suffix_append _ _

/-- Forgetting the epochs past a truncation point keeps the bookkeeping: what is kept is the older
part of the cache, and the checkpoint is moved to its newest epoch; with nothing kept of a cache
that had epochs, the cache is rebuilt from the log. -/
theorem truncated (h : EpochsKept s plan) (hn : s.db.chunks.length < Nat.pow 2 32) {p : Int}
    {u : Unit} (hr : Runs (epochsTruncated p) s u s') : EpochsKept s' plan := by
  unfold epochsTruncated at hr
  replace hr := hr.bind_returns readOnly_cachedEpochs rfl
  obtain ⟨⟨⟩, s₁, h₁, hr⟩ := hr.bind_inv
  rw [Runs.modify_inv h₁] at hr
  -- positions rise along the cache, so what lies before the point is its older part
  have hsplit := filter_append_filter_of_rising Epoch.epochPosition h.cached_rising p
  split at hr
  · -- nothing kept of a cache that had epochs: the cache is rebuilt
    rename_i hall
    simp only [Bool.and_eq_true, List.isEmpty_iff] at hall
    rw [hall.1] at hr
    exact h.forget.reload hn hr
  · rcases hlast : (s.epochs.epochs.filter (·.epochPosition < p)).getLast? with _ | last <;>
      rw [hlast] at hr <;> dsimp only at hr
    · -- nothing kept of an empty cache
      obtain ⟨-, rfl⟩ := Runs.pure_inv hr
      rw [List.getLast?_eq_none_iff.1 hlast]
      exact h.forget
    · replace hr := hr.bind_returns readOnly_checkpoints rfl
      split at hr
      · -- the checkpoint is moved to the newest epoch kept
        obtain ⟨hck, hep, hwr, hlay⟩ := runs_storeEpochCheckpoint hr
        exact h.of_kept hsplit hlast (hlay _ (layout_setCachedEpochs h.layout _)) (by rw [hep])
          (by rw [hwr]) hck
      · -- the checkpoint is there already
        rename_i hsame
        obtain ⟨-, rfl⟩ := Runs.pure_inv hr
        exact h.of_kept hsplit hlast (layout_setCachedEpochs h.layout _) rfl rfl (not_not.1 hsame)

/-- Writing a new epoch keeps the bookkeeping over the log with the epoch's record added: the
record lands past every epoch of the log, the flushed writer checkpoint passes it, and the epoch
follows the newest cached epoch, or starts a history when nothing is cached. -/
theorem writeNew (h : EpochsKept s plan) {leader : Uuid}
    (hfresh : freshIdBase + s.world.fresh < Nat.pow 2 128) (hleader : leader.Fits) {e : Epoch}
    (hr : Runs (writeNewEpoch leader) s e s') :
    ∃ plan', EpochsKept s' plan' ∧ plan'.flatten = plan.flatten ++ [e.toRecord] := by
  obtain ⟨hist, hc, -⟩ := h.history
  have hlogged : ∀ x ∈ s.epochs.epochs, Logged plan x :=
    fun x hx => hc.chain.logged x (hc.suffix.subset hx)
  have hprev : ∀ l ∈ s.epochs.epochs.getLast?, Word.signed 64 l.epochPosition = l.epochPosition :=
    fun l hl => (hlogged l (List.mem_of_getLast? hl)).word_position h.layout
  obtain ⟨st, en, s₂, s₃, hw, hf, rfl, hcache⟩ := runs_writeNewEpoch_inv hr
  obtain ⟨plan', hl₃, hflat, hnew, hpast, hW, hep⟩ :=
    runs_writeEpochRecord h.layout hfresh hleader hprev hw hf
  refine ⟨plan', ?_, hflat⟩
  have hbelow : ∀ x ∈ hist, x.epochPosition < s₃.db.config.checkpoints.writer.read :=
    fun x hx => Int.lt_trans (hpast x (hc.chain.logged x hx)) hW
  rcases runs_cacheEpoch_inv hcache with ⟨hlast, -⟩ | ⟨horder, hr⟩
  · -- the epoch was not cached before: it stands past every logged epoch
    rw [hep] at hlast
    exact absurd (hpast _ (hlogged _ (List.mem_of_getLast? hlast))) (Int.lt_irrefl _)
  rcases hl : s.epochs.epochs.getLast? with _ | l
  · -- nothing cached: the epoch starts a history
    have hchain := (EpochChain.nil : EpochChain plan' []).concat hnew
      (fun _ => by simp [Store.nextEpoch, hl]) nofun
    exact of_cached hl₃ hchain nofun hW
      (List.suffix_nil.2 (by rw [hep]; exact List.getLast?_eq_none_iff.1 hl)) hr
  · -- the epoch follows the newest cached one, which ends the history
    have horder := horder l (by rw [hep]; exact hl)
    have hfol : Epoch.Follows l (s.nextEpoch leader st) :=
      ⟨by simp [Store.nextEpoch, hl], horder.1, horder.2⟩
    have hhl : hist.getLast? = some l := getLast?_of_suffix hc.suffix hl
    have hchain := (hc.chain.append_log hflat).concat hnew (fun hnil => by simp [hnil] at hhl)
      fun x hx => Option.mem_unique hhl hx ▸ hfol
    exact of_cached hl₃ hchain hbelow hW (by rw [hep]; exact hc.suffix) hr

/-- Every step keeps the bookkeeping, over the log as it grows. -/
theorem step (h : EpochsKept s plan) (hs : EpochStep s s') :
    ∃ plan', EpochsKept s' plan' ∧ plan.flatten <+: plan'.flatten := by
  cases hs with
  | reload hn hr => exact ⟨plan, h.reload hn hr, List.prefix_refl _⟩
  | writeNew hfresh hleader hr =>
    obtain ⟨plan', h', hflat⟩ := h.writeNew hfresh hleader hr
    exact ⟨plan', h', _, hflat.symm⟩
  | cache hn hnext hr =>
    -- the log the next epoch was found in has the records of the bookkeeping's log
    refine ⟨plan, h.cache ?_ hr, List.prefix_refl _⟩
    rcases hnext with ⟨plan₁, hl₁, hnext⟩ | hlast
    · exact .inl (hnext.of_flatten (hl₁.flatten_eq h.layout hn))
    · exact .inr hlast
  | truncated hn hr => exact ⟨plan, h.truncated hn hr, List.prefix_refl _⟩

/-- Every run of steps keeps the bookkeeping, over a log that only grows. -/
theorem reaches (h : EpochsKept s plan) (hrun : Relation.ReflTransGen EpochStep s s') :
    ∃ plan', EpochsKept s' plan' ∧ plan.flatten <+: plan'.flatten := by
  induction hrun with
  | refl => exact ⟨plan, h, List.prefix_refl _⟩
  | tail _ hs ih =>
    obtain ⟨plan₁, h₁, hp₁⟩ := ih
    obtain ⟨plan₂, h₂, hp₂⟩ := h₁.step hs
    exact ⟨plan₂, h₂, hp₁.trans hp₂⟩

/-- The history that ends at the newest cached epoch is one the cache is the newest part of: the
kept history, or none when nothing is cached. -/
theorem cachesLast (h : EpochsKept s plan) :
    ∃ hist, CachesHistory s plan hist ∧ hist.getLast? = s.epochs.epochs.getLast? := by
  obtain ⟨hist, hc, -⟩ := h.history
  rcases hl : s.epochs.epochs.getLast? with _ | l
  · exact ⟨[], ⟨EpochChain.nil, nofun, List.suffix_nil.2 (List.getLast?_eq_none_iff.1 hl)⟩,
      rfl⟩
  · exact ⟨hist, hc, getLast?_of_suffix hc.suffix hl⟩

end EpochsKept

end Kept

/-! ## Lookups after any run -/

/-- From a log whose epoch records below the writer checkpoint form one history, with nothing
cached, after any run of the bookkeeping's steps the log has grown from the first one and the
newest cached epoch ends exactly one history of it; the epoch numbered `n`, the first epoch
numbered above `n`, and whether an epoch with number `n` and identifier `id` is known are those of
that history, whether they lie in the cache, at its oldest entry or only in the log before it. -/
theorem epoch_lookups_follow_history {s₀ s : Store} {plan₀ : List (List Record)}
    (h₀ : EpochLog s₀ plan₀) (hempty : s₀.epochs.epochs = [])
    (hrun : Relation.ReflTransGen EpochStep s₀ s) (hn : s.db.chunks.length < Nat.pow 2 32) :
    ∃ plan hist, Layout s plan ∧ plan₀.flatten <+: plan.flatten ∧ EpochChain plan hist ∧
      hist.getLast? = s.epochs.epochs.getLast? ∧
      (∀ hist', EpochChain plan hist' → hist'.getLast? = s.epochs.epochs.getLast? → hist' = hist) ∧
      ∀ n : Int, Returns (epochNumbered n) s (hist.find? (·.epochNumber = n)) ∧
        Returns (epochAfter n) s (hist.find? (n < ·.epochNumber)) ∧
        ∀ id, Returns (isKnownEpoch n id) s (hist.any fun e => e.epochNumber = n ∧ e.epochId = id) := by
  obtain ⟨plan, h, hprefix⟩ := (EpochsKept.of_epochLog h₀ hempty).reaches hrun
  obtain ⟨hist, hc, hlast⟩ := h.cachesLast
  refine ⟨plan, hist, h.layout, hprefix, hc.chain, hlast, fun hist' hc' hl' => ?_,
    fun n => hc.lookups h.layout hn hlast n⟩
  exact hc'.eq_of_getLast? h.layout hc.chain (hl'.trans hlast.symm)


/-- Two epochs written on the small empty log, whose cache holds one epoch: the first epoch is
found only by walking back through the log. -/
theorem epoch_lookups_walk_back_past_cache :
    let s₁ := ((ExceptT.run (writeNewEpoch ⟨7⟩)).run smallEmptyLog).2
    let s₂ := ((ExceptT.run (writeNewEpoch ⟨8⟩)).run s₁).2
    EpochLog smallEmptyLog [] ∧ smallEmptyLog.epochs.epochs = [] ∧
      Relation.ReflTransGen EpochStep smallEmptyLog s₂ ∧ s₂.db.chunks.length < Nat.pow 2 32 ∧
      s₂.epochs.epochs.length = 1 ∧
      ∃ plan hist, Layout s₂ plan ∧ ([] : List (List Record)).flatten <+: plan.flatten ∧
        EpochChain plan hist ∧ hist.getLast? = s₂.epochs.epochs.getLast? ∧
        (∀ hist', EpochChain plan hist' → hist'.getLast? = s₂.epochs.epochs.getLast? →
          hist' = hist) ∧
        ∀ n : Int, Returns (epochNumbered n) s₂ (hist.find? (·.epochNumber = n)) ∧
          Returns (epochAfter n) s₂ (hist.find? (n < ·.epochNumber)) ∧
          ∀ id, Returns (isKnownEpoch n id) s₂
            (hist.any fun e => e.epochNumber = n ∧ e.epochId = id) := by
  intro s₁ s₂
  have h₀ : EpochLog smallEmptyLog [] :=
    ⟨layout_smallEmptyLog, ⟨nofun, EpochChain.nil⟩, fun h => absurd h (by decide)⟩
  have hr₁ : Runs (writeNewEpoch ⟨7⟩) smallEmptyLog ⟨0, 0, ⟨freshIdBase⟩, -1, wallClock, ⟨7⟩⟩ s₁ :=
    Runs.of_toOption (by decide +kernel)
  have hr₂ : Runs (writeNewEpoch ⟨8⟩) s₁ ⟨99, 1, ⟨freshIdBase + 3⟩, 0, wallClock, ⟨8⟩⟩ s₂ :=
    Runs.of_toOption (by decide +kernel)
  have hrun : Relation.ReflTransGen EpochStep smallEmptyLog s₂ :=
    (Relation.ReflTransGen.single (.writeNew (by decide) (by decide : (7 : Nat) < Nat.pow 2 128) hr₁)).tail
      (.writeNew (by decide +kernel) (by decide : (8 : Nat) < Nat.pow 2 128) hr₂)
  have hn : s₂.db.chunks.length < Nat.pow 2 32 := by decide +kernel
  exact ⟨h₀, rfl, hrun, hn, by decide +kernel, epoch_lookups_follow_history h₀ rfl hrun hn⟩

end EventStore
