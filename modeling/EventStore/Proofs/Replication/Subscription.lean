import EventStore.Proofs.Store.Reads
import EventStore.Proofs.Store.ReadBack
import EventStore.Replication.Master

/-!
# Where a subscription starts

A replica subscribes with its most recent epochs, newest first, and its writer position. The
master looks for the newest of those epochs that it knows too, and starts the subscription at the
least of the replica's position, its own flushed writer, the start of its own epoch after the
common one, and the start of the replica's epoch after it; a position in a scavenged chunk moves
back to the chunk's start. When it knows none of the epochs, the replica starts from scratch.

Computing the position only reads the store (`readOnly_subscriptionPosition`), and the position
stays within those bounds (`subscription_starts_within_common_epoch`). Below it both logs are thus
in the common epoch: no later epoch of either side starts there. That does not make them hold the
same records. A master whose epoch record did not fit in its chunk completes the chunk early and
writes the epoch at the next chunk's start, so the common epoch ends earlier on the master than
the position, and the replica may hold records of that epoch which the master never had.
-/

namespace EventStore

namespace MasterReplication

open Store

theorem readOnly_commonEpoch : ∀ (i : Nat) (l : List Epoch), ReadOnly (commonEpoch i l)
  | _, [] => by
    rw [commonEpoch]
    exact ReadOnly.pure _
  | i, e :: rest => by
    rw [commonEpoch]
    exact (readOnly_isKnownEpoch _ _).bind fun _ =>
      ReadOnly.ite (ReadOnly.pure _) (readOnly_commonEpoch (i + 1) rest)

/-- The search for a common epoch gives the first of the replica's epochs that the master knows,
with its place in the list offset by `i`, or nothing when the master knows none of them. -/
theorem yields_commonEpoch (s : Store) : ∀ (i : Nat) (l : List Epoch),
    Yields s (commonEpoch i l) fun res =>
      (res = none → ∀ e ∈ l, Returns (isKnownEpoch e.epochNumber e.epochId) s false) ∧
      ∀ j c, res = some (j, c) → ∃ k, j = i + k ∧ l[k]? = some c ∧
        Returns (isKnownEpoch c.epochNumber c.epochId) s true ∧
        ∀ k' < k, ∀ e, l[k']? = some e →
          Returns (isKnownEpoch e.epochNumber e.epochId) s false
  | i, [] => by
    rw [commonEpoch]
    exact Yields.pure ⟨fun _ _ he => (nomatch he), fun _ _ h => (nomatch h)⟩
  | i, e :: rest => by
    rw [commonEpoch]
    refine Yields.bind (readOnly_isKnownEpoch _ _) fun b hb => ?_
    refine Yields.ite (fun hbt => Yields.pure ⟨nofun, fun j c h => ?_⟩) fun hbf => ?_
    · -- the master knows the replica's newest epoch
      cases h
      exact ⟨0, rfl, rfl, hbt ▸ hb, fun _ hk' => absurd hk' (Nat.not_lt_zero _)⟩
    -- it does not: the search goes on among the older ones
    have hbf : b = false := by simpa using hbf
    subst hbf
    refine (yields_commonEpoch s (i + 1) rest).mono fun res ⟨hnone, hsome⟩ =>
      ⟨fun hres e' he' => ?_, fun j c hres => ?_⟩
    · rcases List.mem_cons.1 he' with rfl | he'
      · exact hb
      · exact hnone hres e' he'
    · obtain ⟨k, hj, hk, hc, hearlier⟩ := hsome j c hres
      refine ⟨k + 1, by omega, hk, hc, fun k' hk' e' he' => ?_⟩
      cases k' with
      | zero =>
        cases he'
        exact hb
      | succ k' => exact hearlier k' (by omega) e' he'

theorem readOnly_subscriptionPosition (r : SubscribeReplica) :
    ReadOnly (subscriptionPosition r) := by
  unfold subscriptionPosition
  refine (readOnly_commonEpoch 0 _).bind fun res => ?_
  dsimp only
  repeat' first
    | exact ReadOnly.pure _
    | exact readOnly_writerCheckpoint
    | exact readOnly_epochAfter _
    | exact readOnly_getChunkFor _
    | refine ReadOnly.ite ?_ ?_
    | refine ReadOnly.bind ?_ fun _ => ?_
    | split

theorem yields_subscriptionPosition (st : Store) (r : SubscribeReplica)
    (hsize : ∀ c ∈ st.db.chunks, c.header.chunkSize = st.db.config.chunkSize) :
    Yields st (subscriptionPosition r) fun P =>
      ∀ res, Returns (commonEpoch 0 r.lastEpochs) st res →
        (res = none → P = 0) ∧
        ∀ idx common, res = some (idx, common) →
          P ≤ r.logPosition ∧ P ≤ st.db.config.checkpoints.writer.read ∧
          (∀ after, Returns (epochAfter common.epochNumber) st (some after) →
            P ≤ after.epochPosition) ∧
          (∀ e, 0 < idx → r.lastEpochs[idx - 1]? = some e → P ≤ e.epochPosition) := by
  unfold subscriptionPosition
  refine Yields.bind (readOnly_commonEpoch 0 _) fun res hres => ?_
  rcases res with _ | ⟨idx, common⟩
  · refine Yields.pure fun res hres' => ?_
    rw [← hres.unique hres']
    exact ⟨fun _ => rfl, fun _ _ h => nomatch h⟩
  dsimp only
  refine Yields.bind readOnly_writerCheckpoint ((yields_writerCheckpoint st).mono fun w hw => ?_)
  refine Yields.bind (readOnly_epochAfter _) fun oa ha => ?_
  -- every branch ends by reading the chunk that holds the position it reached
  have hleaf : ∀ q, q ≤ r.logPosition → q ≤ w →
      (∀ after, oa = some after → q ≤ after.epochPosition) →
      (∀ e, 0 < idx → r.lastEpochs[idx - 1]? = some e → q ≤ e.epochPosition) →
      ∀ f : Option Chunk → StoreM EpochError Int, f none = Pure.pure q →
        (∀ c, f (some c) =
          if c.header.isScavenged then Pure.pure c.startPosition else Pure.pure q) →
        Yields st (getChunkFor q >>= f) fun P =>
          ∀ res, Returns (commonEpoch 0 r.lastEpochs) st res →
            (res = none → P = 0) ∧
            ∀ idx common, res = some (idx, common) →
              P ≤ r.logPosition ∧ P ≤ st.db.config.checkpoints.writer.read ∧
              (∀ after, Returns (epochAfter common.epochNumber) st (some after) →
                P ≤ after.epochPosition) ∧
              (∀ e, 0 < idx → r.lastEpochs[idx - 1]? = some e → P ≤ e.epochPosition) := by
    intro q hlog hw' hafter hprev f hnone hsome
    -- the position is kept, or moved back to the start of the scavenged chunk that holds it
    have hf : ∀ oc, (∀ c, oc = some c → c.startPosition ≤ q) →
        Yields st (f oc) (· ≤ q) := by
      intro oc hoc
      cases oc with
      | none =>
        rw [hnone]
        exact Yields.pure (Int.le_refl q)
      | some c =>
        rw [hsome c]
        exact Yields.ite (fun _ => Yields.pure (hoc c rfl)) fun _ => Yields.pure (Int.le_refl q)
    refine Yields.bind (readOnly_getChunkFor q)
      ((yields_getChunkFor st q hsize).mono fun oc hoc => (hf oc hoc).mono fun P hPq => ?_)
    intro res hres'
    rw [← hres.unique hres']
    refine ⟨nofun, fun idx' common' he => ?_⟩
    cases he
    refine ⟨by omega, by omega, fun after hafter' => ?_, fun e h0 he => ?_⟩
    · exact Int.le_trans hPq (hafter after (ha.unique hafter'))
    · exact Int.le_trans hPq (hprev e h0 he)
  -- the master's epoch after the common one, then the replica's, bound the position
  by_cases h0 : 0 < idx
  · rcases hnext : r.lastEpochs[idx - 1]? with _ | e <;> rcases oa with _ | after <;>
      simp only [h0, ↓reduceIte]
    · exact hleaf _ (by omega) (by omega) nofun (fun _ _ he => nomatch hnext ▸ he) _ rfl
        fun _ => rfl
    · refine hleaf _ (by omega) (by omega) (fun _ ha' => ?_) (fun _ _ he => nomatch hnext ▸ he) _
        rfl fun _ => rfl
      cases ha'
      omega
    · refine hleaf _ (by omega) (by omega) nofun (fun _ _ he => ?_) _ rfl fun _ => rfl
      cases hnext ▸ he
      omega
    · refine hleaf _ (by omega) (by omega) (fun _ ha' => ?_) (fun _ _ he => ?_) _ rfl fun _ => rfl
      · cases ha'
        omega
      · cases hnext ▸ he
        omega
  · rcases oa with _ | after <;> simp only [h0, ↓reduceIte]
    · exact hleaf _ (by omega) (by omega) nofun (fun _ h0' _ => absurd h0' h0) _ rfl fun _ => rfl
    · refine hleaf _ (by omega) (by omega) (fun _ ha' => ?_) (fun _ h0' _ => absurd h0' h0) _
        rfl fun _ => rfl
      cases ha'
      omega

/-- Computing where a subscription starts changes nothing of the master's store, and the position
it gives, when it gives one, is 0 if the master knows none of the replica's epochs. Otherwise let
`common`, at `idx` in the replica's list, be the newest of them that the master knows: the
position is at most the replica's log position, the master's flushed writer checkpoint, the start
of the master's epoch after `common`, and the start of the replica's epoch after `common`. The
chunks of the master's database are taken to have the configured chunk size, so that the chunk
holding a position starts at or before it. -/
theorem subscription_starts_within_common_epoch (st st' : Store) (r : SubscribeReplica) (P : Int)
    (hsize : ∀ c ∈ st.db.chunks, c.header.chunkSize = st.db.config.chunkSize)
    (hrun : (subscriptionPosition r).run.run st = (.ok P, st')) :
    st' = st ∧
      ((∀ e ∈ r.lastEpochs, Returns (isKnownEpoch e.epochNumber e.epochId) st false) →
        P = 0) ∧
      ∀ idx common, r.lastEpochs[idx]? = some common →
        Returns (isKnownEpoch common.epochNumber common.epochId) st true →
        (∀ k < idx, ∀ e, r.lastEpochs[k]? = some e →
          Returns (isKnownEpoch e.epochNumber e.epochId) st false) →
        P ≤ r.logPosition ∧ P ≤ st.db.config.checkpoints.writer.read ∧
        (∀ after, Returns (epochAfter common.epochNumber) st (some after) →
          P ≤ after.epochPosition) ∧
        (∀ e, 0 < idx → r.lastEpochs[idx - 1]? = some e → P ≤ e.epochPosition) := by
  have hst : st' = st := by
    have h := readOnly_subscriptionPosition r st
    rw [hrun] at h
    exact h
  subst hst
  have hP : Returns (subscriptionPosition r) st' P := hrun
  -- what the search for a common epoch returned on the way
  have hbind := hP
  unfold subscriptionPosition at hbind
  obtain ⟨res, hres, _⟩ := hbind.bind_inv (readOnly_commonEpoch 0 _)
  obtain ⟨hnone, hsome⟩ := yields_commonEpoch st' 0 r.lastEpochs res hres
  have hpos := yields_subscriptionPosition st' r hsize P hP res hres
  refine ⟨rfl, fun hall => ?_, fun idx common hc hk hearlier => ?_⟩
  · -- a common epoch found would be one the master knows
    rcases res with _ | ⟨j, c⟩
    · exact hpos.1 rfl
    · obtain ⟨k, _, hkc, hck, _⟩ := hsome j c rfl
      exact nomatch hck.unique (hall c (List.mem_of_getElem? hkc))
  rcases res with _ | ⟨j, c⟩
  · exact nomatch hk.unique (hnone rfl common (List.mem_of_getElem? hc))
  obtain ⟨k, hj, hkc, hck, hearlier'⟩ := hsome j c rfl
  -- both are the first epoch the master knows, so they are one
  have hki : k = idx := by
    rcases Nat.lt_trichotomy k idx with hlt | heq | hgt
    · exact nomatch hck.unique (hearlier k hlt c hkc)
    · exact heq
    · exact nomatch hk.unique (hearlier' idx hgt common hc)
  subst hki
  have hcc : c = common := Option.some.inj (hkc.symm.trans hc)
  subst hcc
  rw [Nat.zero_add] at hj
  subst hj
  exact hpos.2 _ _ rfl

/-- A log of chunk size 256 on which a master wrote two epochs: epoch 0 at 0 and epoch 1 at 99. -/
def twoEpochLog : Store :=
  ((ExceptT.run (writeNewEpoch ⟨8⟩)).run ((ExceptT.run (writeNewEpoch ⟨7⟩)).run smallEmptyLog).2).2

/-- A replica that saw the master's epoch 0 only, and wrote on to 150. -/
def replicaPastFirstEpoch : SubscribeReplica :=
  { (default : SubscribeReplica) with
    lastEpochs := [⟨0, 0, ⟨freshIdBase⟩, -1, wallClock, ⟨7⟩⟩]
    logPosition := 150 }

/-- The replica that saw only epoch 0 subscribes at 99, where the master's epoch 1 starts. -/
theorem subscription_starts_at_next_master_epoch :
    (∀ c ∈ twoEpochLog.db.chunks, c.header.chunkSize = twoEpochLog.db.config.chunkSize) ∧
      (subscriptionPosition replicaPastFirstEpoch).run.run twoEpochLog =
        (.ok 99, ((subscriptionPosition replicaPastFirstEpoch).run.run twoEpochLog).2) ∧
      ((subscriptionPosition replicaPastFirstEpoch).run.run twoEpochLog).2 = twoEpochLog ∧
      ((∀ e ∈ replicaPastFirstEpoch.lastEpochs,
          Returns (isKnownEpoch e.epochNumber e.epochId) twoEpochLog false) → (99 : Int) = 0) ∧
      ∀ idx common, replicaPastFirstEpoch.lastEpochs[idx]? = some common →
        Returns (isKnownEpoch common.epochNumber common.epochId) twoEpochLog true →
        (∀ k < idx, ∀ e, replicaPastFirstEpoch.lastEpochs[k]? = some e →
          Returns (isKnownEpoch e.epochNumber e.epochId) twoEpochLog false) →
        99 ≤ replicaPastFirstEpoch.logPosition ∧
          99 ≤ twoEpochLog.db.config.checkpoints.writer.read ∧
          (∀ after, Returns (epochAfter common.epochNumber) twoEpochLog (some after) →
            99 ≤ after.epochPosition) ∧
          (∀ e, 0 < idx → replicaPastFirstEpoch.lastEpochs[idx - 1]? = some e →
            99 ≤ e.epochPosition) := by
  have hsize : ∀ c ∈ twoEpochLog.db.chunks,
      c.header.chunkSize = twoEpochLog.db.config.chunkSize := by decide +kernel
  have hrun : (subscriptionPosition replicaPastFirstEpoch).run.run twoEpochLog =
      (.ok 99, ((subscriptionPosition replicaPastFirstEpoch).run.run twoEpochLog).2) :=
    Runs.of_toOption (by decide +kernel)
  exact ⟨hsize, hrun, subscription_starts_within_common_epoch twoEpochLog _ _ 99 hsize hrun⟩

end MasterReplication

end EventStore
