import EventStore.Proofs.Replication.Steps

/-!
# Committed writes are backed by a quorum

The commit tracker moves its commit position only in `recompute`, and only to a position that the
`quorum`-th highest durable position reaches; the participants it counts, the master and each
slave once, are distinct because a slave is counted by its subscription and the subscriptions the
tracker holds never repeat. A write is taken as committed only when it ends at or below the commit
position. So along any run of the tracker's operations, every write it completes ends at a
position that a quorum of distinct participants was durable at, in some state of that run
(`committed_writes_quorum_backed`).

That state may lie before a `reset`. Resetting forgets the participants but keeps the commit
position, so when a master steps down and is elected again, a write of its new term completes on a
position reached in the old one, though no participant of the new term is durable there
(`completes_after_reset_unbacked`).
-/

namespace EventStore

namespace CommitTracker

/-! ## Participants and quorums -/

/-- The participants the tracker counts toward the quorum, each with its durable position: the
master (`none`) and every slave, by its subscription. -/
def participants (t : CommitTracker) : List (Option Uuid × Int) :=
  (none, t.masterPosition) :: t.acks.map fun a => (some a.1, a.2)

/-- A quorum of distinct participants reported durable positions at or above `p`. -/
def Backs (t : CommitTracker) (p : Int) : Prop :=
  ∃ ps : List (Option Uuid), ps.Nodup ∧ t.quorum ≤ ps.length ∧
    ∀ x ∈ ps, ∃ q, (x, q) ∈ t.participants ∧ p ≤ q

theorem Backs.mono {t : CommitTracker} {p p' : Int} (h : t.Backs p) (hp : p' ≤ p) :
    t.Backs p' := by
  obtain ⟨ps, hnd, hlen, hmem⟩ := h
  refine ⟨ps, hnd, hlen, fun x hx => ?_⟩
  obtain ⟨q, hq, hpq⟩ := hmem x hx
  exact ⟨q, hq, Int.le_trans hp hpq⟩

/-- A quorum is never empty, so some participant is durable at a backed position. -/
theorem Backs.exists_participant {t : CommitTracker} {p : Int} (h : t.Backs p) :
    ∃ x ∈ t.participants, p ≤ x.2 := by
  obtain ⟨ps, _, hlen, hmem⟩ := h
  cases ps with
  | nil => simp [quorum] at hlen
  | cons x _ =>
    obtain ⟨q, hq, hpq⟩ := hmem x (List.mem_cons_self ..)
    exact ⟨(x, q), hq, hpq⟩

theorem participants_map_snd (t : CommitTracker) :
    t.participants.map (·.2) = t.masterPosition :: t.acks.map (·.2) := by
  simp [participants]

/-- Distinct slave subscriptions make distinct participants. -/
theorem participants_nodup {t : CommitTracker} (hnd : (t.acks.map (·.1)).Nodup) :
    (t.participants.map (·.1)).Nodup := by
  have hsome : (t.acks.map fun a => some a.1).Nodup := by
    have h : (t.acks.map fun a => some a.1) = (t.acks.map (·.1)).map some := by simp
    rw [h]
    exact List.Pairwise.map some (fun _ _ hab he => hab (Option.some.inj he)) hnd
  simp only [participants, List.map_cons, List.map_map]
  refine List.nodup_cons.2 ⟨by simp, ?_⟩
  exact hsome

/-- When a quorum of the participants' durable positions reach `p`, and the slaves are counted
once each, a quorum of distinct participants backs `p`. -/
theorem backs_of_countP {t : CommitTracker} (hnd : (t.acks.map (·.1)).Nodup) {p : Int}
    (h : t.quorum ≤ (t.masterPosition :: t.acks.map (·.2)).countP fun q => decide (p ≤ q)) :
    t.Backs p := by
  -- the participants durable at `p`
  let durable := t.participants.filter fun x => decide (p ≤ x.2)
  refine ⟨durable.map (·.1), ?_, ?_, fun x hx => ?_⟩
  · exact (List.filter_sublist.map _).nodup (participants_nodup hnd)
  · rw [List.length_map, ← List.countP_eq_length_filter, ← participants_map_snd,
      List.countP_map] at *
    exact h
  · obtain ⟨y, hy, rfl⟩ := List.mem_map.1 hx
    obtain ⟨hy, hpy⟩ := List.mem_filter.1 hy
    exact ⟨y.2, hy, of_decide_eq_true hpy⟩

/-! ## Recomputing the commit position -/

/-- In a list sorted from highest, the entry at index `i` is reached by at least `i + 1`
entries. -/
theorem succ_le_countP_of_sorted :
    ∀ {l : List Int} {i : Nat} {x : Int}, l.Pairwise (fun a b => b ≤ a) → l[i]? = some x →
      i + 1 ≤ l.countP fun q => decide (x ≤ q)
  | a :: l, 0, x, _, hx => by
    have hx : a = x := by simpa using hx
    subst hx
    rw [List.countP_cons_of_pos (by simp)]
    omega
  | a :: l, i + 1, x, hl, hx => by
    rw [List.pairwise_cons] at hl
    have hx : l[i]? = some x := by simpa using hx
    have hax : x ≤ a := hl.1 x (List.mem_of_getElem? hx)
    have ih := succ_le_countP_of_sorted hl.2 hx
    rw [List.countP_cons_of_pos (by simpa using hax)]
    omega

@[simp] theorem recompute_masterPosition (t : CommitTracker) :
    t.recompute.masterPosition = t.masterPosition := by
  unfold recompute
  dsimp only
  split <;> rfl

@[simp] theorem recompute_quorum (t : CommitTracker) : t.recompute.quorum = t.quorum := by
  unfold recompute
  dsimp only
  split <;> rfl

/-- Recomputing leaves the commit position where it was, or raises it to a position that a
quorum of the durable positions reach. -/
theorem recompute_commitPosition (t : CommitTracker) :
    t.recompute.commitPosition = t.commitPosition ∨
      t.quorum ≤ (t.masterPosition :: t.acks.map (·.2)).countP
        fun q => decide (t.recompute.commitPosition ≤ q) := by
  rcases hp : ((t.masterPosition :: t.acks.map (·.2)).mergeSort
    fun a b => decide (b ≤ a))[t.quorum - 1]? with _ | p
  · left
    simp only [recompute, hp]
  · have hc : t.recompute.commitPosition = max t.commitPosition p := by
      simp only [recompute, hp]
    rw [hc]
    rcases Int.le_total p t.commitPosition with hle | hlt
    · left
      exact Int.max_eq_left hle
    · right
      -- the positions sorted from highest: `p` is the `quorum`-th of them
      have hsorted := @List.pairwise_mergeSort _ (fun a b : Int => decide (b ≤ a))
        (fun a b c hab hbc => by simp only [decide_eq_true_eq] at *; omega)
        (fun a b => by simp only [Bool.or_eq_true, decide_eq_true_eq]; omega)
        (t.masterPosition :: t.acks.map (·.2))
      have hcount := succ_le_countP_of_sorted
        (hsorted.imp fun h => of_decide_eq_true h) hp
      rw [(List.mergeSort_perm _ _).countP_eq] at hcount
      have hq : t.quorum - 1 + 1 = t.quorum := by simp [quorum]
      rw [Int.max_eq_right hlt, ← hq]
      exact hcount

/-- When recomputing moves the commit position, a quorum of distinct participants backs the new
one. -/
theorem recompute_backs (t : CommitTracker) (hnd : (t.acks.map (·.1)).Nodup) :
    t.recompute.commitPosition = t.commitPosition ∨
      t.recompute.Backs t.recompute.commitPosition := by
  refine (recompute_commitPosition t).imp_right fun h => ?_
  refine backs_of_countP (by simpa using hnd) ?_
  simpa using h

/-- Slaves are counted once each after an acknowledgement: a known one keeps its place and a new
one is added at the end. -/
theorem replicaAcked_keys_nodup (t : CommitTracker) (id : Uuid) (p : Int)
    (hnd : (t.acks.map (·.1)).Nodup) : ((t.replicaAcked id p).acks.map (·.1)).Nodup := by
  unfold replicaAcked
  simp only [recompute_acks]
  split
  · rw [map_fst_map_of_fst]
    · exact hnd
    · rintro ⟨s, p'⟩
      dsimp only
      split <;> rfl
  · rename_i hnone
    have hid : id ∉ t.acks.map (·.1) := fun hid => by
      obtain ⟨q, hq, rfl⟩ := List.mem_map.1 hid
      exact List.find?_eq_none.1 hnone q hq (by simp)
    simp only [List.map_append, List.map_cons, List.map_nil, List.nodup_append, hnd,
      List.nodup_cons, List.not_mem_nil, not_false_eq_true, List.nodup_nil, and_self, true_and]
    intro a ha b hb heq
    simp only [List.mem_singleton] at hb
    exact hid (by rw [← hb, ← heq]; exact ha)

/-! ## Runs of the tracker -/

/-- The operations master replication applies to its commit tracker. -/
inductive Op
  | addPending (correlationId : Uuid) (envelope : Envelope) (firstPosition endPosition : Int)
      (now : Nat)
  | masterFlushed (position : Int)
  | replicaAcked (subscription : Uuid) (position : Int)
  | removeSlave (subscription : Uuid)
  | takeCommitted
  | takeTimedOut (now : Nat)
  | reset

/-- The tracker after one operation. -/
def Op.apply : Op → CommitTracker → CommitTracker
  | .addPending c e first last now, t => t.addPending c e first last now
  | .masterFlushed p, t => t.masterFlushed p
  | .replicaAcked s p, t => t.replicaAcked s p
  | .removeSlave s, t => t.removeSlave s
  | .takeCommitted, t => t.takeCommitted.2
  | .takeTimedOut now, t => (t.takeTimedOut now).2
  | .reset, t => t.reset.2

/-- The tracker after a run of operations. -/
def run (t : CommitTracker) (ops : List Op) : CommitTracker :=
  ops.foldl (fun t o => o.apply t) t

/-- The trackers a run of operations passes through, from the first to the last. -/
def trail (t : CommitTracker) : List Op → List CommitTracker
  | [] => [t]
  | o :: os => t :: trail (o.apply t) os

@[simp] theorem run_nil (t : CommitTracker) : t.run [] = t := rfl

@[simp] theorem run_cons (t : CommitTracker) (o : Op) (os : List Op) :
    t.run (o :: os) = (o.apply t).run os := rfl

theorem self_mem_trail (t : CommitTracker) (ops : List Op) : t ∈ t.trail ops := by
  cases ops <;> simp [trail]

/-- Every operation counts each slave once. -/
theorem keys_nodup_apply (t : CommitTracker) (hnd : (t.acks.map (·.1)).Nodup) :
    ∀ o : Op, ((o.apply t).acks.map (·.1)).Nodup
  | .addPending .. | .takeCommitted | .takeTimedOut _ => hnd
  | .masterFlushed _ => by simpa [Op.apply] using hnd
  | .replicaAcked id p => replicaAcked_keys_nodup t id p hnd
  | .removeSlave _ => (List.filter_sublist.map _).nodup hnd
  | .reset => List.nodup_nil

/-- One operation leaves the commit position where it was, or moves it to a position a quorum of
distinct participants backs right after. -/
theorem apply_commitPosition (t : CommitTracker) (hnd : (t.acks.map (·.1)).Nodup) :
    ∀ o : Op, (o.apply t).commitPosition = t.commitPosition ∨
      (o.apply t).Backs (o.apply t).commitPosition
  | .addPending .. | .removeSlave _ | .takeCommitted | .takeTimedOut _ | .reset => Or.inl rfl
  | .masterFlushed _ => recompute_backs _ hnd
  | .replicaAcked id p => by
    -- the new acknowledgements count each slave once, as the result's do
    have hnd' := replicaAcked_keys_nodup t id p hnd
    show (t.replicaAcked id p).commitPosition = t.commitPosition ∨
      (t.replicaAcked id p).Backs (t.replicaAcked id p).commitPosition
    unfold replicaAcked at hnd' ⊢
    simp only [recompute_acks] at hnd'
    exact recompute_backs { t with acks := _ } hnd'

/-- Along a run, the commit position stays where it started or is backed by a quorum of distinct
participants in some tracker of the run. The induction is on the run; a step that moves the
position backs it in the tracker it leads to. -/
theorem run_commitPosition (t : CommitTracker) (ops : List Op) (hnd : (t.acks.map (·.1)).Nodup) :
    (t.run ops).commitPosition = t.commitPosition ∨
      ∃ t' ∈ t.trail ops, t'.Backs (t.run ops).commitPosition := by
  induction ops generalizing t with
  | nil => exact Or.inl rfl
  | cons o os ih =>
    rw [run_cons]
    rcases ih (o.apply t) (keys_nodup_apply t hnd o) with h | ⟨t', ht', hb⟩
    · rw [h]
      refine (apply_commitPosition t hnd o).imp_right fun hb => ?_
      exact ⟨o.apply t, List.mem_cons_of_mem _ (self_mem_trail _ _), hb⟩
    · exact Or.inr ⟨t', List.mem_cons_of_mem _ ht', hb⟩

/-- The writes taken as committed end at or below the commit position. -/
theorem endPosition_le_of_mem_takeCommitted {t : CommitTracker} {w : PendingWrite}
    (hw : w ∈ t.takeCommitted.1) : w.endPosition ≤ t.commitPosition := by
  have hw : w ∈ t.pending.takeWhile fun w => decide (w.endPosition ≤ t.commitPosition) := hw
  have hall := List.all_eq_true.1 List.all_takeWhile w hw
  exact of_decide_eq_true hall

/-- Every write that a fresh tracker takes as committed, whatever operations it went through, ends
at a position that a quorum of distinct participants, the master and slaves, reported durable in
some tracker state of the run; or it ends below every position. -/
theorem committed_writes_quorum_backed (n timeout : Nat) (ops : List Op) (w : PendingWrite)
    (hw : w ∈ (run { clusterSize := n, commitTimeoutMs := timeout } ops).takeCommitted.1) :
    w.endPosition < 0 ∨
      ∃ t ∈ trail { clusterSize := n, commitTimeoutMs := timeout } ops, t.Backs w.endPosition := by
  have hle := endPosition_le_of_mem_takeCommitted hw
  rcases run_commitPosition { clusterSize := n, commitTimeoutMs := timeout } ops List.nodup_nil
    with h | ⟨t, ht, hb⟩
  · left
    rw [h] at hle
    exact Int.lt_of_le_sub_one hle
  · exact Or.inr ⟨t, ht, hb.mono hle⟩

/-- A one-node cluster completes a write once its master flushed past it. -/
theorem committed_write_backed_after_flush :
    let t₀ : CommitTracker := { clusterSize := 1, commitTimeoutMs := 0 }
    let ops := [Op.masterFlushed 10, .addPending default default 0 5 0]
    let w : PendingWrite :=
      { correlationId := default, envelope := default, firstPosition := 0, endPosition := 5
        deadline := 0 }
    w ∈ (t₀.run ops).takeCommitted.1 ∧
      (w.endPosition < 0 ∨ ∃ t ∈ t₀.trail ops, t.Backs w.endPosition) := by
  intro t₀ ops w
  have hw : w ∈ (t₀.run ops).takeCommitted.1 := by
    simp [t₀, ops, w, run, Op.apply, masterFlushed, recompute, addPending, takeCommitted, quorum,
      Int.max_def]
  exact ⟨hw, committed_writes_quorum_backed 1 0 ops w hw⟩

/-- A master of a one-node cluster flushed to 1000, stepped down and was elected again with its
log at 0: a write ending at 500 completes, though no tracker since the reset has a participant
durable at 500. -/
theorem completes_after_reset_unbacked :
    let t : CommitTracker :=
      ({ clusterSize := 1, commitTimeoutMs := 0 } : CommitTracker).run [.masterFlushed 1000, .reset]
    let ops := [Op.masterFlushed 0, .addPending default default 0 500 0]
    (t.run ops).takeCommitted.1.map (·.endPosition) = [500] ∧
      ∀ t' ∈ t.trail ops, ¬ t'.Backs 500 := by
  intro t ops
  have hlow : ∀ t' ∈ t.trail ops, ∀ x ∈ t'.participants, x.2 < 500 := by
    simp [t, ops, run, trail, Op.apply, masterFlushed, recompute, addPending, reset, participants,
      quorum, Int.max_def]
  refine ⟨by simp [t, ops, run, Op.apply, masterFlushed, recompute, addPending, reset, quorum,
    takeCommitted, Int.max_def], fun t' ht' hb => ?_⟩
  obtain ⟨x, hx, hle⟩ := hb.exists_participant
  exact Int.not_lt.2 hle (hlow t' ht' x hx)

end CommitTracker

end EventStore
