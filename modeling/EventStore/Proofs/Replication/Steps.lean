import EventStore.Proofs.Service.Hoare
import EventStore.Replication.Master

/-!
# The master's actions, one at a time

How each action of master replication moves the parts of the master's state that its
bookkeeping reads: the node state, the subscriptions with their replicas and roles, and the commit
tracker. Streaming moves none of them: it only advances a subscription's send position and the
stream it reads from, which `MasterReplication.settled` blanks out. Completing committed writes
only takes writes off the front of the pending queue.

The commit tracker's operations are stated first through what they do to the set of slaves they
count (the keys of `acks`) and to the pending writes.
-/

namespace EventStore

namespace CommitTracker

variable (t : CommitTracker)

@[simp] theorem recompute_acks : t.recompute.acks = t.acks := by
  unfold recompute
  dsimp only
  split <;> rfl

@[simp] theorem recompute_pending : t.recompute.pending = t.pending := by
  unfold recompute
  dsimp only
  split <;> rfl

@[simp] theorem masterFlushed_acks (p : Int) : (t.masterFlushed p).acks = t.acks := by
  simp [masterFlushed]

@[simp] theorem masterFlushed_pending (p : Int) : (t.masterFlushed p).pending = t.pending := by
  simp [masterFlushed]

/-- Moving acknowledged positions keeps the subscriptions acknowledged. -/
theorem map_fst_map_of_fst {f : Uuid × Int → Uuid × Int} (hf : ∀ q, (f q).1 = q.1)
    (l : List (Uuid × Int)) : (l.map f).map (·.1) = l.map (·.1) := by
  rw [List.map_map]
  exact List.map_congr_left fun q _ => hf q

/-- An acknowledgement counts its subscription among the slaves, adding it if it was not there. -/
theorem mem_replicaAcked_keys (id : Uuid) (p : Int) (x : Uuid) :
    x ∈ (t.replicaAcked id p).acks.map (·.1) ↔ x ∈ t.acks.map (·.1) ∨ x = id := by
  unfold replicaAcked
  simp only [recompute_acks]
  split
  · rename_i q hq
    have hid : id ∈ t.acks.map (·.1) :=
      List.mem_map.2 ⟨q, List.mem_of_find?_eq_some hq, by simpa using List.find?_some hq⟩
    rw [map_fst_map_of_fst]
    · constructor
      · exact Or.inl
      · rintro (h | rfl)
        · exact h
        · exact hid
    · -- the acknowledged subscriptions stay, only positions move
      rintro ⟨s, p'⟩
      dsimp only
      split <;> rfl
  · simp

@[simp] theorem replicaAcked_pending (id : Uuid) (p : Int) :
    (t.replicaAcked id p).pending = t.pending := by
  unfold replicaAcked
  simp

theorem mem_removeSlave_keys (id x : Uuid) :
    x ∈ (t.removeSlave id).acks.map (·.1) ↔ x ∈ t.acks.map (·.1) ∧ x ≠ id := by
  simp only [removeSlave, List.mem_map, List.mem_filter, decide_eq_true_eq]
  constructor
  · rintro ⟨q, ⟨hq, hne⟩, rfl⟩
    exact ⟨⟨q, hq, rfl⟩, hne⟩
  · rintro ⟨⟨q, hq, rfl⟩, hne⟩
    exact ⟨q, ⟨hq, hne⟩, rfl⟩

@[simp] theorem removeSlave_pending (id : Uuid) : (t.removeSlave id).pending = t.pending := rfl

@[simp] theorem takeCommitted_acks : t.takeCommitted.2.acks = t.acks := rfl

@[simp] theorem takeTimedOut_acks (now : Nat) : (t.takeTimedOut now).2.acks = t.acks := rfl

@[simp] theorem addPending_acks (c : Uuid) (e : Envelope) (first last : Int) (now : Nat) :
    (t.addPending c e first last now).acks = t.acks := rfl

@[simp] theorem reset_acks : t.reset.2.acks = [] := rfl

@[simp] theorem reset_pending : t.reset.2.pending = [] := rfl

/-- Taking committed writes off the queue leaves an empty queue empty. -/
theorem takeCommitted_pending_nil (h : t.pending = []) : t.takeCommitted.2.pending = [] := by
  simp [takeCommitted, h]

/-- Taking timed-out writes off the queue leaves an empty queue empty. -/
theorem takeTimedOut_pending_nil (now : Nat) (h : t.pending = []) :
    (t.takeTimedOut now).2.pending = [] := by
  simp [takeTimedOut, h]

end CommitTracker

namespace MasterReplication

open Actor

/-! ## Streaming -/

/-- A master's state with what streaming moves, each subscription's send position and stream,
blanked out. -/
def settled (m : MasterReplication) : MasterReplication :=
  { m with subscriptions := m.subscriptions.map fun p =>
      (p.1, { p.2 with sendPosition := 0, stream := none }) }

/-- Changing subscriptions in what streaming moves, and nothing else, keeps the settled state.
The fields kept are listed one by one: comparing whole subscriptions would make the kernel unfold
the new send position. -/
theorem keeps_settled {ε : Type} {L : MasterReplication}
    {g : Uuid × Subscription → Uuid × Subscription}
    (hg : ∀ p, (g p).1 = p.1 ∧ (g p).2.connection = p.2.connection ∧
      (g p).2.replicaId = p.2.replicaId ∧ (g p).2.replicaInternal = p.2.replicaInternal ∧
      (g p).2.role = p.2.role ∧ (g p).2.ackPosition = p.2.ackPosition) :
    Keeps (fun m => settled m = L)
      (modifyMe fun m => { m with subscriptions := m.subscriptions.map g } :
        ActorM MasterReplication ε Unit) := by
  refine Keeps.modifyMe fun m hm => ?_
  rw [← hm]
  simp only [settled, List.map_map]
  congr 2
  funext p
  obtain ⟨h₁, h₂, h₃, h₄, h₅, h₆⟩ := hg p
  simp only [Function.comp, h₁, h₂, h₃, h₄, h₅, h₆]

/-- Opening a chunk for streaming reads the store and sends, and changes nothing of the master. -/
theorem startStream_keeps (P : MasterReplication → Prop) (id : Uuid) (s : Subscription)
    (c : Chunk) : Keeps P (startStream id s c) := by
  unfold startStream
  refine Keeps.me_bind fun _ => (Keeps.onStore _).bind fun _ => ?_
  dsimp only
  refine Keeps.ite ?_ ?_
  · refine (Keeps.onWorld _).bind fun _ => ?_
    refine (Keeps.onWorld _).bind fun _ => ?_
    refine (Keeps.onWorld _).bind fun _ => ?_
    refine (Keeps.onWorld _).bind fun _ => ?_
    exact Keeps.pure _
  · refine Keeps.ite ?_ ?_
    · -- kept opaque: unifying through the size computation does not terminate in reasonable depth
      generalize (Chunk.activeFileSize c.header : WorldM DbError Nat) = size
      refine (Keeps.onWorld _).bind fun _ => ?_
      refine (Keeps.onWorld _).bind fun _ => ?_
      refine (Keeps.onWorld _).bind fun _ => ?_
      refine (Keeps.onWorld _).bind fun _ => ?_
      exact Keeps.pure _
    · refine (Keeps.onWorld _).bind fun _ => ?_
      refine (Keeps.onWorld _).bind fun _ => ?_
      exact Keeps.pure _

/-- Changing one subscription in what streaming moves keeps the settled state. -/
theorem keeps_settled_at {ε : Type} {L : MasterReplication} (id : Uuid)
    (f : Subscription → Subscription)
    (hf : ∀ x, (f x).connection = x.connection ∧ (f x).replicaId = x.replicaId ∧
      (f x).replicaInternal = x.replicaInternal ∧ (f x).role = x.role ∧
      (f x).ackPosition = x.ackPosition) :
    Keeps (fun m => settled m = L)
      (modifyMe fun m => { m with subscriptions := m.subscriptions.map fun (i, x) =>
        if i = id then (i, f x) else (i, x) } : ActorM MasterReplication ε Unit) :=
  keeps_settled fun p => by
    rcases p with ⟨i, x⟩
    dsimp only
    split
    · exact ⟨rfl, hf x⟩
    · exact ⟨rfl, rfl, rfl, rfl, rfl, rfl⟩

/-- One bulk of streaming keeps the settled state. -/
theorem streamOnce_keeps (L : MasterReplication) (id : Uuid) :
    Keeps (fun m => settled m = L) (streamOnce id) := by
  unfold streamOnce
  refine Keeps.me_bind fun me => ?_
  split
  · rename_i s _
    refine (Keeps.onWorld _).bind fun _ => Keeps.ite (Keeps.pure _) ?_
    refine (Keeps.onStore _).bind fun _ => ?_
    refine Keeps.ite (Keeps.pure _) ?_
    refine (Keeps.onStore _).bind fun _ => ?_
    split
    · rename_i c
      lift_lets
      intro same h update jpTrue dataEnd available len jpTrue' jp setStream
      -- each update of the subscription moves only its send position or its stream
      have hupdate : ∀ f : Subscription → Subscription, (∀ x, (f x).connection = x.connection ∧
          (f x).replicaId = x.replicaId ∧ (f x).replicaInternal = x.replicaInternal ∧
          (f x).role = x.role ∧ (f x).ackPosition = x.ackPosition) →
          Keeps (fun m => settled m = L) (update f) :=
        fun f hf => keeps_settled_at id f hf
      have hset : ∀ st, Keeps (fun m => settled m = L) (setStream st) := fun st =>
        keeps_settled_at id (fun x => { x with stream := st }) fun _ => ⟨rfl, rfl, rfl, rfl, rfl⟩
      -- from here on the updates are used only through these two facts
      clear_value update setStream
      -- sending a bulk from the stream, the kept one or a new one
      have hjp : ∀ stream, Keeps (fun m => settled m = L) (jp stream) := by
        intro stream
        dsimp only [jp]
        split
        · refine Keeps.ite ?_ ?_
          · refine (Keeps.onWorld _).bind fun ⟨_, _⟩ => ?_
            refine Keeps.bind ?_ fun _ => ?_
            · apply hupdate
              intro _
              exact ⟨rfl, rfl, rfl, rfl, rfl⟩
            refine (Keeps.onWorld _).bind fun _ => Keeps.ite ?_ (Keeps.pure _)
            refine Keeps.bind ?_ fun _ => Keeps.pure _
            apply hupdate
            intro _
            exact ⟨rfl, rfl, rfl, rfl, rfl⟩
          · refine (Keeps.onWorld _).bind fun ⟨_, _⟩ => ?_
            refine Keeps.bind ?_ fun _ => ?_
            · apply hupdate
              intro _
              exact ⟨rfl, rfl, rfl, rfl, rfl⟩
            refine Keeps.ite (Keeps.pure _) ?_
            refine (Keeps.onWorld _).bind fun _ => ?_
            refine Keeps.bind ?_ fun _ => ?_
            · apply hupdate
              intro _
              exact ⟨rfl, rfl, rfl, rfl, rfl⟩
            refine Keeps.ite ?_ (Keeps.pure _)
            refine Keeps.bind ?_ fun _ => Keeps.pure _
            apply hupdate
            intro _
            exact ⟨rfl, rfl, rfl, rfl, rfl⟩
        · exact Keeps.pure _
      refine Keeps.ite ((Keeps.pure _).bind hjp) ?_
      exact (hset _).bind fun _ => (startStream_keeps _ _ _ _).bind fun _ =>
        (hset _).bind fun _ => (Keeps.pure _).bind hjp
    · exact Keeps.pure _
  · exact Keeps.pure _

theorem streamBulks_keeps (L : MasterReplication) (id : Uuid) (n : Nat) :
    Keeps (fun m => settled m = L) (streamBulks id n) := by
  induction n with
  | zero => exact Keeps.pure _
  | succ n ih => exact (streamOnce_keeps L id).bind fun _ => Keeps.ite ih (Keeps.pure _)

/-- Streaming keeps whatever depends only on the settled state. -/
theorem Keeps.of_settled {ε α : Type} {P : MasterReplication → Prop}
    {x : ActorM MasterReplication ε α} (hx : ∀ L, Keeps (fun m => settled m = L) x)
    (hP : ∀ m m', settled m = settled m' → P m → P m') : Keeps P x := by
  intro a ha
  have h := hx (settled a.self) a rfl
  rcases hr : x.run.run a with ⟨_ | v, a'⟩ <;> rw [hr] at h
  · exact hP _ _ h.symm ha
  · exact hP _ _ h.symm ha

/-! ## Committing and stepping down -/

/-- Completing the committed writes takes them off the tracker's queue and changes nothing else of
the master; any `P` that survives that survives the action. -/
theorem completeCommitted_keeps {P : MasterReplication → Prop}
    (hP : ∀ m, P m → P { m with commits := m.commits.takeCommitted.2 }) :
    Keeps P completeCommitted := by
  unfold completeCommitted
  refine Spec.me_bind fun m₀ => ?_
  split
  · rename_i done t heq
    refine Spec.modifyMe_bind P (fun m ⟨hm, hm₀⟩ => ?_) ?_
    · subst hm₀
      have ht : t = m.commits.takeCommitted.2 := by rw [heq]
      rw [ht]
      exact hP m hm
    · refine Keeps.ite (Keeps.pure _) ((Keeps.onStore _).bind fun _ => ?_)
      exact (Keeps.forIn fun _ _ => (Keeps.onWorld _).bind fun _ => Keeps.pure _).bind
        fun _ => Keeps.pure _

/-- Stepping down drops every subscription and empties the commit tracker's slaves and queue,
whatever the state it starts from; it cannot fail. -/
theorem stepDown_spec (m₀ : MasterReplication) (F : MasterReplication → Prop) :
    Spec (· = m₀) stepDown
      (fun _ m => m.subscriptions = [] ∧ m.commits.acks = [] ∧ m.commits.pending = [] ∧
        m.state = m₀.state ∧ m.clusterSize = m₀.clusterSize) F := by
  unfold stepDown
  refine Spec.me_bind fun _ => ?_
  -- closing the connections changes nothing of the master
  refine Spec.bind ((Spec.forIn (fun _ _ m => m = m₀) fun p _ _ => ?_).mono (fun _ h => h.1)
    (fun _ _ h => h) (fun _ h => h)) fun _ => ?_
  · rcases p with ⟨_, s⟩
    exact Spec.bind (Spec.onStore_total (Total.emit _) fun _ _ h => h) fun _ =>
      Spec.pure fun _ h => h
  refine Spec.modifyMe_bind (fun m : MasterReplication => m.subscriptions = [] ∧
    m.state = m₀.state ∧ m.clusterSize = m₀.clusterSize)
    (fun _ h => by subst h; exact ⟨rfl, rfl, rfl⟩) ?_
  refine Spec.me_bind fun m₁ => ?_
  split
  rename_i ws t heq
  have ht : t = m₁.commits.reset.2 := by rw [heq]
  let R : MasterReplication → Prop := fun m => m.subscriptions = [] ∧ m.commits = t ∧
    m.state = m₀.state ∧ m.clusterSize = m₀.clusterSize
  refine Spec.modifyMe_bind R (fun _ ⟨⟨h₁, h₂, h₃⟩, _⟩ => ⟨h₁, rfl, h₂, h₃⟩) ?_
  -- failing the pending writes only replies to clients
  refine Spec.bind (Spec.forIn (fun _ _ => R) fun _ _ _ => Spec.bind
    (Spec.onStore_total (Total.reply _ _) fun _ _ h => h) fun _ => Spec.pure fun _ h => h)
    fun _ => ?_
  refine Spec.pure fun m ⟨h₁, h₂, h₃, h₄⟩ => ⟨h₁, ?_, ?_, h₃, h₄⟩
  · rw [h₂, ht, CommitTracker.reset_acks]
  · rw [h₂, ht, CommitTracker.reset_pending]

end MasterReplication
end EventStore
