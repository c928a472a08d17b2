import EventStore.Service.StorageWriter

/-!
# The storage writer's subscription

The storage writer applies the replication stream of the one subscription it holds. This module
says where that subscription comes from and where it goes: the master's acceptance of a
subscription (`ReplicaSubscribed`) is the only message that gives the writer one, and then only
the accepted one; a role change out of replication (to unknown, elected, master or waiting for a
master) clears it; shutting down stops the writer. Every other message leaves the subscription as
it was or clears it, when the stream stopped fitting the log.

The writer's actions are built from store actions, which never touch the writer's own state, and
from a few updates of that state. `StorageWriter.Keeps P x` says that `x` keeps the subscription
within `P`; it is closed under binding, branching and loops, so each action is checked once,
from the actions it calls.
-/

namespace EventStore

/-- Whether the bus hands a message to the storage writer. -/
def Message.reachesWriter (m : Message) : Bool := m.targets.contains .storageWriter

/-- The subscription a message grants the storage writer: the master's acceptance of the node's
subscription. -/
def Message.grantedSubscription : Message → Option Uuid
  | .replication (.replicaSubscribed x) => some x.subscriptionId
  | _ => none

/-- Whether a replication message is a piece of the stream the writer applies to its log. -/
def ReplicationMsg.carriesData : ReplicationMsg → Bool
  | .createChunk _ | .rawChunkBulk _ | .dataChunkBulk _ => true
  | _ => false

namespace Actor

variable {σ ε α β : Type}

theorem run_bind (x : ActorM σ ε α) (f : α → ActorM σ ε β) (a : Actor σ) :
    (x >>= f).run.run a = match x.run.run a with
      | (.ok v, a') => (f v).run.run a'
      | (.error e, a') => (.error e, a') := by
  rw [ExceptT.run_bind, StateT.run_bind]
  rcases x.run.run a with ⟨r, a'⟩
  cases r <;> rfl

/-- A bind that succeeds ran both of its parts with success. -/
theorem run_bind_ok {x : ActorM σ ε α} {f : α → ActorM σ ε β} {a a' : Actor σ} {v : β}
    (h : (x >>= f).run.run a = (.ok v, a')) :
    ∃ u a₁, x.run.run a = (.ok u, a₁) ∧ (f u).run.run a₁ = (.ok v, a') := by
  rw [run_bind] at h
  rcases hx : x.run.run a with ⟨r, a₁⟩
  rw [hx] at h
  cases r with
  | ok u => exact ⟨u, a₁, rfl, h⟩
  | error e => cases h

theorem run_pure (v : α) (a : Actor σ) : (pure v : ActorM σ ε α).run.run a = (.ok v, a) := rfl

theorem me_bind_run (f : σ → ActorM σ ε β) (a : Actor σ) :
    (me >>= f).run.run a = (f a.self).run.run a := rfl

theorem modifyMe_run (g : σ → σ) (a : Actor σ) :
    (modifyMe g : ActorM σ ε Unit).run.run a = (.ok (), { a with self := g a.self }) := rfl

theorem publish_run (m : Message) (a : Actor σ) :
    (publish m : ActorM σ ε Unit).run.run a = (.ok (), { a with outbox := a.outbox.push m }) := rfl

end Actor

namespace StorageWriter

/-- The action keeps the writer's subscription within `P`, whatever it returns. -/
def Keeps {α : Type} (P : Option Uuid → Prop) (x : ActorM StorageWriter ServiceError α) : Prop :=
  ∀ a, P a.self.subscription → P (x.run.run a).2.self.subscription

section Keeps

variable {α β : Type} {P : Option Uuid → Prop}

theorem Keeps.bind {x : ActorM StorageWriter ServiceError α}
    {f : α → ActorM StorageWriter ServiceError β} (hx : Keeps P x) (hf : ∀ v, Keeps P (f v)) :
    Keeps P (x >>= f) := by
  intro a ha
  rw [Actor.run_bind]
  have h₁ := hx a ha
  rcases hr : x.run.run a with ⟨r, a'⟩
  rw [hr] at h₁
  cases r with
  | ok v => exact hf v a' h₁
  | error e => exact h₁

theorem Keeps.pure (v : α) : Keeps P (Pure.pure v : ActorM StorageWriter ServiceError α) :=
  fun _ ha => ha

theorem Keeps.onStore (m : StoreM ServiceError α) :
    Keeps P (Actor.onStore m : ActorM StorageWriter ServiceError α) := fun _ ha => ha

theorem Keeps.onDb (m : StoreM DbError α) :
    Keeps P (Actor.onDb m : ActorM StorageWriter ServiceError α) := fun _ ha => ha

theorem Keeps.onEpochs (m : StoreM EpochError α) :
    Keeps P (Actor.onEpochs m : ActorM StorageWriter ServiceError α) := fun _ ha => ha

theorem Keeps.onWorld (m : WorldM ServiceError α) :
    Keeps P (Actor.onWorld m : ActorM StorageWriter ServiceError α) := fun _ ha => ha

theorem Keeps.publish (m : Message) :
    Keeps P (Actor.publish m : ActorM StorageWriter ServiceError Unit) := fun _ ha => ha

theorem Keeps.me : Keeps P (Actor.me : ActorM StorageWriter ServiceError StorageWriter) :=
  fun _ ha => ha

theorem Keeps.me_bind {f : StorageWriter → ActorM StorageWriter ServiceError β}
    (hf : ∀ w, Keeps P (f w)) : Keeps P (Actor.me >>= f) := by
  intro a ha
  rw [Actor.me_bind_run]
  exact hf a.self a ha

/-- An update keeps `P` when it keeps the subscription or sets one that satisfies `P`. -/
theorem Keeps.modifyMe {g : StorageWriter → StorageWriter}
    (hg : ∀ w, P w.subscription → P (g w).subscription) :
    Keeps P (Actor.modifyMe g : ActorM StorageWriter ServiceError Unit) := fun a ha => hg a.self ha

theorem Keeps.ite {p : Prop} [Decidable p] {x y : ActorM StorageWriter ServiceError α}
    (hx : Keeps P x) (hy : Keeps P y) : Keeps P (if p then x else y) := by
  split
  · exact hx
  · exact hy

theorem Keeps.throw (e : Fault ServiceError) :
    Keeps P (throw e : ActorM StorageWriter ServiceError α) := fun _ ha => ha

/-- Setting the subscription to one within `P` and then keeping `P` ends within `P`, from any
state. -/
theorem Keeps.after_set {g : StorageWriter → StorageWriter}
    {f : Unit → ActorM StorageWriter ServiceError β} (hg : ∀ w, P (g w).subscription)
    (hf : Keeps P (f ())) (a : Actor StorageWriter) :
    P ((Actor.modifyMe g >>= f).run.run a).2.self.subscription := by
  rw [Actor.run_bind, Actor.modifyMe_run]
  exact hf _ (hg a.self)

theorem Keeps.forIn {γ : Type} (l : List γ) (b : β)
    {f : γ → β → ActorM StorageWriter ServiceError (ForInStep β)} (hf : ∀ x b, Keeps P (f x b)) :
    Keeps P (forIn l b f) := by
  induction l generalizing b with
  | nil => exact .pure b
  | cons x l ih =>
    rw [List.forIn_cons]
    refine (hf x b).bind fun r => ?_
    cases r with
    | done b' => exact .pure b'
    | yield b' => exact ih b'

end Keeps

section Actions

variable {P : Option Uuid → Prop}

theorem writeEpoch_keeps : Keeps P writeEpoch := by
  unfold writeEpoch
  exact Keeps.me_bind fun _ => (Keeps.onEpochs _).bind fun _ => (Keeps.onStore _).bind fun _ =>
    Keeps.publish _

theorem writeEvents_keeps (c : Uuid) (es : List Bytes) (env : Envelope) :
    Keeps P (writeEvents c es env) := by
  unfold writeEvents
  refine Keeps.me_bind fun _ => .ite (Keeps.onWorld _) ?_
  refine (Keeps.onStore _).bind fun _ => .ite (Keeps.onWorld _) ?_
  refine (Keeps.onStore _).bind fun _ => ?_
  refine (Keeps.forIn _ _ fun _ _ => (Keeps.onDb _).bind fun _ => .pure _).bind fun _ => ?_
  exact (Keeps.onStore _).bind fun _ => (Keeps.publish _).bind fun _ => (Keeps.onStore _).bind
    fun _ => Keeps.publish _

theorem ack_keeps : Keeps P ack := by
  unfold ack
  refine Keeps.me_bind fun w => ?_
  split
  · exact (Keeps.onStore _).bind fun _ => (Keeps.publish _).bind fun _ => Keeps.publish _
  · exact .pure _

theorem requestResubscription_keeps : Keeps P requestResubscription := by
  unfold requestResubscription
  refine Keeps.me_bind fun w => ?_
  split
  · exact Keeps.publish _
  · exact .pure _

/-- After applying a piece of the stream the writer acknowledges it, or drops the subscription
when the stream no longer fits its log. -/
theorem afterApplying_keeps (hP : P none) (r : Option DbError) : Keeps P (afterApplying r) := by
  unfold afterApplying
  split
  · exact ack_keeps
  · exact .ite ((Keeps.modifyMe fun _ _ => hP).bind fun _ => requestResubscription_keeps)
      (Keeps.throw _)

/-- Each piece of the stream is applied only under the subscription it names, which the writer
keeps or drops. -/
theorem createChunk_keeps (hP : P none) (m : CreateChunk) : Keeps P (createChunk m) := by
  unfold createChunk isCurrent attempt
  refine (Keeps.me_bind fun _ => .pure _).bind fun _ => ?_
  refine .ite (.pure _) ((Keeps.onDb _).bind fun r => ?_)
  split
  · exact .pure _
  · exact afterApplying_keeps hP _

theorem rawChunkBulk_keeps (hP : P none) (m : RawChunkBulk) : Keeps P (rawChunkBulk m) := by
  unfold rawChunkBulk isCurrent attempt
  refine (Keeps.me_bind fun _ => .pure _).bind fun _ => ?_
  exact .ite (.pure _) <| (Keeps.onDb _).bind fun _ => .ite (afterApplying_keeps hP _) (.pure _)

theorem dataChunkBulk_keeps (hP : P none) (m : DataChunkBulk) : Keeps P (dataChunkBulk m) := by
  unfold dataChunkBulk isCurrent attempt
  refine (Keeps.me_bind fun _ => .pure _).bind fun _ => ?_
  exact .ite (.pure _) <| (Keeps.onDb _).bind fun _ => afterApplying_keeps hP _

/-- A role change keeps the subscription or drops it. -/
theorem changeState_keeps (hP : P none) (st : NodeState) (mm : Option Member) :
    Keeps P (changeState st mm) := by
  unfold changeState
  refine Keeps.me_bind fun _ => ?_
  dsimp only
  refine Keeps.bind (Keeps.modifyMe fun _ h => ?_) fun _ => ?_
  · exact h
  split
  · exact (Keeps.modifyMe fun _ _ => hP).bind fun _ => writeEpoch_keeps
  all_goals first
    | exact .ite ((Keeps.onStore _).bind fun _ => Keeps.modifyMe fun _ _ => hP)
        (Keeps.modifyMe fun _ _ => hP)
    | exact .pure _

/-- Every message but the master's acceptance of a subscription keeps the writer's subscription
within any `P` that allows none. -/
theorem handle_keeps (hP : P none) (m : Message) (hm : m.grantedSubscription = none) :
    Keeps P (handle m) := by
  unfold handle
  dsimp only
  split
  · exact (Keeps.publish _).bind fun _ => .pure _
  · exact (Keeps.onStore _).bind fun _ => (Keeps.publish _).bind fun _ => .pure _
  · exact Keeps.me_bind fun _ => .ite (writeEpoch_keeps.bind fun _ => .pure _) (.pure _)
  · split
    · exact (changeState_keeps hP _ _).bind fun _ => .pure _
    · exact .pure _
  · exact (writeEvents_keeps _ _ _).bind fun _ => .pure _
  · simp [Message.grantedSubscription] at hm
  · exact (createChunk_keeps hP _).bind fun _ => .pure _
  · exact (rawChunkBulk_keeps hP _).bind fun _ => .pure _
  · exact (dataChunkBulk_keeps hP _).bind fun _ => .pure _
  · exact .pure _

/-- A role change out of replication, once done, leaves no subscription: a new master drops it
before writing its epoch, the other roles after flushing the log. -/
theorem changeState_clears {st : NodeState}
    (hst : st = .unknown ∨ st = .preReplica ∨ st = .preMaster ∨ st = .master) (mm : Option Member)
    {a a' : Actor StorageWriter} {v : Unit} (h : (changeState st mm).run.run a = (.ok v, a')) :
    a'.self.subscription = none := by
  unfold changeState at h
  rw [Actor.me_bind_run] at h
  obtain ⟨_, a₁, -, h⟩ := Actor.run_bind_ok h
  rcases hst with rfl | rfl | rfl | rfl
  case inr.inr.inr =>
    dsimp only at h
    obtain ⟨_, a₂, h₂, h⟩ := Actor.run_bind_ok h
    rw [Actor.modifyMe_run, Prod.mk.injEq] at h₂
    have hk := @writeEpoch_keeps (· = none) a₂ (by rw [← h₂.2])
    rwa [h] at hk
  all_goals
    dsimp only at h
    split at h
    · obtain ⟨_, a₂, -, h⟩ := Actor.run_bind_ok h
      rw [Actor.modifyMe_run, Prod.mk.injEq] at h
      obtain ⟨-, rfl⟩ := h
      rfl
    · rw [Actor.modifyMe_run, Prod.mk.injEq] at h
      obtain ⟨-, rfl⟩ := h
      rfl

/-- A state change to unknown, waiting for a master, elected or master, once handled, leaves the
writer no subscription. -/
theorem handle_clears {s : SystemMsg} {st : NodeState} (hs : s.newState? = some st)
    (hst : st = .unknown ∨ st = .preReplica ∨ st = .preMaster ∨ st = .master)
    {a a' : Actor StorageWriter} (h : (handle (.system s)).run.run a = (.ok true, a')) :
    a'.self.subscription = none := by
  cases s
  all_goals simp only [SystemMsg.newState?, Option.some.injEq, reduceCtorEq] at hs
  all_goals subst hs
  all_goals simp only [reduceCtorEq, or_self, or_false, false_or] at hst
  all_goals
    simp only [handle, SystemMsg.newState?] at h
    obtain ⟨_, a₁, h₁, h₂⟩ := Actor.run_bind_ok h
    rw [Actor.run_pure, Prod.mk.injEq] at h₂
    obtain ⟨-, rfl⟩ := h₂
    exact changeState_clears (by simp) _ h₁

/-- Shutting down stops the writer: it never answers that it goes on. -/
theorem handle_becomeShuttingDown_stops (cid : Uuid) (exitProcess : Bool)
    (a a' : Actor StorageWriter) :
    (handle (.system (.becomeShuttingDown cid exitProcess))).run.run a ≠ (.ok true, a') := by
  intro h
  simp only [handle] at h
  obtain ⟨_, a₁, -, h⟩ := Actor.run_bind_ok h
  obtain ⟨_, a₂, -, h⟩ := Actor.run_bind_ok h
  cases h

/-- The master's acceptance, once handled, leaves the writer the accepted subscription, or none
when the log could not be cut back to where the stream starts. -/
theorem replicaSubscribed_subscription (x : ReplicaSubscribed) (a : Actor StorageWriter) :
    ((replicaSubscribed x).run.run a).2.self.subscription = none ∨
      ((replicaSubscribed x).run.run a).2.self.subscription = some x.subscriptionId := by
  let Q : Option Uuid → Prop := fun s => s = none ∨ s = some x.subscriptionId
  change Q _
  unfold replicaSubscribed
  -- the subscription is set first; what follows keeps it or drops it
  refine Keeps.after_set (fun _ => .inr rfl) ?_ a
  refine (Keeps.onStore _).bind fun _ => .ite ?_ ack_keeps
  refine (Keeps.onDb _).bind fun _ => (Keeps.onStore _).bind fun _ => ?_
  refine (Keeps.onEpochs _).bind fun _ => (Keeps.onStore _).bind fun _ => .ite ?_ ack_keeps
  exact (Keeps.modifyMe fun _ _ => .inl rfl).bind fun _ => requestResubscription_keeps

theorem handle_replicaSubscribed (x : ReplicaSubscribed) {a a' : Actor StorageWriter}
    (h : (handle (.replication (.replicaSubscribed x))).run.run a = (.ok true, a')) :
    a'.self.subscription = none ∨ a'.self.subscription = some x.subscriptionId := by
  simp only [handle] at h
  obtain ⟨_, a₁, h₁, h₂⟩ := Actor.run_bind_ok h
  cases h₂
  have hsub := replicaSubscribed_subscription x a
  rwa [h₁] at hsub

theorem isCurrent_run (sub : Uuid) (a : Actor StorageWriter) :
    (isCurrent sub).run.run a = (.ok (a.self.subscription == some sub), a) := rfl

theorem isCurrent_bind_of_ne {β : Type} {f : Bool → ActorM StorageWriter ServiceError β}
    {sub : Uuid} {a : Actor StorageWriter} (hne : a.self.subscription ≠ some sub) :
    (isCurrent sub >>= f).run.run a = (f false).run.run a := by
  rw [Actor.run_bind, isCurrent_run, beq_eq_false_iff_ne.2 hne]

/-- The writer applies a piece of the stream only under the subscription it holds: under any
other it does nothing at all. -/
theorem handle_data_of_other_subscription {x : ReplicationMsg} (hx : x.carriesData)
    {mid sub : Uuid} (hsub : x.subscription? = some (mid, sub)) (a : Actor StorageWriter)
    (hne : a.self.subscription ≠ some sub) :
    (handle (.replication x)).run.run a = (.ok true, a) := by
  cases x
  all_goals simp only [ReplicationMsg.carriesData, Bool.false_eq_true] at hx
  all_goals
    simp only [ReplicationMsg.subscription?, Option.some.injEq, Prod.mk.injEq] at hsub
    obtain ⟨-, rfl⟩ := hsub
    simp only [handle, createChunk, rawChunkBulk, dataChunkBulk]
    rw [Actor.run_bind, isCurrent_bind_of_ne hne]
    rfl

end Actions

end StorageWriter

end EventStore
