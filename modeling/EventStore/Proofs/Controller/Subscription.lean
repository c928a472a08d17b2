import EventStore.Proofs.Controller.Steps

/-!
# The storage writer follows the controller's subscription

A node's controller decides which replication stream is current, and its storage writer applies
the stream of the subscription it holds. `WriterPair` joins the two as the bus joins them: the
controller handles each message, and everything it publishes for the writer is handed to the
writer in order; a writer that answered that it is done, or failed, takes nothing more. What the
writer publishes goes back to the node's queue, and so is among the messages of a run.

Along every run from construction the writer's subscription is none or the controller's current
one, and it is one only while the controller replicates: catching up, clone or slave
(`WriterPair.Agrees`). Each move of `Controller.Move` keeps this, with the writer's side of the
move taken from what `StorageWriter.handle` does to the subscription. So a piece of the stream
sent under another subscription, or by another master, changes nothing: the controller drops it
(`step_data_of_not_legitimate`), and the writer, were it handed one under another subscription,
ignores it (`feed_data_of_other_subscription`).
-/

namespace EventStore

/-- The subscriptions a storage writer may hold beside controller `c`: none, or the controller's
current one while the controller replicates. -/
def Controller.WriterMayHold (c : Controller) (s : Option Uuid) : Prop :=
  s = none ∨ (s = some c.subscriptionId ∧ (c.state = .catchingUp ∨ c.state = .clone ∨
    c.state = .slave))

theorem Controller.writerMayHold_none (c : Controller) : c.WriterMayHold none := .inl rfl

/-- A node's controller and storage writer, with the store they share. -/
structure WriterPair where
  ctl : Controller
  store : Store
  /-- The writer, until it stops. -/
  writer : Option StorageWriter

namespace WriterPair

/-- The writer handles a message, if it still runs; it goes on only when it answers so. -/
def feed (p : WriterPair) (m : Message) : WriterPair :=
  match p.writer with
  | none => p
  | some w =>
    match (StorageWriter.handle m).run.run { store := p.store, self := w } with
    | (.ok true, a) => { p with store := a.store, writer := some a.self }
    | (_, a) => { p with store := a.store, writer := none }

/-- The controller handles a message, and the writer what the controller published for it. -/
def step (p : WriterPair) (m : Message) : WriterPair :=
  let r := ((Controller.handle m).run { ctl := p.ctl, world := p.store.world }).2
  (r.out.toList.filter Message.reachesWriter).foldl feed
    { p with ctl := r.ctl, store := { p.store with world := r.world } }

/-- A node just built over a store: a fresh controller and a fresh writer. -/
def init (info : NodeInfo) (timeouts : ControllerTimeouts) (store : Store) : WriterPair where
  ctl := { info, timeouts }
  store
  writer := some { instanceId := info.instanceId }

/-- The pair after handling messages in order. -/
def run (p : WriterPair) (ms : List Message) : WriterPair := ms.foldl step p

/-- The writer holds only what the controller allows it. -/
def Agrees (p : WriterPair) : Prop := ∀ w ∈ p.writer, p.ctl.WriterMayHold w.subscription

/-! ## Feeding the writer -/

section Feed

variable {Q : Option Uuid → Prop}

theorem feed_ctl (p : WriterPair) (m : Message) : (p.feed m).ctl = p.ctl := by
  unfold feed
  split
  · rfl
  · split <;> rfl

theorem foldl_feed_ctl (p : WriterPair) (ms : List Message) : (ms.foldl feed p).ctl = p.ctl := by
  induction ms generalizing p with
  | nil => rfl
  | cons m ms ih => rw [List.foldl_cons, ih, feed_ctl]

/-- A writer that runs after a message ran before it and answered that it goes on. -/
theorem mem_feed_writer {p : WriterPair} {m : Message} {w' : StorageWriter}
    (h : w' ∈ (p.feed m).writer) :
    ∃ w ∈ p.writer, ∃ a', (StorageWriter.handle m).run.run { store := p.store, self := w } =
      (.ok true, a') ∧ a'.self = w' := by
  unfold feed at h
  split at h
  · simp_all
  · rename_i w hw
    split at h
    · rename_i a hrun
      exact ⟨w, hw, a, hrun, Option.some.inj h⟩
    · simp at h

/-- A message whose handling keeps `Q` keeps it for the writer. -/
theorem feed_of_keeps {m : Message} (hk : StorageWriter.Keeps Q (StorageWriter.handle m))
    {p : WriterPair} (h : ∀ w ∈ p.writer, Q w.subscription) :
    ∀ w ∈ (p.feed m).writer, Q w.subscription := by
  intro w' hw'
  obtain ⟨w, hw, a', hrun, rfl⟩ := mem_feed_writer hw'
  have hq := hk { store := p.store, self := w } (h w hw)
  rwa [hrun] at hq

/-- A message whose handling, when the writer goes on, ends within `Q` leaves the writer within
`Q`, whatever it held. -/
theorem feed_of_ok {m : Message}
    (hok : ∀ a a', (StorageWriter.handle m).run.run a = (.ok true, a') → Q a'.self.subscription)
    (p : WriterPair) : ∀ w ∈ (p.feed m).writer, Q w.subscription := by
  intro w' hw'
  obtain ⟨w, -, a', hrun, rfl⟩ := mem_feed_writer hw'
  exact hok _ _ hrun

/-- A message the writer never goes on after stops it. -/
theorem feed_stops {m : Message}
    (hstop : ∀ a a', (StorageWriter.handle m).run.run a ≠ (.ok true, a')) (p : WriterPair) :
    (p.feed m).writer = none := by
  rcases hw : (p.feed m).writer with _ | w'
  · rfl
  · obtain ⟨w, -, a', hrun, -⟩ := mem_feed_writer (hw ▸ rfl : w' ∈ (p.feed m).writer)
    exact absurd hrun (hstop _ _)

theorem foldl_feed_of_keeps {ms : List Message}
    (hk : ∀ m ∈ ms, StorageWriter.Keeps Q (StorageWriter.handle m)) {p : WriterPair}
    (h : ∀ w ∈ p.writer, Q w.subscription) :
    ∀ w ∈ (ms.foldl feed p).writer, Q w.subscription := by
  induction ms generalizing p with
  | nil => exact h
  | cons m ms ih =>
    exact ih (fun m' hm' => hk m' (.tail m hm')) (feed_of_keeps (hk m (.head ms)) h)

/-- A state change to unknown, waiting for a master, elected or master leaves the writer no
subscription. -/
theorem feed_clears {s : SystemMsg} {st : NodeState} (hs : s.newState? = some st)
    (hst : st = .unknown ∨ st = .preReplica ∨ st = .preMaster ∨ st = .master) (p : WriterPair) :
    ∀ w ∈ (p.feed (.system s)).writer, w.subscription = none :=
  @feed_of_ok (· = none) _ (fun _ _ h => StorageWriter.handle_clears hs hst h) p

end Feed

/-! ## Every move keeps the writer in agreement -/

/-- Handling the messages of a move keeps the writer within what the controller allows, from
the controller before the move to the one after it. -/
theorem agrees_of_move {c c' : Controller} {ws : List Message} (hmove : Controller.Move c c' ws)
    {p : WriterPair} (h : ∀ w ∈ p.writer, c.WriterMayHold w.subscription) :
    ∀ w ∈ (ws.foldl feed p).writer, c'.WriterMayHold w.subscription := by
  -- a message that grants nothing keeps whatever the controller after the move allows
  have keeps : ∀ m : Message, m.grantedSubscription = none →
      StorageWriter.Keeps c'.WriterMayHold (StorageWriter.handle m) :=
    fun m hm => StorageWriter.handle_keeps c'.writerMayHold_none m hm
  -- a writer beside a controller that does not replicate holds nothing
  have none_of : ¬(c.state = .catchingUp ∨ c.state = .clone ∨ c.state = .slave) →
      ∀ w ∈ p.writer, w.subscription = none := fun hc w hw =>
    (h w hw).resolve_right fun hs => hc hs.2
  -- a role change that clears the subscription
  have clears : ∀ {s : SystemMsg} {st : NodeState}, s.newState? = some st →
      (st = .unknown ∨ st = .preReplica ∨ st = .preMaster ∨ st = .master) →
      ∀ w ∈ ([Message.system s].foldl feed p).writer, c'.WriterMayHold w.subscription :=
    fun hs hst w hw => .inl (feed_clears hs hst p w hw)
  cases hmove with
  | quiet hstate _ hsub hws =>
    have hsame : c'.WriterMayHold = c.WriterMayHold := by
      unfold Controller.WriterMayHold
      rw [hstate, hsub]
    exact foldl_feed_of_keeps (fun m hm => keeps m (hws m hm)) (hsame ▸ h)
  | resubscribe hs =>
    intro w hw
    exact .inl (none_of (by simp [hs]) w hw)
  | unknown => exact clears rfl (.inl rfl)
  | shuttingDown =>
    intro w hw
    simp [feed_stops (fun a a' => StorageWriter.handle_becomeShuttingDown_stops _ _ a a') p] at hw
  | shutdown hs =>
    intro w hw
    have hnone := @foldl_feed_of_keeps (· = none) _
      (fun m hm => by
        rw [List.mem_singleton.1 hm]
        exact @StorageWriter.handle_keeps (· = none) rfl _ rfl)
      _ (none_of (by simp [hs])) w hw
    exact .inl hnone
  | master => exact clears rfl (.inr (.inr (.inr rfl)))
  | elected => exact clears rfl (.inr (.inr (.inl rfl)))
  | follow => exact clears rfl (.inr (.inl rfl))
  | refollow => exact clears rfl (.inr (.inl rfl))
  | subscribed _ x hx hstate _ hsub =>
    -- the writer takes the accepted subscription, which is the controller's, and then keeps it
    have hgranted : ∀ w ∈ (p.feed (.replication (.replicaSubscribed x))).writer,
        c'.WriterMayHold w.subscription := by
      refine feed_of_ok (fun a a' hrun => ?_) p
      rcases StorageWriter.handle_replicaSubscribed x hrun with hnone | hsome
      · exact .inl hnone
      · exact .inr ⟨by rw [hsome, hx, hsub], .inl hstate⟩
    exact feed_of_keeps (keeps (.system (.becomeCatchingUp _ _)) rfl) hgranted
  | assigned _ hstate _ hsub w hw =>
    refine feed_of_keeps (keeps w hw) fun w' hw' => ?_
    rcases h w' hw' with hnone | ⟨hsome, -⟩
    · exact .inl hnone
    · exact .inr ⟨by rw [hsome, hsub], .inr hstate⟩

/-- One step of the pair keeps the writer in agreement with the controller. -/
theorem Agrees.step {p : WriterPair} (h : p.Agrees) (m : Message) : (p.step m).Agrees := by
  obtain ⟨-, hmove⟩ := Controller.handle_steps m p.ctl p.store.world
  unfold Agrees WriterPair.step
  rw [foldl_feed_ctl]
  exact agrees_of_move hmove h

theorem Agrees.run {p : WriterPair} (h : p.Agrees) (ms : List Message) : (p.run ms).Agrees := by
  induction ms generalizing p with
  | nil => exact h
  | cons m ms ih => exact ih (h.step m)

theorem agrees_init (info : NodeInfo) (timeouts : ControllerTimeouts) (store : Store) :
    (init info timeouts store).Agrees := by
  intro w hw
  cases Option.mem_some_iff.1 hw
  exact .inl rfl

/-! ## Stale pieces of the stream -/

/-- A replication message is not from the current master over the current subscription when it
names another subscription or another master. -/
theorem isLegitimate_eq_false {c : Controller} {x : ReplicationMsg} {mid sub : Uuid}
    (hx : x.subscription? = some (mid, sub))
    (hstale : sub ≠ c.subscriptionId ∨ ∀ m ∈ c.master, m.instanceId ≠ mid) :
    c.isLegitimate x = false := by
  rw [Bool.eq_false_iff]
  intro hl
  obtain ⟨mid', m, hx', hm, hid⟩ := Controller.isLegitimate_iff.1 hl
  rw [hx, Option.some.injEq, Prod.mk.injEq] at hx'
  obtain ⟨rfl, rfl⟩ := hx'
  rcases hstale with hne | hne
  · exact hne rfl
  · exact hne m hm hid

/-- The controller drops a piece of the stream that is not from its current master over its
current subscription: it publishes nothing and changes nothing. -/
theorem handleReplication_data_of_not_legitimate {x : ReplicationMsg} (hx : x.carriesData)
    {c : Controller} (hl : c.isLegitimate x = false) (w : World) :
    (Controller.handleReplication x).run { ctl := c, world := w } =
      ((), { ctl := c, world := w }) := by
  cases x
  all_goals simp only [ReplicationMsg.carriesData, Bool.false_eq_true] at hx
  all_goals
    simp only [Controller.handleReplication, Controller.me_bind_run]
    split
    -- the other branches are for other messages, or drop everything
    all_goals first
      | contradiction
      | rfl
      | rw [Controller.run_ite, if_neg (by simp [hl])]; rfl

theorem step_data_of_not_legitimate (p : WriterPair) {x : ReplicationMsg} (hx : x.carriesData)
    (hl : p.ctl.isLegitimate x = false) : p.step (.replication x) = p := by
  simp only [step, Controller.handle]
  rw [handleReplication_data_of_not_legitimate hx hl]
  rfl

/-- A writer in agreement with the controller ignores a piece of the stream under another
subscription than the controller's. -/
theorem feed_data_of_other_subscription {p : WriterPair} (h : p.Agrees) {x : ReplicationMsg}
    (hx : x.carriesData) {mid sub : Uuid} (hsub : x.subscription? = some (mid, sub))
    (hne : sub ≠ p.ctl.subscriptionId) : p.feed (.replication x) = p := by
  unfold feed
  split
  · rfl
  · rename_i w hw
    have hother : w.subscription ≠ some sub := by
      rcases h w hw with hnone | ⟨hsome, -⟩
      · simp [hnone]
      · rw [hsome, Ne, Option.some.injEq]
        exact fun h => hne h.symm
    rw [StorageWriter.handle_data_of_other_subscription hx hsub _ hother]
    simp only [← hw]

/-- Along every run of a node from construction, the storage writer holds no subscription or the
controller's current one, and holds one only while the controller is catching up, clone or slave.
So a piece of the stream (a new chunk, raw chunk bytes or record data) sent under another
subscription than the controller's, or by another master than its current one, changes nothing:
the store (the writer's position, the chunk files and the checkpoints) and the node stay as they
are when it arrives, and also when it is handed to the writer directly under another
subscription. -/
theorem writer_follows_controller_subscription (info : NodeInfo) (timeouts : ControllerTimeouts)
    (store : Store) (ms : List Message) :
    let p := (init info timeouts store).run ms
    (∀ w ∈ p.writer, w.subscription = none ∨
      (w.subscription = some p.ctl.subscriptionId ∧
        (p.ctl.state = .catchingUp ∨ p.ctl.state = .clone ∨ p.ctl.state = .slave))) ∧
    ∀ (x : ReplicationMsg) (mid sub : Uuid), x.carriesData → x.subscription? = some (mid, sub) →
      (sub ≠ p.ctl.subscriptionId ∨ ∀ m ∈ p.ctl.master, m.instanceId ≠ mid) →
        p.step (.replication x) = p ∧
          (sub ≠ p.ctl.subscriptionId → p.feed (.replication x) = p) := by
  intro p
  have hp : p.Agrees := (agrees_init info timeouts store).run ms
  refine ⟨hp, fun x mid sub hx hsub hstale => ⟨?_, ?_⟩⟩
  · exact step_data_of_not_legitimate p hx (isLegitimate_eq_false hsub hstale)
  · exact feed_data_of_other_subscription hp hx hsub

end WriterPair

end EventStore
