import EventStore.Proofs.Service.WriteRanges
import EventStore.Replication.Replica

/-!
# What one event does to the replica's heartbeat detector

A replica watches its master through four fields: the generation of its connection, the
connection with the count of frames read on it, the count at the last tick, and whether a
heartbeat request is out (`Replica.Detector`). It is handed two kinds of event: messages of the
node's bus, and frames arriving on its connection.

`heartbeatStep` says, for every event, all that it can do to those fields (`HeartbeatStep`). A
message other than a heartbeat tick leaves them alone, closes the connection, or opens a new one
in a new generation with nothing counted and nothing awaited. A frame counts on the connection. A
tick of another generation, or one without a connection, changes nothing at all. A tick of the
current generation records the frames that came since the last tick; if none came it asks the
master for a heartbeat, and if one was asked for already it gives the connection up.
-/

namespace EventStore

/-- What a replica is handed: a message of the node's bus, or a frame arriving on its connection
to the master. -/
inductive ReplicaEvent where
  | message (m : Message)
  | frame

namespace ReplicaEvent

/-- A heartbeat tick of generation `g`. -/
def tick (g : Nat) : ReplicaEvent := .message (.replication (.heartbeatTick g))

/-- What the replica does with an event. -/
def run : ReplicaEvent → ReplicaM Unit
  | .message m => Replica.handle m
  | .frame => Replica.frameReceived

theorem frame_ne_tick (g : Nat) : frame ≠ tick g := nofun

theorem tick_injective : Function.Injective tick := by
  intro g g' h
  cases h
  rfl

theorem message_ne_tick {m : Message} (hm : ∀ g, m ≠ .replication (.heartbeatTick g)) (g : Nat) :
    message m ≠ tick g := fun h => hm g (message.inj h)

end ReplicaEvent

namespace Replica

/-- The fields of a replica that its heartbeat detector reads and writes. -/
structure Detector where
  generation : Nat
  link : Option MasterLink
  lastReceived : Nat
  awaitingHeartbeat : Bool

/-- The replica's heartbeat detector. -/
def detector (r : Replica) : Detector := ⟨r.generation, r.link, r.lastReceived, r.awaitingHeartbeat⟩

@[simp] theorem generation_detector (r : Replica) : r.detector.generation = r.generation := rfl
@[simp] theorem link_detector (r : Replica) : r.detector.link = r.link := rfl
@[simp] theorem lastReceived_detector (r : Replica) : r.detector.lastReceived = r.lastReceived := rfl
@[simp] theorem awaitingHeartbeat_detector (r : Replica) :
    r.detector.awaitingHeartbeat = r.awaitingHeartbeat := rfl

theorem detector_eq_of_link_none {r : Replica} (h : r.link = none) :
    { r.detector with link := none } = r.detector := by
  simp [detector, h]

/-- What a message other than a heartbeat tick may do to the detector: leave it alone, close
the connection, or open a new one in a new generation, with nothing counted and nothing awaited. -/
def Detector.Reconnects (d d' : Detector) : Prop :=
  d' = d ∨ d' = { d with link := none } ∨
    ∃ l : MasterLink, l.received = 0 ∧ d' = ⟨d.generation + 1, some l, 0, false⟩

theorem Detector.Reconnects.refl (d : Detector) : d.Reconnects d := .inl rfl

section Actions

variable {a a' : Actor Replica}

theorem runs_modifyMe_inv {g : Replica → Replica} {u : Unit}
    (h : Runs (Actor.modifyMe g : ReplicaM Unit) a u a') : a' = { a with self := g a.self } :=
  Runs.modify_inv h

theorem runs_onWorld_inv {α : Type} {m : WorldM ServiceError α} {v : α}
    (h : Runs (Actor.onWorld m : ReplicaM α) a v a') :
    (∃ w, Runs m a.store.world v w ∧ a'.store = { a.store with world := w }) ∧
      a'.self = a.self ∧ a'.outbox = a.outbox := by
  obtain ⟨hm, hself, hout⟩ := Actor.runs_onStore_inv h
  exact ⟨Runs.onWorld_inv hm, hself, hout⟩

/-- Sending leaves the replica's state alone, and queues the message on the connection if there
is one. -/
theorem runs_send_inv {m : PeerMessage} {u : Unit} (h : Runs (send m) a u a') :
    a'.self = a.self ∧ ∀ l, a.self.link = some l →
      a'.store.world.traffic = a.store.world.traffic.push (.send l.conn m) := by
  unfold send at h
  obtain ⟨r, a₁, h₁, h₂⟩ := h.bind_inv
  obtain ⟨rfl, rfl⟩ := Actor.runs_me_inv h₁
  split at h₂
  · rename_i l hl
    obtain ⟨⟨w, hw, hst⟩, hself, -⟩ := runs_onWorld_inv h₂
    refine ⟨hself, fun l' hl' => ?_⟩
    rw [hl] at hl'
    cases hl'
    rw [hst, Runs.modify_inv hw]
  · obtain ⟨-, rfl⟩ := Runs.pure_inv h₂
    exact ⟨rfl, fun l hl => by simp_all⟩

/-- Closing the connection without reporting it. -/
theorem runs_disconnect_inv {u : Unit} (h : Runs disconnect a u a') :
    a'.self.detector = { a.self.detector with link := none } := by
  unfold disconnect at h
  obtain ⟨r, a₁, h₁, h₂⟩ := h.bind_inv
  obtain ⟨rfl, rfl⟩ := Actor.runs_me_inv h₁
  split at h₂
  · obtain ⟨_, a₂, h₂, h₃⟩ := h₂.bind_inv
    obtain ⟨-, hself, -⟩ := runs_onWorld_inv h₂
    rw [runs_modifyMe_inv h₃, hself]
    rfl
  · rename_i hl
    obtain ⟨-, rfl⟩ := Runs.pure_inv h₂
    exact (detector_eq_of_link_none (Option.eq_none_iff_forall_ne_some.2 hl)).symm

/-- Giving the connection up after a failure. -/
theorem runs_connectionLost_inv {u : Unit} (h : Runs connectionLost a u a') :
    a'.self.detector = { a.self.detector with link := none } ∧
      ∀ l, a.self.link = some l → a'.outbox = a.outbox.push (.system (.vnodeConnectionLost l.endpoint)) := by
  unfold connectionLost at h
  obtain ⟨r, a₁, h₁, h₂⟩ := h.bind_inv
  obtain ⟨rfl, rfl⟩ := Actor.runs_me_inv h₁
  split at h₂
  · rename_i l hl
    obtain ⟨_, a₂, h₂, h₃⟩ := h₂.bind_inv
    obtain ⟨-, hself, hout⟩ := runs_onWorld_inv h₂
    obtain ⟨_, a₃, h₃, h₄⟩ := h₃.bind_inv
    rw [Actor.runs_publish_inv h₄, runs_modifyMe_inv h₃]
    refine ⟨by rw [hself]; rfl, fun l' hl' => ?_⟩
    rw [hl] at hl'
    cases hl'
    rw [hout]
  · rename_i hl
    obtain ⟨-, rfl⟩ := Runs.pure_inv h₂
    exact ⟨(detector_eq_of_link_none (Option.eq_none_iff_forall_ne_some.2 hl)).symm,
      fun l hl' => absurd hl' (hl l)⟩

/-- Scheduling a tick only publishes. -/
theorem runs_scheduleTick_inv {d : Nat} {u : Unit} (h : Runs (scheduleTick d) a u a') :
    a'.self = a.self ∧ a'.store = a.store := by
  unfold scheduleTick at h
  obtain ⟨r, a₁, h₁, h₂⟩ := h.bind_inv
  obtain ⟨rfl, rfl⟩ := Actor.runs_me_inv h₁
  rw [Actor.runs_publish_inv h₂]
  exact ⟨rfl, rfl⟩

/-- Connecting replaces the connection: by none when the master does not take it, and otherwise
by a new one in a new generation, with nothing counted and nothing awaited. -/
theorem runs_connect_inv {master : Member} {u : Unit} (h : Runs (connect master) a u a') :
    a.self.detector.Reconnects a'.self.detector := by
  unfold connect at h
  obtain ⟨_, a₁, h₁, h₂⟩ := h.bind_inv
  have hd₁ := runs_disconnect_inv h₁
  have hgen₁ : a₁.self.generation = a.self.generation := congrArg Detector.generation hd₁
  obtain ⟨_, a₂, h₂, h₃⟩ := h₂.bind_inv
  rw [runs_modifyMe_inv h₂] at h₃
  obtain ⟨r, a₃, h₃, h₄⟩ := h₃.bind_inv
  obtain ⟨rfl, rfl⟩ := Actor.runs_me_inv h₃
  split at h₄
  · -- the master takes the connection
    obtain ⟨conn, a₄, h₄, h₅⟩ := h₄.bind_inv
    obtain ⟨-, hself₄, -⟩ := runs_onWorld_inv h₄
    obtain ⟨_, a₅, h₅, h₆⟩ := h₅.bind_inv
    obtain ⟨_, a₆, h₆, h₇⟩ := h₆.bind_inv
    obtain ⟨r, a₇, h₇, h₈⟩ := h₇.bind_inv
    obtain ⟨rfl, rfl⟩ := Actor.runs_me_inv h₇
    rw [(runs_scheduleTick_inv h₈).1, Actor.runs_publish_inv h₆, runs_modifyMe_inv h₅, hself₄]
    refine Or.inr (Or.inr ⟨{ endpoint := master.internalTcp, conn }, rfl, ?_⟩)
    rw [generation_detector, ← hgen₁]
    rfl
  · -- it does not: the connection is gone, and the failure reported
    rw [Actor.runs_publish_inv h₄]
    exact Or.inr (Or.inl hd₁)

end Actions

end Replica

open Replica in
/-- All that one event can do to the replica's heartbeat detector, taking the replica from `a`
to `a'`. -/
inductive HeartbeatStep (a : Actor Replica) : ReplicaEvent → Actor Replica → Prop
  /-- A message other than a heartbeat tick leaves the detector alone, closes the connection, or
  opens a new one in a new generation, with nothing counted and nothing awaited. -/
  | message {m : Message} {a' : Actor Replica} (hm : ∀ g, m ≠ .replication (.heartbeatTick g))
      (hd : a.self.detector.Reconnects a'.self.detector) : HeartbeatStep a (.message m) a'
  /-- A frame counts on the connection, if there is one. -/
  | frame {a' : Actor Replica}
      (hd : a'.self.detector = { a.self.detector with
        link := a.self.link.map fun l => { l with received := l.received + 1 } }) :
      HeartbeatStep a .frame a'
  /-- A tick of another generation changes nothing at all. -/
  | stale {g : Nat} (hg : g ≠ a.self.generation) : HeartbeatStep a (.tick g) a
  /-- A tick without a connection changes nothing at all. -/
  | idle (hl : a.self.link = none) : HeartbeatStep a (.tick a.self.generation) a
  /-- A tick of the current generation that finds frames since the last one records them, and
  awaits nothing. -/
  | progress (l : MasterLink) (hl : a.self.link = some l) (hne : l.received ≠ a.self.lastReceived)
      {a' : Actor Replica}
      (hd : a'.self.detector =
        { a.self.detector with lastReceived := l.received, awaitingHeartbeat := false }) :
      HeartbeatStep a (.tick a.self.generation) a'
  /-- A tick of the current generation that finds no frame since the last one, with nothing
  awaited, asks the master for a heartbeat. -/
  | request (l : MasterLink) (hl : a.self.link = some l) (heq : l.received = a.self.lastReceived)
      (haw : a.self.awaitingHeartbeat = false) {a' : Actor Replica}
      (hd : a'.self.detector = { a.self.detector with awaitingHeartbeat := true })
      (hsent : a'.store.world.traffic = a.store.world.traffic.push
        (.send l.conn (.heartbeatRequest (a.self.heartbeatNum + 1)))) :
      HeartbeatStep a (.tick a.self.generation) a'
  /-- A tick of the current generation that finds no frame since a heartbeat was asked for gives
  the connection up, and reports it lost. -/
  | lost (l : MasterLink) (hl : a.self.link = some l) (heq : l.received = a.self.lastReceived)
      (haw : a.self.awaitingHeartbeat = true) {a' : Actor Replica}
      (hd : a'.self.detector = { a.self.detector with link := none })
      (hout : a'.outbox = a.outbox.push (.system (.vnodeConnectionLost l.endpoint))) :
      HeartbeatStep a (.tick a.self.generation) a'

namespace Replica

variable {a a' : Actor Replica}

/-- What a heartbeat tick does, by the state it finds. -/
theorem heartbeatStep_heartbeatTick {g : Nat} {u : Unit} (h : Runs (heartbeatTick g) a u a') :
    HeartbeatStep a (.tick g) a' := by
  unfold heartbeatTick at h
  obtain ⟨r, a₁, h₁, h₂⟩ := h.bind_inv
  obtain ⟨rfl, rfl⟩ := Actor.runs_me_inv h₁
  -- a tick of another generation returns at once
  split at h₂
  · rename_i hg
    obtain ⟨-, rfl⟩ := Runs.pure_inv h₂
    exact .stale hg
  rename_i hg
  have hg := Decidable.of_not_not hg
  subst hg
  split at h₂
  · rename_i l hl
    split at h₂
    · -- frames came since the last tick
      rename_i hne
      obtain ⟨_, a₂, h₂, h₃⟩ := h₂.bind_inv
      refine .progress l hl hne ?_
      rw [(runs_scheduleTick_inv h₃).1, runs_modifyMe_inv h₂]
      rfl
    split at h₂
    · -- none came and none was asked for: a heartbeat is asked for
      rename_i heq haw
      obtain ⟨_, a₂, h₂, h₃⟩ := h₂.bind_inv
      obtain ⟨_, a₃, h₃, h₄⟩ := h₃.bind_inv
      obtain ⟨hself₃, hsent⟩ := runs_send_inv h₃
      obtain ⟨hself₄, hstore₄⟩ := runs_scheduleTick_inv h₄
      rw [runs_modifyMe_inv h₂] at hsent hself₃
      refine .request l hl (Decidable.of_not_not heq) (by simpa using haw) ?_ ?_
      · rw [hself₄, hself₃]
        rfl
      · rw [hstore₄, hsent l hl]
    · -- none came since a heartbeat was asked for: the connection is given up
      rename_i heq haw
      obtain ⟨hd, hout⟩ := runs_connectionLost_inv h₂
      exact .lost l hl (Decidable.of_not_not heq) (by simpa using haw) hd (hout l hl)
  · rename_i hl
    obtain ⟨-, rfl⟩ := Runs.pure_inv h₂
    exact .idle (Option.eq_none_iff_forall_ne_some.2 hl)

/-- What an action keeps of the replica holds after every run of it. -/
theorem keeps_runs {α : Type} {P : Replica → Prop} {x : ReplicaM α} {v : α} (hx : Actor.Keeps P x)
    (h : Runs x a v a') (ha : P a.self) : P a'.self := by
  have h₁ := hx.run ha
  rw [show StateT.run _ a = _ from h] at h₁
  exact h₁

theorem keeps_send (P : Replica → Prop) (m : PeerMessage) : Actor.Keeps P (send m) :=
  Actor.Keeps.me_bind fun r => by
    split
    · exact Actor.Keeps.onWorld _
    · exact Actor.Keeps.pure _

/-- Subscribing connects first when there is no connection, and otherwise leaves the detector
alone. -/
theorem runs_subscribe_inv {masterId sub : Uuid} {u : Unit} (h : Runs (subscribe masterId sub) a u a') :
    a.self.detector.Reconnects a'.self.detector := by
  unfold subscribe at h
  obtain ⟨r, a₁, h₁, h₂⟩ := h.bind_inv
  obtain ⟨rfl, rfl⟩ := Actor.runs_me_inv h₁
  -- the request itself reads the store and sets the subscription, which the detector ignores
  have htail : ∀ {b b' : Actor Replica} {x : ReplicaM Unit} {v : Unit},
      Actor.Keeps (fun r => r.detector = b.self.detector) x → Runs x b v b' →
      b'.self.detector = b.self.detector := fun hx hr => keeps_runs hx hr rfl
  split at h₂
  · split at h₂
    · obtain ⟨-, rfl⟩ := Runs.pure_inv h₂
      exact .refl _
    obtain ⟨r, a₂, h₂, h₃⟩ := h₂.bind_inv
    obtain ⟨rfl, rfl⟩ := Actor.runs_me_inv h₂
    dsimp only at h₃
    split at h₃
    · -- no connection: one is made first, and the request goes out only if it was
      obtain ⟨_, a₃, h₃, h₄⟩ := h₃.bind_inv
      have hc := runs_connect_inv h₃
      obtain ⟨r, a₄, h₄, h₅⟩ := h₄.bind_inv
      obtain ⟨rfl, rfl⟩ := Actor.runs_me_inv h₄
      split at h₅
      · obtain ⟨-, rfl⟩ := Runs.pure_inv h₅
        exact hc
      · rw [htail ?_ h₅]
        · exact hc
        refine .bind (.onStore _) fun _ => .bind (.onStore _) fun _ => .bind (.onStore _) fun _ => ?_
        exact .me_bind fun _ => .bind (.modifyMe fun _ hs => hs) fun _ => keeps_send _ _
    · rw [htail ?_ h₃]
      · exact .refl _
      refine .bind (.onStore _) fun _ => .bind (.onStore _) fun _ => .bind (.onStore _) fun _ => ?_
      exact .me_bind fun _ => .bind (.modifyMe fun _ hs => hs) fun _ => keeps_send _ _
  · obtain ⟨-, rfl⟩ := Runs.pure_inv h₂
    exact .refl _

/-- What a message does to the detector. -/
theorem heartbeatStep_handle {m : Message} {u : Unit} (h : Runs (handle m) a u a') :
    HeartbeatStep a (.message m) a' := by
  unfold handle at h
  split at h
  case h_1 =>
    -- a new master: a connection to it
    obtain ⟨_, a₁, h₁, h₂⟩ := h.bind_inv
    rw [runs_modifyMe_inv h₁] at h₂
    have hc := runs_connect_inv h₂
    exact .message (fun _ => nofun) hc
  case h_2 =>
    -- a change of role closes the connection when the role is not a replica's
    refine .message (fun _ => nofun) ?_
    split at h
    · obtain ⟨_, a₁, h₁, h₂⟩ := h.bind_inv
      rw [runs_modifyMe_inv h₁] at h₂
      split at h₂
      · obtain ⟨_, a₂, h₂, h₃⟩ := h₂.bind_inv
        have hd := runs_disconnect_inv h₂
        rw [runs_modifyMe_inv h₃]
        exact .inr (.inl hd)
      · obtain ⟨-, rfl⟩ := Runs.pure_inv h₂
        exact .refl _
    · obtain ⟨-, rfl⟩ := Runs.pure_inv h
      exact .refl _
  case h_3 => exact .message (fun _ => nofun) (runs_connect_inv h)
  case h_4 => exact .message (fun _ => nofun) (runs_subscribe_inv h)
  case h_6 => exact heartbeatStep_heartbeatTick h
  case h_9 hsys _ _ _ _ htick _ _ =>
    obtain ⟨-, rfl⟩ := Runs.pure_inv h
    exact .message htick (.refl _)
  -- acknowledgements and forwarded writes only send
  all_goals exact .message (fun _ => nofun) (.inl (keeps_runs (P := fun r => r.detector = _)
    (.me_bind fun _ => .ite (keeps_send _ _) (.pure _)) h rfl))

theorem heartbeatStep_frameReceived {u : Unit} (h : Runs frameReceived a u a') :
    HeartbeatStep a .frame a' := by
  refine .frame ?_
  rw [runs_modifyMe_inv h]
  rfl

end Replica

/-- Every event the replica handles is one of the steps of its heartbeat detector. -/
theorem heartbeatStep {a a' : Actor Replica} {e : ReplicaEvent} {u : Unit} (h : Runs e.run a u a') :
    HeartbeatStep a e a' := by
  cases e with
  | message m => exact Replica.heartbeatStep_handle h
  | frame => exact Replica.heartbeatStep_frameReceived h

end EventStore
