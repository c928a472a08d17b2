import Mathlib.Data.List.Induction
import EventStore.Proofs.Store.Faults
import EventStore.Proofs.Replication.Detector

/-!
# Heartbeats give a connection up only after two silent ticks

A run of the replica is a list of events, each with the state it leaves (`Replica.Replays`). Along
every run from a replica without a connection, the frame count recorded at the last tick never
passes the connection's own count (`Replica.Detector.Watching`), since counts only grow and a new
connection starts both at zero.

From there the detector's history can be read back from its state. A request is out only if the
last tick of the generation asked for it, and nothing came since (`exists_request_of_awaiting`);
the recorded count equals the connection's only if no frame came since the last tick of the
generation, or since the connection was made (`exists_mark_of_caught_up`). A tick that gives the
connection up finds both, so it comes after two ticks of its generation that saw no frame since the
one before them, the first of which asked the master for a heartbeat.
-/

namespace EventStore

namespace Replica

/-- The events `steps`, each with the state it leaves, handled one after the other from `a`. -/
def Replays : Actor Replica → List (ReplicaEvent × Actor Replica) → Prop
  | _, [] => True
  | a, (e, a') :: rest => Runs e.run a () a' ∧ Replays a' rest

/-- The state a run ends in: the one its last event left, or the one it started from. -/
def endState : Actor Replica → List (ReplicaEvent × Actor Replica) → Actor Replica
  | a, [] => a
  | _, (_, a') :: rest => endState a' rest

/-- No frame arrives, and no tick of generation `g` comes, among the events of `steps`. -/
def Quiet (g : Nat) (steps : List (ReplicaEvent × Actor Replica)) : Prop :=
  ∀ x ∈ steps, x.1 ≠ .frame ∧ x.1 ≠ .tick g

@[simp] theorem endState_nil (a : Actor Replica) : endState a [] = a := rfl

theorem endState_append (a : Actor Replica) :
    ∀ xs ys : List (ReplicaEvent × Actor Replica), endState a (xs ++ ys) = endState (endState a xs) ys
  | [], _ => rfl
  | (_, a') :: xs, ys => endState_append a' xs ys

@[simp] theorem endState_append_singleton (a : Actor Replica)
    (xs : List (ReplicaEvent × Actor Replica)) (x : ReplicaEvent × Actor Replica) :
    endState a (xs ++ [x]) = x.2 := by
  rw [endState_append]
  rfl

theorem replays_append (a : Actor Replica) :
    ∀ xs ys : List (ReplicaEvent × Actor Replica),
      Replays a (xs ++ ys) ↔ Replays a xs ∧ Replays (endState a xs) ys
  | [], _ => by simp [Replays]
  | (e, a') :: xs, ys => by
    simp only [List.cons_append, Replays, endState, replays_append a' xs ys, and_assoc]

theorem replays_append_singleton {a : Actor Replica} {xs : List (ReplicaEvent × Actor Replica)}
    {e : ReplicaEvent} {a' : Actor Replica} :
    Replays a (xs ++ [(e, a')]) ↔ Replays a xs ∧ Runs e.run (endState a xs) () a' := by
  rw [replays_append]
  exact and_congr_right fun _ => ⟨And.left, fun h => ⟨h, trivial⟩⟩

theorem append_singleton_of_split {pre pre₁ mid : List (ReplicaEvent × Actor Replica)}
    {x y : ReplicaEvent × Actor Replica} (h : pre = pre₁ ++ x :: mid) :
    pre ++ [y] = pre₁ ++ x :: (mid ++ [y]) := by
  subst h
  simp

theorem Quiet.nil (g : Nat) : Quiet g [] := fun _ hx => by cases hx

theorem Quiet.append_singleton {g : Nat} {xs : List (ReplicaEvent × Actor Replica)}
    {e : ReplicaEvent} {a' : Actor Replica} (h : Quiet g xs) (hf : e ≠ .frame) (ht : e ≠ .tick g) :
    Quiet g (xs ++ [(e, a')]) := by
  intro x hx
  rcases List.mem_append.1 hx with hx | hx
  · exact h x hx
  · rw [List.mem_singleton.1 hx]
    exact ⟨hf, ht⟩

section Ticks

theorem total_me : Total (Actor.me : ReplicaM Replica) := fun a => ⟨a.self, a, rfl⟩

theorem total_modifyMe (g : Replica → Replica) : Total (Actor.modifyMe g : ReplicaM Unit) :=
  fun _ => ⟨(), _, rfl⟩

theorem total_publish (m : Message) : Total (Actor.publish m : ReplicaM Unit) := fun _ => ⟨(), _, rfl⟩

theorem total_emit (t : Traffic) : Total (Actor.onWorld (World.emit t) : ReplicaM Unit) :=
  fun _ => ⟨(), _, rfl⟩

theorem total_send (m : PeerMessage) : Total (send m) :=
  Total.bind total_me fun r => by
    split
    · exact total_emit _
    · exact Total.pure _

theorem total_scheduleTick (d : Nat) : Total (scheduleTick d) :=
  Total.bind total_me fun _ => total_publish _

theorem total_connectionLost : Total connectionLost :=
  Total.bind total_me fun r => by
    split
    · exact Total.bind (total_emit _) fun _ => Total.bind (total_modifyMe _) fun _ => total_publish _
    · exact Total.pure _

/-- A heartbeat tick always returns. -/
theorem total_heartbeatTick (g : Nat) : Total (heartbeatTick g) := by
  unfold heartbeatTick
  refine Total.bind total_me fun r => Total.ite (Total.pure _) ?_
  split
  · exact Total.ite (Total.bind (total_modifyMe _) fun _ => total_scheduleTick _)
      (Total.ite (Total.bind (total_modifyMe _) fun _ => Total.bind (total_send _) fun _ =>
        total_scheduleTick _) total_connectionLost)
  · exact Total.pure _

end Ticks

/-- The frame count recorded at the last tick is at most the connection's count. -/
def Detector.Watching (d : Detector) : Prop := ∀ l, d.link = some l → d.lastReceived ≤ l.received

end Replica

open Replica

namespace HeartbeatStep

variable {a a' : Actor Replica} {e : ReplicaEvent}

/-- Every step keeps the recorded count within the connection's. -/
theorem watching (h : HeartbeatStep a e a') (hw : a.self.detector.Watching) :
    a'.self.detector.Watching := by
  cases h with
  | message _ hd =>
    rcases hd with hd | hd | ⟨l, hl, hd⟩
    · rwa [hd]
    · rw [hd]
      intro _ hl'
      cases hl'
    · -- a new connection starts both counts at zero
      rw [hd]
      intro l' hl'
      cases hl'
      exact Nat.zero_le _
  | frame hd =>
    rw [hd]
    intro l' hl'
    obtain ⟨l, hl, rfl⟩ := Option.map_eq_some_iff.1 hl'
    exact Nat.le_succ_of_le (hw l hl)
  | stale _ => exact hw
  | idle _ => exact hw
  | progress l hl _ hd =>
    rw [hd]
    intro l' hl'
    rw [link_detector, hl] at hl'
    cases hl'
    exact Nat.le_refl _
  | request _ _ _ _ hd _ =>
    rw [hd]
    exact hw
  | lost _ _ _ _ hd _ =>
    rw [hd]
    intro _ hl'
    cases hl'

/-- A tick that takes the connection away is one of the current generation that found no frame
since a heartbeat was asked for. -/
theorem lost_of_drop {g : Nat} (h : HeartbeatStep a (.tick g) a') (hl : a.self.link.isSome)
    (hl' : a'.self.link = none) :
    g = a.self.generation ∧ ∃ l, a.self.link = some l ∧ l.received = a.self.lastReceived ∧
      a.self.awaitingHeartbeat = true := by
  cases h with
  | message hm _ => exact absurd rfl (hm g)
  | stale _ => rw [hl'] at hl; cases hl
  | idle hl₀ => rw [hl₀] at hl; cases hl
  | progress l hl₀ _ hd =>
    rw [show a'.self.link = a.self.link from congrArg Detector.link hd, hl₀] at hl'
    cases hl'
  | request l hl₀ _ _ hd _ =>
    rw [show a'.self.link = a.self.link from congrArg Detector.link hd, hl₀] at hl'
    cases hl'
  | lost l hl₀ heq haw _ _ => exact ⟨rfl, l, hl₀, heq, haw⟩

/-- A frame on a watched connection puts its count past the recorded one. -/
theorem lt_of_frame (h : HeartbeatStep a .frame a') (hw : a.self.detector.Watching) {l : MasterLink}
    (hl : a'.self.link = some l) : a'.self.lastReceived < l.received := by
  cases h with
  | frame hd =>
    have hl' : a'.self.link = _ := congrArg Detector.link hd
    have hlast : a'.self.lastReceived = a.self.lastReceived := congrArg Detector.lastReceived hd
    rw [hl] at hl'
    obtain ⟨l₀, hl₀, rfl⟩ := Option.map_eq_some_iff.1 hl'.symm
    have hle : a.self.lastReceived ≤ l₀.received := hw l₀ hl₀
    rw [hlast]
    exact Nat.lt_succ_of_le hle

end HeartbeatStep

namespace Replica

/-- Along every run the recorded count stays within the connection's. -/
theorem watching_endState {a : Actor Replica} (hw : a.self.detector.Watching) :
    ∀ {steps : List (ReplicaEvent × Actor Replica)}, Replays a steps →
      (endState a steps).self.detector.Watching
  | [], _ => hw
  | (_, _) :: _, ⟨h, hrest⟩ => watching_endState ((heartbeatStep h).watching hw) hrest

section History

variable {a₀ : Actor Replica} (h0 : a₀.self.link = none)
include h0

theorem watching_of_replays {pre : List (ReplicaEvent × Actor Replica)} (h : Replays a₀ pre) :
    (endState a₀ pre).self.detector.Watching :=
  watching_endState (fun _ hl => by rw [link_detector, h0] at hl; cases hl) h

/-- A connection whose count the replica has caught up with got no frame since the last tick of
its generation, or since the connection was made. -/
theorem exists_mark_of_caught_up :
    ∀ {pre : List (ReplicaEvent × Actor Replica)}, Replays a₀ pre →
      ∀ {l : MasterLink}, (endState a₀ pre).self.link = some l →
        l.received = (endState a₀ pre).self.lastReceived →
        ∃ pre₀ e₀ a₁ mid, pre = pre₀ ++ (e₀, a₁) :: mid ∧
          (e₀ = .tick (endState a₀ pre).self.generation ∨
            (endState a₀ pre₀).self.generation ≠ (endState a₀ pre).self.generation) ∧
          a₁.self.generation = (endState a₀ pre).self.generation ∧
          Quiet (endState a₀ pre).self.generation mid := by
  intro pre
  induction pre using List.reverseRecOn with
  | nil =>
    intro _ l hl _
    rw [endState_nil, h0] at hl
    cases hl
  | append_singleton pre x ih =>
    obtain ⟨e, a'⟩ := x
    intro hrun l hl heq
    obtain ⟨hpre, hstep⟩ := replays_append_singleton.1 hrun
    simp only [endState_append_singleton] at hl heq ⊢
    -- the events before the last one, with nothing changed by it, are where to look
    have hextend : ∀ {g : Nat}, e ≠ .frame → e ≠ .tick g →
        (∃ pre₀ e₀ a₁ mid, pre = pre₀ ++ (e₀, a₁) :: mid ∧
          (e₀ = .tick g ∨ (endState a₀ pre₀).self.generation ≠ g) ∧ a₁.self.generation = g ∧
          Quiet g mid) →
        ∃ pre₀ e₀ a₁ mid, pre ++ [(e, a')] = pre₀ ++ (e₀, a₁) :: mid ∧
          (e₀ = .tick g ∨ (endState a₀ pre₀).self.generation ≠ g) ∧ a₁.self.generation = g ∧
          Quiet g mid := by
      rintro g hf ht ⟨pre₀, e₀, a₁, mid, hsplit, h₁, h₂, hq⟩
      exact ⟨pre₀, e₀, a₁, mid ++ [(e, a')], append_singleton_of_split hsplit, h₁, h₂,
        hq.append_singleton hf ht⟩
    -- the last event itself, when it is the mark
    have hhere : ∀ {g : Nat}, (e = .tick g ∨ (endState a₀ pre).self.generation ≠ g) →
        a'.self.generation = g →
        ∃ pre₀ e₀ a₁ mid, pre ++ [(e, a')] = pre₀ ++ (e₀, a₁) :: mid ∧
          (e₀ = .tick g ∨ (endState a₀ pre₀).self.generation ≠ g) ∧ a₁.self.generation = g ∧
          Quiet g mid :=
      fun h₁ h₂ => ⟨pre, e, a', [], rfl, h₁, h₂, Quiet.nil _⟩
    have hw := watching_of_replays h0 hpre
    cases heartbeatStep hstep with
    | message hm hd =>
      rcases hd with hd | hd | ⟨l', -, hd⟩
      · -- nothing changed: the mark is further back
        have hl' : (endState a₀ pre).self.link = some l := (congrArg Detector.link hd).symm.trans hl
        have hlast := congrArg Detector.lastReceived hd
        have hgen := congrArg Detector.generation hd
        simp only [generation_detector, lastReceived_detector] at hlast hgen
        rw [hgen]
        exact hextend nofun (ReplicaEvent.message_ne_tick hm _) (ih hpre hl' (heq.trans hlast))
      · -- the connection was closed
        rw [show a'.self.link = none from congrArg Detector.link hd] at hl
        cases hl
      · -- the connection was made here
        have hgen : a'.self.generation = (endState a₀ pre).self.generation + 1 :=
          congrArg Detector.generation hd
        exact hhere (.inr (by omega)) rfl
    | frame _ =>
      -- a frame puts the connection's count past the recorded one
      exact absurd heq (Nat.ne_of_gt ((heartbeatStep hstep).lt_of_frame hw hl))
    | stale hg =>
      exact hextend (ReplicaEvent.frame_ne_tick _).symm
        (fun h => hg (ReplicaEvent.tick_injective h)) (ih hpre hl heq)
    | idle hl₀ =>
      rw [hl₀] at hl
      cases hl
    | progress _ _ _ hd =>
      have hgen : a'.self.generation = _ := congrArg Detector.generation hd
      exact hhere (.inl (by rw [hgen]; rfl)) rfl
    | request _ _ _ _ hd _ =>
      have hgen : a'.self.generation = _ := congrArg Detector.generation hd
      exact hhere (.inl (by rw [hgen]; rfl)) rfl
    | lost _ _ _ _ hd _ =>
      rw [show a'.self.link = none from congrArg Detector.link hd] at hl
      cases hl

/-- A heartbeat request is out only if the last tick of the generation asked for it, on the same
connection with the same count, and no frame came since. -/
theorem exists_request_of_awaiting :
    ∀ {pre : List (ReplicaEvent × Actor Replica)}, Replays a₀ pre →
      ∀ {l : MasterLink}, (endState a₀ pre).self.link = some l →
        l.received = (endState a₀ pre).self.lastReceived →
        (endState a₀ pre).self.awaitingHeartbeat = true →
        ∃ pre₁ a₁ mid, pre = pre₁ ++ (.tick (endState a₀ pre).self.generation, a₁) :: mid ∧
          (endState a₀ pre₁).self.generation = (endState a₀ pre).self.generation ∧
          (endState a₀ pre₁).self.link = some l ∧
          l.received = (endState a₀ pre₁).self.lastReceived ∧
          (endState a₀ pre₁).self.awaitingHeartbeat = false ∧
          a₁.store.world.traffic = (endState a₀ pre₁).store.world.traffic.push
            (.send l.conn (.heartbeatRequest ((endState a₀ pre₁).self.heartbeatNum + 1))) ∧
          Quiet (endState a₀ pre).self.generation mid := by
  intro pre
  induction pre using List.reverseRecOn with
  | nil =>
    intro _ l hl _ _
    rw [endState_nil, h0] at hl
    cases hl
  | append_singleton pre x ih =>
    obtain ⟨e, a'⟩ := x
    intro hrun l hl heq haw
    obtain ⟨hpre, hstep⟩ := replays_append_singleton.1 hrun
    simp only [endState_append_singleton] at hl heq haw ⊢
    have hw := watching_of_replays h0 hpre
    cases heartbeatStep hstep with
    | @message m _ hm hd =>
      rcases hd with hd | hd | ⟨l', -, hd⟩
      · -- nothing changed: the request is further back
        have hl' : (endState a₀ pre).self.link = some l := (congrArg Detector.link hd).symm.trans hl
        have hlast := congrArg Detector.lastReceived hd
        have hgen := congrArg Detector.generation hd
        have haw' := congrArg Detector.awaitingHeartbeat hd
        simp only [generation_detector, lastReceived_detector, awaitingHeartbeat_detector] at hlast hgen haw'
        obtain ⟨pre₁, a₁, mid, hsplit, h₁, h₂, h₃, h₄, h₅, hq⟩ :=
          ih hpre hl' (heq.trans hlast) (haw'.symm.trans haw)
        rw [hgen]
        exact ⟨pre₁, a₁, mid ++ [(.message m, a')], append_singleton_of_split hsplit, h₁, h₂, h₃, h₄,
          h₅, hq.append_singleton nofun (ReplicaEvent.message_ne_tick hm _)⟩
      · rw [show a'.self.link = none from congrArg Detector.link hd] at hl
        cases hl
      · -- a new connection awaits nothing
        rw [show a'.self.awaitingHeartbeat = false from congrArg Detector.awaitingHeartbeat hd] at haw
        cases haw
    | frame _ =>
      exact absurd heq (Nat.ne_of_gt ((heartbeatStep hstep).lt_of_frame hw hl))
    | stale hg =>
      obtain ⟨pre₁, a₁, mid, hsplit, h₁, h₂, h₃, h₄, h₅, hq⟩ := ih hpre hl heq haw
      exact ⟨pre₁, a₁, mid ++ [(_, endState a₀ pre)], append_singleton_of_split hsplit, h₁, h₂, h₃,
        h₄, h₅, hq.append_singleton (ReplicaEvent.frame_ne_tick _).symm
          (fun h => hg (ReplicaEvent.tick_injective h))⟩
    | idle hl₀ =>
      rw [hl₀] at hl
      cases hl
    | progress _ _ _ hd =>
      rw [show a'.self.awaitingHeartbeat = false from congrArg Detector.awaitingHeartbeat hd] at haw
      cases haw
    | request l₀ hl₀ heq₀ haw₀ hd hsent =>
      -- the last tick asked for the heartbeat
      have hl' : a'.self.link = some l₀ := (congrArg Detector.link hd).trans hl₀
      rw [hl] at hl'
      cases hl'
      have hgen : a'.self.generation = (endState a₀ pre).self.generation :=
        congrArg Detector.generation hd
      exact ⟨pre, a', [], by rw [hgen], hgen.symm, hl₀, heq₀, haw₀, hsent, Quiet.nil _⟩
    | lost _ _ _ _ hd _ =>
      rw [show a'.self.link = none from congrArg Detector.link hd] at hl
      cases hl

end History

/-- A tick of another generation changes nothing at all: it returns, and leaves the store, the
replica and what it published as they were. -/
theorem runs_stale_tick {a : Actor Replica} {g : Nat} (hg : g ≠ a.self.generation) :
    Runs (ReplicaEvent.tick g).run a () a := by
  obtain ⟨_, a', h⟩ := total_heartbeatTick g a
  cases heartbeatStep_heartbeatTick h with
  | message hm _ => exact absurd rfl (hm g)
  | stale _ => exact h
  | idle _ => exact absurd rfl hg
  | progress _ _ _ _ => exact absurd rfl hg
  | request _ _ _ _ _ _ => exact absurd rfl hg
  | lost _ _ _ _ _ _ => exact absurd rfl hg

/-- A tick of the current generation that finds no frame since a heartbeat was asked for does
give the connection up, and reports it lost. -/
theorem gives_up_of_awaiting {a : Actor Replica} {l : MasterLink} (hl : a.self.link = some l)
    (heq : l.received = a.self.lastReceived) (haw : a.self.awaitingHeartbeat = true) :
    ∃ a', Runs (ReplicaEvent.tick a.self.generation).run a () a' ∧ a'.self.link = none ∧
      a'.outbox = a.outbox.push (.system (.vnodeConnectionLost l.endpoint)) := by
  obtain ⟨_, a', h⟩ := total_heartbeatTick a.self.generation a
  refine ⟨a', h, ?_⟩
  cases heartbeatStep_heartbeatTick h with
  | message hm _ => exact absurd rfl (hm _)
  | stale hg => exact absurd rfl hg
  | idle hl₀ => rw [hl₀] at hl; cases hl
  | progress l₀ hl₀ hne _ =>
    rw [hl₀] at hl
    cases hl
    exact absurd heq hne
  | request l₀ hl₀ _ haw₀ _ _ =>
    rw [haw₀] at haw
    cases haw
  | lost l₀ hl₀ _ _ hd hout =>
    rw [hl₀] at hl
    cases hl
    exact ⟨congrArg Detector.link hd, hout⟩

end Replica

open Replica in
/-- The replica's heartbeats. A tick of another generation than the current one changes nothing.
A tick of the current generation that finds no frame since a heartbeat was asked for gives the
connection up. And along every run from a replica without a connection, a tick that gives the
connection up is one of the current generation that comes after two ticks of that generation,
the second of which is the last one before it: no frame arrived between them, or between the first
and the tick before it (or the making of the connection), and the first asked the master for a
heartbeat. -/
theorem heartbeats_give_up_only_after_two_silent_ticks :
    (∀ (a : Actor Replica) (g : Nat), g ≠ a.self.generation →
      Runs (ReplicaEvent.tick g).run a () a) ∧
    (∀ (a : Actor Replica) (l : MasterLink), a.self.link = some l →
      l.received = a.self.lastReceived → a.self.awaitingHeartbeat = true →
      ∃ a', Runs (ReplicaEvent.tick a.self.generation).run a () a' ∧ a'.self.link = none) ∧
    (∀ (a₀ : Actor Replica) (pre post : List (ReplicaEvent × Actor Replica)) (g : Nat)
      (a : Actor Replica), a₀.self.link = none → Replays a₀ (pre ++ (.tick g, a) :: post) →
      (endState a₀ pre).self.link.isSome → a.self.link = none →
      g = (endState a₀ pre).self.generation ∧
      ∃ pre₁ a₁ mid, pre = pre₁ ++ (.tick g, a₁) :: mid ∧ Quiet g mid ∧
        (endState a₀ pre₁).self.generation = g ∧
        (∃ l n, (endState a₀ pre₁).self.link = some l ∧
          a₁.store.world.traffic = (endState a₀ pre₁).store.world.traffic.push
            (.send l.conn (.heartbeatRequest n))) ∧
        ∃ pre₀ e₀ a₂ mid₀, pre₁ = pre₀ ++ (e₀, a₂) :: mid₀ ∧ Quiet g mid₀ ∧
          (e₀ = .tick g ∨ (endState a₀ pre₀).self.generation ≠ g) ∧ a₂.self.generation = g) := by
  refine ⟨fun a g hg => runs_stale_tick hg, fun a l hl heq haw => ?_, ?_⟩
  · obtain ⟨a', h, hl', -⟩ := gives_up_of_awaiting hl heq haw
    exact ⟨a', h, hl'⟩
  intro a₀ pre post g a h0 hrun hsome hnone
  obtain ⟨hpre, hstep, -⟩ := (replays_append a₀ pre _).1 hrun
  -- the tick gave the connection up: it found a request out and no frame since
  obtain ⟨rfl, l, hl, heq, haw⟩ := (heartbeatStep hstep).lost_of_drop hsome hnone
  -- the request was made by the last tick of the generation before it
  obtain ⟨pre₁, a₁, mid, hsplit, hgen₁, hl₁, heq₁, -, hsent, hq⟩ :=
    exists_request_of_awaiting h0 hpre hl heq haw
  have hpre₁ : Replays a₀ pre₁ := ((replays_append a₀ pre₁ _).1 (hsplit ▸ hpre)).1
  -- and that tick found no frame since the tick or connection before it
  obtain ⟨pre₀, e₀, a₂, mid₀, hsplit₀, h₀, hgen₂, hq₀⟩ :=
    exists_mark_of_caught_up h0 hpre₁ hl₁ heq₁
  rw [hgen₁] at h₀ hgen₂ hq₀
  exact ⟨rfl, pre₁, a₁, mid, hsplit, hq, hgen₁, ⟨l, _, hl₁, hsent⟩, pre₀, e₀, a₂, mid₀, hsplit₀, hq₀,
    h₀, hgen₂⟩

end EventStore
