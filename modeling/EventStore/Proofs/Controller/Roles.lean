import EventStore.Proofs.Controller.Steps

/-!
# The controller's master agrees with its state

Along every run of a controller from construction, whatever messages it is handed, the master it
follows agrees with its state (`RolesConsistent`): there is no master exactly while the node is
starting, without a role or on its way out; the master is the node itself while it is elected or
master; and it is another node while the node replicates. Shutting down is final: from shutting
down the node only reaches shut down, which it never leaves.

Each fact is kept by every move of `Controller.Move`, so it holds along every run by induction on
the messages (`handleAll_rolesConsistent`).
-/

namespace EventStore

namespace Controller

/-- The controller and its world after handling messages in order; what each step publishes goes
to the services. -/
def handleAll (c : Controller) (w : World) : List Message → Controller × World
  | [] => (c, w)
  | m :: ms =>
    let r := ((handle m).run { ctl := c, world := w }).2
    handleAll r.ctl r.world ms

@[simp] theorem handleAll_nil (c : Controller) (w : World) : handleAll c w [] = (c, w) := rfl

theorem handleAll_append (c : Controller) (w : World) (ms ms' : List Message) :
    handleAll c w (ms ++ ms') = handleAll (handleAll c w ms).1 (handleAll c w ms).2 ms' := by
  induction ms generalizing c w with
  | nil => rfl
  | cons m ms ih => exact ih _ _

/-- The master a controller follows agrees with its state. -/
structure RolesConsistent (c : Controller) : Prop where
  /-- No master exactly while starting, without a role, or on the way out. -/
  master_none_iff : c.master = none ↔
    c.state = .initializing ∨ c.state = .unknown ∨ c.state = .shuttingDown ∨ c.state = .shutdown
  /-- An elected node and a master follow themselves. -/
  master_self : c.state = .preMaster ∨ c.state = .master →
    ∃ m, c.master = some m ∧ m.instanceId = c.info.instanceId
  /-- A replica follows another node. -/
  master_other : c.state = .preReplica ∨ c.state = .catchingUp ∨ c.state = .clone ∨
      c.state = .slave → ∃ m, c.master = some m ∧ m.instanceId ≠ c.info.instanceId

/-- A node without a role, or on its way out, agrees when it follows no master. -/
theorem RolesConsistent.of_master_none {c' : Controller}
    (hstate : c'.state = .initializing ∨ c'.state = .unknown ∨ c'.state = .shuttingDown ∨
      c'.state = .shutdown) (hmaster : c'.master = none) : RolesConsistent c' where
  master_none_iff := by simp only [hmaster, true_iff]; exact hstate
  master_self := by rcases hstate with h | h | h | h <;> simp [h]
  master_other := by rcases hstate with h | h | h | h <;> simp [h]

/-- A node that follows a master in one of the replica states, and is not the master, agrees. -/
theorem RolesConsistent.of_replica {c' : Controller} {m : Member}
    (hstate : c'.state = .preReplica ∨ c'.state = .catchingUp ∨ c'.state = .clone ∨
      c'.state = .slave) (hmaster : c'.master = some m) (hm : m.instanceId ≠ c'.info.instanceId) :
    RolesConsistent c' where
  master_none_iff := by
    simp only [hmaster, reduceCtorEq, false_iff]
    rcases hstate with h | h | h | h <;> simp [h]
  master_self := by rcases hstate with h | h | h | h <;> simp [h]
  master_other _ := ⟨m, hmaster, hm⟩

/-- A node that follows itself as elected node or master agrees. -/
theorem RolesConsistent.of_leader {c' : Controller} {m : Member}
    (hstate : c'.state = .preMaster ∨ c'.state = .master) (hmaster : c'.master = some m)
    (hm : m.instanceId = c'.info.instanceId) : RolesConsistent c' where
  master_none_iff := by
    simp only [hmaster, reduceCtorEq, false_iff]
    rcases hstate with h | h <;> simp [h]
  master_self _ := ⟨m, hmaster, hm⟩
  master_other := by rcases hstate with h | h <;> simp [h]

/-- Every move keeps the master in agreement with the state. -/
theorem Move.rolesConsistent {c c' : Controller} {ws : List Message} (hmove : Move c c' ws)
    (hinfo : c'.info = c.info) (h : RolesConsistent c) : RolesConsistent c' := by
  cases hmove with
  | quiet hstate hmaster =>
    obtain ⟨h₁, h₂, h₃⟩ := h
    exact ⟨by rw [hmaster, hstate, h₁], by rw [hstate, hmaster, hinfo]; exact h₂,
      by rw [hstate, hmaster, hinfo]; exact h₃⟩
  | resubscribe hs hstate hmaster =>
    obtain ⟨m, hm, hid⟩ := h.master_other (.inl hs)
    exact .of_replica (.inl hstate) (hmaster.trans hm) (hinfo ▸ hid)
  | unknown _ hstate hmaster => exact .of_master_none (by simp [hstate]) hmaster
  | shuttingDown _ hstate hmaster => exact .of_master_none (by simp [hstate]) hmaster
  | shutdown hs hstate hmaster =>
    have hnone : c.master = none := h.master_none_iff.2 (by simp [hs])
    exact .of_master_none (by simp [hstate]) (hmaster.trans hnone)
  | master hs hstate hmaster =>
    obtain ⟨m, hm, hid⟩ := h.master_self (.inl hs)
    exact .of_leader (.inr hstate) (hmaster.trans hm) (hinfo ▸ hid)
  | elected _ m hm hstate hmaster => exact .of_leader (.inl hstate) hmaster (hinfo ▸ hm)
  | follow _ m hm hstate hmaster => exact .of_replica (.inl hstate) hmaster (hinfo ▸ hm)
  | refollow hs m hcur hstate hmaster =>
    -- the new master is the current one, which is another node
    have hrep : c.state = .preReplica ∨ c.state = .catchingUp ∨ c.state = .clone ∨
        c.state = .slave := by
      cases h' : c.state <;> simp_all [isReplicaState]
    obtain ⟨x, hx, hid⟩ := h.master_other hrep
    have hxm : x.instanceId = m.instanceId := by simpa [isCurrentMaster, hx] using hcur
    exact .of_replica (.inl hstate) hmaster (by rw [hinfo, ← hxm]; exact hid)
  | subscribed hs _ _ hstate hmaster =>
    obtain ⟨m, hm, hid⟩ := h.master_other (.inl hs)
    exact .of_replica (.inr (.inl hstate)) (hmaster.trans hm) (hinfo ▸ hid)
  | assigned hs hstate hmaster =>
    obtain ⟨m, hm, hid⟩ := h.master_other (.inr hs)
    exact .of_replica (.inr (.inr hstate)) (hmaster.trans hm) (hinfo ▸ hid)

/-- From shutting down, a move leads only to shutting down or shut down. -/
theorem Move.state_of_shuttingDown {c c' : Controller} {ws : List Message} (hmove : Move c c' ws)
    (h : c.state = .shuttingDown) : c'.state = .shuttingDown ∨ c'.state = .shutdown := by
  cases hmove with
  | quiet hstate => exact .inl (hstate.trans h)
  | shutdown _ hstate => exact .inr hstate
  | resubscribe hs | master hs | subscribed hs => simp [h] at hs
  | unknown hs | assigned hs => simp [h] at hs
  | shuttingDown hs | elected hs | follow hs => simp [h] at hs
  | refollow hs => simp [h, isReplicaState] at hs

/-- Shut down is never left. -/
theorem Move.state_of_shutdown {c c' : Controller} {ws : List Message} (hmove : Move c c' ws)
    (h : c.state = .shutdown) : c'.state = .shutdown := by
  cases hmove with
  | quiet hstate => exact hstate.trans h
  | shutdown hs | resubscribe hs | master hs | subscribed hs => simp [h] at hs
  | unknown hs | assigned hs => simp [h] at hs
  | shuttingDown hs | elected hs | follow hs => simp [h] at hs
  | refollow hs => simp [h, isReplicaState] at hs

/-- Agreement of master and state holds along every run that starts in agreement. -/
theorem handleAll_rolesConsistent (c : Controller) (w : World) (ms : List Message)
    (h : RolesConsistent c) : RolesConsistent (handleAll c w ms).1 := by
  induction ms generalizing c w with
  | nil => exact h
  | cons m ms ih =>
    obtain ⟨hinfo, hmove⟩ := handle_steps m c w
    exact ih _ _ (hmove.rolesConsistent hinfo h)

/-- A run from shutting down stays shutting down until it is shut down, and then stays so. -/
theorem handleAll_state_of_shuttingDown (c : Controller) (w : World) (ms : List Message)
    (h : c.state = .shuttingDown ∨ c.state = .shutdown) :
    (handleAll c w ms).1.state = .shuttingDown ∨ (handleAll c w ms).1.state = .shutdown := by
  induction ms generalizing c w with
  | nil => exact h
  | cons m ms ih =>
    obtain ⟨-, hmove⟩ := handle_steps m c w
    refine ih _ _ ?_
    rcases h with h | h
    · exact hmove.state_of_shuttingDown h
    · exact .inr (hmove.state_of_shutdown h)

/-- A run from shut down stays shut down. -/
theorem handleAll_state_of_shutdown (c : Controller) (w : World) (ms : List Message)
    (h : c.state = .shutdown) : (handleAll c w ms).1.state = .shutdown := by
  induction ms generalizing c w with
  | nil => exact h
  | cons m ms ih =>
    obtain ⟨-, hmove⟩ := handle_steps m c w
    exact ih _ _ (hmove.state_of_shutdown h)

/-- Along every run of a controller from construction, its master agrees with its state, and
shutting down is final: after shutting down the node only reaches shut down, which it never
leaves. -/
theorem controller_master_agrees_with_state (info : NodeInfo) (timeouts : ControllerTimeouts)
    (w : World) (ms : List Message) :
    RolesConsistent (handleAll { info, timeouts } w ms).1 ∧
      ∀ ms' : List Message,
        ((handleAll { info, timeouts } w ms).1.state = .shuttingDown →
          (handleAll { info, timeouts } w (ms ++ ms')).1.state = .shuttingDown ∨
            (handleAll { info, timeouts } w (ms ++ ms')).1.state = .shutdown) ∧
        ((handleAll { info, timeouts } w ms).1.state = .shutdown →
          (handleAll { info, timeouts } w (ms ++ ms')).1.state = .shutdown) := by
  refine ⟨handleAll_rolesConsistent _ _ _ (RolesConsistent.of_master_none (.inl rfl) rfl),
    fun ms' => ?_⟩
  rw [handleAll_append]
  exact ⟨fun h => handleAll_state_of_shuttingDown _ _ _ (.inl h),
    fun h => handleAll_state_of_shutdown _ _ _ h⟩

end Controller

end EventStore
