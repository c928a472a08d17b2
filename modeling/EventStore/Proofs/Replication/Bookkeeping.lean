import Mathlib.Data.List.Sort
import EventStore.Proofs.Replication.Steps

/-!
# The master's bookkeeping of replicas

Along every run of master replication in which distinct replicas use distinct subscription
identifiers, the master keeps its books straight (`Bookkeeping`): at most one subscription per
replica, the commit tracker counts exactly the slave subscriptions, the slaves are at most half the
cluster, and only a master holds subscriptions or writes waiting for the quorum.

That distinct replicas use distinct identifiers is said by a map `owner` from subscription
identifiers to replicas that every subscription request agrees with. Under it, identifiers are
distinct too (`Bookkeeping.ids_nodup`), so the subscription an action finds by its identifier
stands alone between the others (`Bookkeeping.eq_append_of_find`), and what an action does to the
books is read off that split: a subscription replaced, removed or added.
-/

namespace EventStore

namespace MasterReplication

open Actor

/-- The identifiers of the slaves among subscriptions, in their order. -/
def slaveIds (l : List (Uuid × Subscription)) : List Uuid :=
  (l.filter (·.2.role = .slave)).map (·.1)

@[simp] theorem slaveIds_nil : slaveIds [] = [] := rfl

@[simp] theorem slaveIds_append (l₁ l₂ : List (Uuid × Subscription)) :
    slaveIds (l₁ ++ l₂) = slaveIds l₁ ++ slaveIds l₂ := by
  simp [slaveIds]

@[simp] theorem slaveIds_cons (i : Uuid) (s : Subscription) (l : List (Uuid × Subscription)) :
    slaveIds ((i, s) :: l) = if s.role = .slave then i :: slaveIds l else slaveIds l := by
  unfold slaveIds
  by_cases h : s.role = .slave <;> simp [h]

theorem mem_slaveIds {x : Uuid} {l : List (Uuid × Subscription)} :
    x ∈ slaveIds l ↔ ∃ s, (x, s) ∈ l ∧ s.role = .slave := by
  simp [slaveIds]

theorem not_mem_slaveIds {x : Uuid} {l : List (Uuid × Subscription)} (h : x ∉ l.map (·.1)) :
    x ∉ slaveIds l := fun hx => by
  obtain ⟨s, hs, -⟩ := mem_slaveIds.1 hx
  exact h (List.mem_map.2 ⟨_, hs, rfl⟩)

section Split

variable {l l₁ l₂ : List (Uuid × Subscription)} {id : Uuid}

/-- Changing the subscriptions `id` changes nothing where there is none. -/
theorem map_update_of_not_mem (f : Subscription → Subscription) (h : id ∉ l.map (·.1)) :
    l.map (fun (i, x) => if i = id then (i, f x) else (i, x)) = l := by
  refine (List.map_congr_left fun q hq => ?_).trans (List.map_id' l)
  rcases q with ⟨i, x⟩
  have hi : i ≠ id := fun he => h (List.mem_map.2 ⟨(i, x), hq, he⟩)
  simp [hi]

/-- Changing the subscription `id` where it stands alone changes it alone. -/
theorem map_update_split (f : Subscription → Subscription) (s : Subscription)
    (h₁ : id ∉ l₁.map (·.1)) (h₂ : id ∉ l₂.map (·.1)) :
    (l₁ ++ (id, s) :: l₂).map (fun (i, x) => if i = id then (i, f x) else (i, x)) =
      l₁ ++ (id, f s) :: l₂ := by
  rw [List.map_append, List.map_cons, map_update_of_not_mem f h₁, map_update_of_not_mem f h₂]
  simp

/-- Dropping the subscription `id` where it stands alone drops it alone. -/
theorem filter_split (s : Subscription) (h₁ : id ∉ l₁.map (·.1)) (h₂ : id ∉ l₂.map (·.1)) :
    (l₁ ++ (id, s) :: l₂).filter (·.1 ≠ id) = l₁ ++ l₂ := by
  have hkeep : ∀ l : List (Uuid × Subscription), id ∉ l.map (·.1) → l.filter (·.1 ≠ id) = l :=
    fun l hl => List.filter_eq_self.2 fun q hq => by
      simpa using fun he => hl (List.mem_map.2 ⟨q, hq, he⟩)
  rw [List.filter_append, List.filter_cons, hkeep l₁ h₁, hkeep l₂ h₂]
  simp

end Split

/-- Where identifiers are distinct, a subscription is among the slaves exactly when it is one. -/
theorem mem_slaveIds_iff {l : List (Uuid × Subscription)} (hnd : (l.map (·.1)).Nodup)
    {i : Uuid} {s : Subscription} (hs : (i, s) ∈ l) : i ∈ slaveIds l ↔ s.role = .slave := by
  induction l with
  | nil => simp at hs
  | cons q l ih =>
    rcases q with ⟨j, t⟩
    rw [List.map_cons, List.nodup_cons] at hnd
    rw [slaveIds_cons]
    rcases List.mem_cons.1 hs with he | hs
    · obtain ⟨rfl, rfl⟩ := Prod.mk.inj he
      have hnot : i ∉ slaveIds l := not_mem_slaveIds hnd.1
      split <;> simp_all
    · have hij : i ≠ j := fun he => hnd.1 (he ▸ List.mem_map.2 ⟨_, hs, rfl⟩)
      rw [← ih hnd.2 hs]
      split <;> simp [hij]

/-- What the books read of the subscriptions: the identifier, replica and role of each. -/
def roster (l : List (Uuid × Subscription)) : List (Uuid × Uuid × ReplicaRole) :=
  l.map fun p => (p.1, p.2.replicaId, p.2.role)

theorem replicaIds_eq_roster (l : List (Uuid × Subscription)) :
    l.map (·.2.replicaId) = (roster l).map (·.2.1) := by
  simp [roster]

theorem slaveIds_eq_roster (l : List (Uuid × Subscription)) :
    slaveIds l = ((roster l).filter (·.2.2 = .slave)).map (·.1) := by
  simp only [slaveIds, roster, List.filter_map, List.map_map]
  rfl

@[simp] theorem roster_settled (m : MasterReplication) :
    roster (settled m).subscriptions = roster m.subscriptions := by
  simp [roster, settled]

/-- What the master's books promise, for subscription identifiers that each belong to the replica
`owner` gives. -/
structure Bookkeeping (owner : Uuid → Uuid) (m : MasterReplication) : Prop where
  /-- Each subscription is of the replica its identifier belongs to. -/
  owned : ∀ p ∈ m.subscriptions, p.2.replicaId = owner p.1
  /-- At most one subscription per replica. -/
  oneEach : (m.subscriptions.map (·.2.replicaId)).Nodup
  /-- The commit tracker counts exactly the slaves. -/
  acks : ∀ x, x ∈ m.commits.acks.map (·.1) ↔ x ∈ slaveIds m.subscriptions
  /-- The slaves are at most half the cluster. -/
  slaves : (slaveIds m.subscriptions).length ≤ m.clusterSize / 2
  /-- Only a master holds subscriptions or writes waiting for the quorum. -/
  idle : m.state ≠ .master → m.subscriptions = [] ∧ m.commits.pending = []

namespace Bookkeeping

variable {owner : Uuid → Uuid} {m : MasterReplication}

/-- Identifiers are distinct: two subscriptions with one identifier would be of one replica. -/
theorem ids_nodup (h : Bookkeeping owner m) : (m.subscriptions.map (·.1)).Nodup := by
  have hmap : m.subscriptions.map (·.2.replicaId) = (m.subscriptions.map (·.1)).map owner := by
    rw [List.map_map]
    exact List.map_congr_left h.owned
  have hnd := h.oneEach
  rw [hmap] at hnd
  exact List.Pairwise.of_map owner (fun _ _ hne heq => hne (congrArg owner heq)) hnd

/-- A master that holds a subscription is a master. -/
theorem master_of_mem (h : Bookkeeping owner m) {p : Uuid × Subscription}
    (hp : p ∈ m.subscriptions) : m.state = .master :=
  Classical.byContradiction fun hs => by simp [(h.idle hs).1] at hp

/-- The subscription found by its identifier, with the others before and after it. -/
theorem eq_append_of_find (h : Bookkeeping owner m) {id : Uuid} {s : Subscription}
    (hf : (m.subscriptions.find? (·.1 = id)).map (·.2) = some s) :
    ∃ l₁ l₂, m.subscriptions = l₁ ++ (id, s) :: l₂ ∧ id ∉ l₁.map (·.1) ∧
      id ∉ l₂.map (·.1) := by
  obtain ⟨p, hp, rfl⟩ := Option.map_eq_some_iff.1 hf
  obtain ⟨hid, l₁, l₂, heq, hl₁⟩ := List.find?_eq_some_iff_append.1 hp
  have hid : p.1 = id := by simpa using hid
  have hsplit : m.subscriptions = l₁ ++ (id, p.2) :: l₂ := by rw [heq, ← hid]
  have hnd := h.ids_nodup
  rw [hsplit, List.map_append, List.map_cons, List.nodup_append, List.nodup_cons] at hnd
  exact ⟨l₁, l₂, hsplit, fun hm => hnd.2.2 id hm id (List.mem_cons_self ..) rfl, hnd.2.1.1⟩

/-- The books read of a subscription only its identifier, replica and role, of the tracker only
the identifiers it counts and whether writes wait. -/
theorem of_roster (h : Bookkeeping owner m) {m' : MasterReplication}
    (hroster : roster m'.subscriptions = roster m.subscriptions) (hstate : m'.state = m.state)
    (hsize : m'.clusterSize = m.clusterSize)
    (hacks : ∀ x, x ∈ m'.commits.acks.map (·.1) ↔ x ∈ m.commits.acks.map (·.1))
    (hpending : m.commits.pending = [] → m'.commits.pending = []) : Bookkeeping owner m' where
  owned p hp := by
    have hmem : (p.1, p.2.replicaId, p.2.role) ∈ roster m.subscriptions :=
      hroster ▸ List.mem_map.2 ⟨p, hp, rfl⟩
    obtain ⟨q, hq, hqp⟩ := List.mem_map.1 hmem
    simp only [Prod.mk.injEq] at hqp
    rw [← hqp.1, ← hqp.2.1]
    exact h.owned q hq
  oneEach := by
    rw [replicaIds_eq_roster, hroster, ← replicaIds_eq_roster]
    exact h.oneEach
  acks x := by
    rw [hacks x, h.acks x, slaveIds_eq_roster, slaveIds_eq_roster, hroster]
  slaves := by
    rw [slaveIds_eq_roster, hroster, ← slaveIds_eq_roster, hsize]
    exact h.slaves
  idle hs := by
    obtain ⟨hsub, hpend⟩ := h.idle (hstate ▸ hs)
    refine ⟨?_, hpending hpend⟩
    have hnil : roster m'.subscriptions = [] := by rw [hroster, hsub]; rfl
    simpa [roster] using hnil

/-- Streaming keeps the books: they do not read what it moves. -/
theorem of_settled (h : Bookkeeping owner m) {m' : MasterReplication} (hs : settled m = settled m') :
    Bookkeeping owner m' := by
  have hroster := congrArg (fun m => roster m.subscriptions) hs
  simp only [roster_settled] at hroster
  exact h.of_roster hroster.symm (congrArg (·.state) hs).symm (congrArg (·.clusterSize) hs).symm
    (fun x => by rw [show m'.commits = m.commits from (congrArg (·.commits) hs).symm])
    (fun hp => (congrArg (·.commits.pending) hs) ▸ hp)

variable {l₁ l₂ : List (Uuid × Subscription)} {id : Uuid} {s : Subscription}

/-- Replacing the subscription `id` by one of the same replica, with a commit tracker that counts
the slaves anew, keeps the books. The master held a subscription, so it is a master and writes may
wait. -/
theorem replace (h : Bookkeeping owner m) (hsplit : m.subscriptions = l₁ ++ (id, s) :: l₂)
    {s' : Subscription} {c : CommitTracker} (hr : s'.replicaId = s.replicaId)
    (hacks : ∀ x, x ∈ c.acks.map (·.1) ↔ x ∈ slaveIds (l₁ ++ (id, s') :: l₂))
    (hslaves : (slaveIds (l₁ ++ (id, s') :: l₂)).length ≤ m.clusterSize / 2) :
    Bookkeeping owner { m with subscriptions := l₁ ++ (id, s') :: l₂, commits := c } where
  owned p hp := by
    have hold := h.owned
    rw [hsplit] at hold
    simp only [List.mem_append, List.mem_cons] at hp
    rcases hp with hp | rfl | hp
    · exact hold p (by simp [hp])
    · rw [hr]
      exact hold (id, s) (by simp)
    · exact hold p (by simp [hp])
  oneEach := by
    have hnd := h.oneEach
    rw [hsplit] at hnd
    simpa [hr] using hnd
  acks := hacks
  slaves := hslaves
  idle hs := by
    have hmem : (id, s) ∈ m.subscriptions := by rw [hsplit]; simp
    exact absurd (h.master_of_mem hmem) hs

/-- Removing the subscription `id`, with a commit tracker that counts the slaves anew, keeps the
books. -/
theorem remove (h : Bookkeeping owner m) (hsplit : m.subscriptions = l₁ ++ (id, s) :: l₂)
    {c : CommitTracker} (hacks : ∀ x, x ∈ c.acks.map (·.1) ↔ x ∈ slaveIds (l₁ ++ l₂)) :
    Bookkeeping owner { m with subscriptions := l₁ ++ l₂, commits := c } where
  owned p hp := by
    have hold := h.owned
    rw [hsplit] at hold
    simp only [List.mem_append] at hp
    rcases hp with hp | hp
    · exact hold p (by simp [hp])
    · exact hold p (by simp [hp])
  oneEach := by
    have hnd := h.oneEach
    rw [hsplit, List.map_append, List.map_cons] at hnd
    rw [List.map_append]
    exact hnd.sublist (List.Sublist.append (List.Sublist.refl _) (List.sublist_cons_self _ _))
  acks := hacks
  slaves := by
    have hle := h.slaves
    rw [hsplit] at hle
    simp only [slaveIds_append, slaveIds_cons, List.length_append] at hle ⊢
    split at hle
    · simp only [List.length_cons] at hle
      omega
    · exact hle
  idle hs := by
    have hmem : (id, s) ∈ m.subscriptions := by rw [hsplit]; simp
    exact absurd (h.master_of_mem hmem) hs

/-- Adding a subscription that is no slave, of a replica without one, keeps a master's books. -/
theorem add (h : Bookkeeping owner m) (hm : m.state = .master) (hown : s.replicaId = owner id)
    (hnew : s.replicaId ∉ m.subscriptions.map (·.2.replicaId)) (hs : s.role ≠ .slave) :
    Bookkeeping owner { m with subscriptions := m.subscriptions ++ [(id, s)] } where
  owned p hp := by
    rcases List.mem_append.1 hp with hp | hp
    · exact h.owned p hp
    · rw [List.mem_singleton.1 hp]
      exact hown
  oneEach := by
    rw [List.map_append, List.map_singleton]
    exact List.nodup_append.2 ⟨h.oneEach, by simp,
      fun a ha b hb => by rw [List.mem_singleton.1 hb]; rintro rfl; exact hnew ha⟩
  acks x := by
    rw [h.acks x]
    simp [hs]
  slaves := by simpa [hs] using h.slaves
  idle hs' := absurd hm hs'

/-- A change of the subscription `id` that keeps its replica, and whether it is a slave, keeps
the books. -/
theorem replace_of_role (h : Bookkeeping owner m) (hsplit : m.subscriptions = l₁ ++ (id, s) :: l₂)
    {s' : Subscription} (hr : s'.replicaId = s.replicaId)
    (hrole : s'.role = .slave ↔ s.role = .slave) :
    Bookkeeping owner { m with subscriptions := l₁ ++ (id, s') :: l₂ } := by
  have hsame : slaveIds (l₁ ++ (id, s') :: l₂) = slaveIds m.subscriptions := by
    rw [hsplit]
    simp only [slaveIds_append, slaveIds_cons, hrole]
  refine h.replace hsplit hr (fun x => ?_) ?_
  · rw [hsame]
    exact h.acks x
  · rw [hsame]
    exact h.slaves

/-- Making the subscription `id`, not yet a slave, a slave while there is room keeps the books once
the tracker counts it. -/
theorem promote (h : Bookkeeping owner m) (hsplit : m.subscriptions = l₁ ++ (id, s) :: l₂)
    (hs : s.role ≠ .slave) (hfit : (slaveIds m.subscriptions).length < m.clusterSize / 2)
    (p : Int) :
    Bookkeeping owner { m with
      subscriptions := l₁ ++ (id, { s with role := .slave }) :: l₂
      commits := m.commits.addSlave id p } := by
  have hold : slaveIds m.subscriptions = slaveIds l₁ ++ slaveIds l₂ := by
    rw [hsplit]
    simp [hs]
  have hnew : slaveIds (l₁ ++ (id, { s with role := .slave }) :: l₂) =
      slaveIds l₁ ++ id :: slaveIds l₂ := by
    simp
  refine h.replace hsplit rfl (fun x => ?_) ?_
  · rw [CommitTracker.addSlave, CommitTracker.mem_replicaAcked_keys, h.acks x, hold, hnew]
    simp only [List.mem_append, List.mem_cons]
    constructor
    · rintro ((hx | hx) | hx)
      · exact .inl hx
      · exact .inr (.inr hx)
      · exact .inr (.inl hx)
    · rintro (hx | hx | hx)
      · exact .inl (.inl hx)
      · exact .inr hx
      · exact .inl (.inr hx)
  · rw [hold, List.length_append] at hfit
    rw [hnew, List.length_append, List.length_cons]
    omega

/-- Removing the subscription `id` of a slave keeps the books once the tracker stops counting it,
and leaves room for another slave. -/
theorem remove_slave (h : Bookkeeping owner m) (hsplit : m.subscriptions = l₁ ++ (id, s) :: l₂)
    (h₁ : id ∉ l₁.map (·.1)) (h₂ : id ∉ l₂.map (·.1)) (hs : s.role = .slave) :
    Bookkeeping owner { m with subscriptions := l₁ ++ l₂, commits := m.commits.removeSlave id } ∧
      (slaveIds (l₁ ++ l₂)).length < m.clusterSize / 2 := by
  have hold : slaveIds m.subscriptions = slaveIds l₁ ++ id :: slaveIds l₂ := by
    rw [hsplit]
    simp [hs]
  refine ⟨h.remove hsplit fun x => ?_, ?_⟩
  · rw [CommitTracker.mem_removeSlave_keys, h.acks x, hold]
    simp only [slaveIds_append, List.mem_append, List.mem_cons]
    constructor
    · rintro ⟨hx | hx | hx, hne⟩
      · exact .inl hx
      · exact absurd hx hne
      · exact .inr hx
    · rintro (hx | hx)
      · exact ⟨.inl hx, fun he => not_mem_slaveIds h₁ (he ▸ hx)⟩
      · exact ⟨.inr (.inr hx), fun he => not_mem_slaveIds h₂ (he ▸ hx)⟩
  · have hle := h.slaves
    rw [hold, List.length_append, List.length_cons] at hle
    rw [slaveIds_append, List.length_append]
    omega

/-- Removing the subscription `id` of a replica that is no slave keeps the books. -/
theorem remove_other (h : Bookkeeping owner m) (hsplit : m.subscriptions = l₁ ++ (id, s) :: l₂)
    (hs : s.role ≠ .slave) : Bookkeeping owner { m with subscriptions := l₁ ++ l₂ } := by
  have hold : slaveIds m.subscriptions = slaveIds (l₁ ++ l₂) := by
    rw [hsplit]
    simp [hs]
  exact h.remove hsplit fun x => hold ▸ h.acks x

/-- Completing committed writes keeps the books. -/
theorem takeCommitted (h : Bookkeeping owner m) :
    Bookkeeping owner { m with commits := m.commits.takeCommitted.2 } :=
  h.of_roster rfl rfl rfl (fun _ => Iff.rfl) (m.commits.takeCommitted_pending_nil)

/-- Timing out writes keeps the books. -/
theorem takeTimedOut (h : Bookkeeping owner m) (now : Nat) :
    Bookkeeping owner { m with commits := (m.commits.takeTimedOut now).2 } :=
  h.of_roster rfl rfl rfl (fun _ => Iff.rfl) (m.commits.takeTimedOut_pending_nil now)

/-- Counting the master's own durable position keeps the books. -/
theorem masterFlushed (h : Bookkeeping owner m) (p : Int) :
    Bookkeeping owner { m with commits := m.commits.masterFlushed p } :=
  h.of_roster rfl rfl rfl (fun _ => by rw [CommitTracker.masterFlushed_acks]) fun hp => by
    rw [CommitTracker.masterFlushed_pending]
    exact hp

/-- A slave's acknowledgement keeps the books: the tracker counts it already. -/
theorem replicaAcked (h : Bookkeeping owner m) {id : Uuid} (hid : id ∈ slaveIds m.subscriptions)
    (p : Int) : Bookkeeping owner { m with commits := m.commits.replicaAcked id p } :=
  h.of_roster rfl rfl rfl
    (fun x => by
      rw [CommitTracker.mem_replicaAcked_keys]
      exact ⟨fun hx => hx.elim (fun hx => hx) fun he => he ▸ (h.acks _).2 hid, .inl⟩)
    fun hp => by
      rw [CommitTracker.replicaAcked_pending]
      exact hp

/-- Moving to a node state keeps the books, where a node that is no master holds nothing. -/
theorem withState (h : Bookkeeping owner m) (st : NodeState)
    (hst : st ≠ .master → m.subscriptions = [] ∧ m.commits.pending = []) :
    Bookkeeping owner { m with state := st } :=
  ⟨h.owned, h.oneEach, h.acks, h.slaves, hst⟩

/-- A master that holds nothing keeps its books. -/
theorem of_empty (hs : m.subscriptions = []) (ha : m.commits.acks = [])
    (hp : m.commits.pending = []) : Bookkeeping owner m where
  owned := by simp [hs]
  oneEach := by simp [hs]
  acks := by simp [hs, ha]
  slaves := by simp [hs]
  idle _ := ⟨hs, hp⟩

/-- A master storing a write keeps the books. -/
theorem addPending (h : Bookkeeping owner m) (hm : m.state = .master) (c : Uuid) (e : Envelope)
    (first last : Int) (now : Nat) :
    Bookkeeping owner { m with commits := m.commits.addPending c e first last now } :=
  ⟨h.owned, h.oneEach, h.acks, h.slaves, fun hs => absurd hm hs⟩

end Bookkeeping

/-! ## The actions -/

variable {owner : Uuid → Uuid}

/-- Looking a subscription up changes nothing. -/
theorem subscription?_spec (m₀ : MasterReplication) (id : Uuid) {F : MasterReplication → Prop} :
    Spec (· = m₀) (subscription? id)
      (fun r m => m = m₀ ∧ r = (m₀.subscriptions.find? (·.1 = id)).map (·.2)) F :=
  Spec.me_bind fun _ => Spec.pure fun _ ⟨hm, h₀⟩ => ⟨hm, by rw [← h₀, hm]⟩

/-- Giving the subscription `id`, if it is no slave, a role keeps the books, as long as a new slave
still fits in half the cluster; the node state and the identifiers stay. -/
theorem assignRole_spec (m₀ : MasterReplication) (id : Uuid) (role : ReplicaRole)
    (h : Bookkeeping owner m₀) (hid : id ∉ slaveIds m₀.subscriptions)
    (hfit : role = .slave → (slaveIds m₀.subscriptions).length < m₀.clusterSize / 2) :
    Spec (· = m₀) (assignRole id role)
      (fun _ m => Bookkeeping owner m ∧ m.state = m₀.state ∧
        m.subscriptions.map (·.1) = m₀.subscriptions.map (·.1))
      (fun m => Bookkeeping owner m ∧ m.state = m₀.state ∧
        m.subscriptions.map (·.1) = m₀.subscriptions.map (·.1)) := by
  unfold assignRole
  refine Spec.bind (subscription?_spec m₀ id) fun r => ?_
  rcases r with _ | s
  · refine Spec.pure fun m ⟨hm, _⟩ => ?_
    subst hm
    exact ⟨h, rfl, rfl⟩
  refine Spec.assume fun hr => ?_
  obtain ⟨l₁, l₂, hsplit, h₁, h₂⟩ := h.eq_append_of_find hr.symm
  have hs : s.role ≠ .slave := fun hs => hid (by rw [hsplit]; simp [hs])
  have hids : ∀ s' : Subscription, (l₁ ++ (id, s') :: l₂).map (·.1) = m₀.subscriptions.map (·.1) :=
    fun _ => by simp [hsplit]
  -- the subscription with its new role, between the others
  refine Spec.modifyMe_bind
    (· = { m₀ with subscriptions := l₁ ++ (id, { s with role }) :: l₂ }) (fun m hm => ?_) ?_
  · subst hm
    rw [hsplit, map_update_split (fun s => { s with role }) s h₁ h₂]
  refine Spec.me_bind_eq ?_
  cases role with
  | slave =>
    refine Spec.bind (Spec.onStore_total (Total.emit _) fun _ _ h => h) fun _ => ?_
    refine Spec.modifyMe_bind _ (fun m hm => ?_)
      (completeCommitted_keeps fun _ ⟨hb, hstate, hkeys⟩ => ⟨hb.takeCommitted, hstate, hkeys⟩)
    subst hm
    exact ⟨h.promote hsplit hs (hfit rfl) s.ackPosition, rfl, hids _⟩
  | clone =>
    refine Spec.onStore_total (Total.emit _) fun _ m hm => ?_
    subst hm
    exact ⟨h.replace_of_role hsplit rfl (by simp [hs]), rfl, hids _⟩
  | catchingUp =>
    refine Spec.pure fun m hm => ?_
    subst hm
    exact ⟨h.replace_of_role hsplit rfl (by simp [hs]), rfl, hids _⟩

/-- Removing a subscription keeps the books, a slave's place going to a clone if there is one;
the node state stays, and only the subscription removed goes. -/
theorem removeSubscription_spec (m₀ : MasterReplication) (id : Uuid) (h : Bookkeeping owner m₀) :
    Spec (· = m₀) (removeSubscription id)
      (fun _ m => Bookkeeping owner m ∧ m.state = m₀.state ∧
        ∀ p ∈ m.subscriptions, p.1 ≠ id ∧ p.1 ∈ m₀.subscriptions.map (·.1))
      (fun m => Bookkeeping owner m ∧ m.state = m₀.state ∧
        ∀ p ∈ m.subscriptions, p.1 ≠ id ∧ p.1 ∈ m₀.subscriptions.map (·.1)) := by
  unfold removeSubscription
  refine Spec.bind (subscription?_spec m₀ id) fun r => ?_
  rcases r with _ | s
  · -- there is no subscription `id`: nothing changes
    refine Spec.pure fun m ⟨hm, hr⟩ => ?_
    subst hm
    have hnone := List.find?_eq_none.1 (Option.map_eq_none_iff.1 hr.symm)
    exact ⟨h, rfl, fun p hp => ⟨fun he => hnone p hp (by simp [he]), List.mem_map.2 ⟨p, hp, rfl⟩⟩⟩
  refine Spec.assume fun hr => ?_
  obtain ⟨l₁, l₂, hsplit, h₁, h₂⟩ := h.eq_append_of_find hr.symm
  -- what stays is what was, less the subscription `id`
  have hstay : ∀ i ∈ (l₁ ++ l₂).map (·.1), i ≠ id ∧ i ∈ m₀.subscriptions.map (·.1) := by
    intro i hi
    obtain ⟨p, hp, rfl⟩ := List.mem_map.1 hi
    have hp₀ : p ∈ m₀.subscriptions := by
      rw [hsplit]
      rcases List.mem_append.1 hp with hp | hp <;> simp [hp]
    refine ⟨fun he => ?_, List.mem_map.2 ⟨p, hp₀, rfl⟩⟩
    rcases List.mem_append.1 hp with hp | hp
    · exact h₁ (List.mem_map.2 ⟨p, hp, he⟩)
    · exact h₂ (List.mem_map.2 ⟨p, hp, he⟩)
  refine Spec.modifyMe_bind (· = { m₀ with subscriptions := l₁ ++ l₂ }) (fun m hm => ?_) ?_
  · subst hm
    rw [hsplit, filter_split s h₁ h₂]
  refine Spec.ite (fun hs => Spec.pure fun m hm => ?_) (fun hs => ?_)
  · subst hm
    exact ⟨h.remove_other hsplit hs, rfl, fun p hp => hstay p.1 (List.mem_map.2 ⟨p, hp, rfl⟩)⟩
  -- a slave went: the tracker stops counting it, and a clone may take its place
  obtain ⟨hb, hroom⟩ := h.remove_slave hsplit h₁ h₂ (Decidable.of_not_not hs)
  refine Spec.modifyMe_bind
    (· = { m₀ with subscriptions := l₁ ++ l₂, commits := m₀.commits.removeSlave id })
    (fun m hm => by subst hm; rfl) ?_
  refine Spec.me_bind_eq ?_
  split
  · rename_i p c hc
    have hclone : c.role = .clone := by simpa using List.find?_some hc
    have hp : p ∉ slaveIds (l₁ ++ l₂) := fun hp => by
      rw [mem_slaveIds_iff hb.ids_nodup (List.mem_of_find?_eq_some hc), hclone] at hp
      cases hp
    refine (assignRole_spec _ p .slave hb hp fun _ => hroom).mono (fun _ h => h)
      (fun _ m ⟨hm, hstate, hids⟩ => ⟨hm, hstate, fun q hq => ?_⟩)
      (fun m ⟨hm, hstate, hids⟩ => ⟨hm, hstate, fun q hq => ?_⟩)
    · exact hstay q.1 (hids ▸ List.mem_map.2 ⟨q, hq, rfl⟩)
    · exact hstay q.1 (hids ▸ List.mem_map.2 ⟨q, hq, rfl⟩)
  · refine Spec.pure fun m hm => ?_
    subst hm
    exact ⟨hb, rfl, fun p hp => hstay p.1 (List.mem_map.2 ⟨p, hp, rfl⟩)⟩

/-- Removing a subscription keeps the books. -/
theorem removeSubscription_keeps (id : Uuid) :
    Keeps (Bookkeeping owner) (removeSubscription id) :=
  Spec.ghost fun m₀ h => (removeSubscription_spec m₀ id h).mono (fun _ h => h) (fun _ _ h => h.1)
    (fun _ h => h.1)

/-- The subscription an acknowledgement is for, if it came on the subscription's connection. -/
theorem subscriptionOn_spec (m₀ : MasterReplication) (conn : Nat) (id : Uuid)
    {F : MasterReplication → Prop} :
    Spec (· = m₀) (subscriptionOn conn id)
      (fun r m => m = m₀ ∧ ∀ s, r = some s → (m₀.subscriptions.find? (·.1 = id)).map (·.2) = some s)
      F :=
  Spec.bind (subscription?_spec m₀ id) fun _ => Spec.pure fun _ ⟨hm, hr⟩ =>
    ⟨hm, fun _ hs => hr ▸ (Option.filter_eq_some_iff.1 hs).1⟩

/-- A write acknowledgement keeps the books: a slave's is counted where it already counts. -/
theorem writeAck_keeps (conn : Nat) (a : WriteAck) : Keeps (Bookkeeping owner) (writeAck conn a) := by
  refine Spec.ghost fun m₀ h => ?_
  unfold writeAck
  refine Spec.bind (subscriptionOn_spec m₀ conn a.subscriptionId) fun r => ?_
  rcases r with _ | s
  · exact Spec.pure fun m ⟨hm, _⟩ => hm ▸ h
  refine Spec.assume fun hr => ?_
  obtain ⟨l₁, l₂, hsplit, h₁, h₂⟩ := h.eq_append_of_find (hr s rfl)
  -- the acknowledged position moves, the role stays
  let s' := { s with ackPosition := max s.ackPosition a.logPosition }
  have hb : Bookkeeping owner { m₀ with subscriptions := l₁ ++ (a.subscriptionId, s') :: l₂ } :=
    h.replace_of_role hsplit rfl Iff.rfl
  refine Spec.modifyMe_bind (· = { m₀ with subscriptions := l₁ ++ (a.subscriptionId, s') :: l₂ })
    (fun m hm => ?_) ?_
  · subst hm
    rw [hsplit, map_update_split (fun s => { s with ackPosition := max s.ackPosition a.logPosition })
      s h₁ h₂]
  refine Spec.ite (fun _ => Spec.pure fun m hm => hm ▸ hb) fun hs => ?_
  have hid : a.subscriptionId ∈ slaveIds (l₁ ++ (a.subscriptionId, s') :: l₂) := by
    simp [s', Decidable.of_not_not hs]
  refine Spec.modifyMe_bind (Bookkeeping owner) (fun m hm => ?_)
    (completeCommitted_keeps fun _ h => h.takeCommitted)
  subst hm
  exact hb.replicaAcked hid a.logPosition

/-- A log position acknowledgement keeps the books: a replica that caught up with the writer
becomes a slave only while there is room. -/
theorem logPositionAck_keeps (conn : Nat) (a : AckLogPosition) :
    Keeps (Bookkeeping owner) (logPositionAck conn a) := by
  refine Spec.ghost fun m₀ h => ?_
  unfold logPositionAck
  refine Spec.bind (Spec.onStore_total Total.writerCheckpoint fun _ _ h => h) fun writer => ?_
  refine Spec.bind (subscriptionOn_spec m₀ conn a.subscriptionId) fun r => ?_
  rcases r with _ | s
  · exact Spec.pure fun m ⟨hm, _⟩ => hm ▸ h
  refine Spec.assume fun hr => ?_
  obtain ⟨l₁, l₂, hsplit, h₁, h₂⟩ := h.eq_append_of_find (hr s rfl)
  -- the acknowledged position moves, the role stays
  let s' := { s with ackPosition := max s.ackPosition a.replicationLogPosition }
  let m₁ := { m₀ with subscriptions := l₁ ++ (a.subscriptionId, s') :: l₂ }
  have hb : Bookkeeping owner m₁ := h.replace_of_role hsplit rfl Iff.rfl
  refine Spec.modifyMe_bind (· = m₁) (fun m hm => ?_) ?_
  · subst hm
    rw [hsplit, map_update_split
      (fun x => { x with ackPosition := max s.ackPosition a.replicationLogPosition }) s h₁ h₂]
  refine Spec.ite (fun _ => Spec.pure fun m hm => hm ▸ hb) fun hc => ?_
  -- a replica catching up that reached the writer gets a role
  have hcatching : s.role = .catchingUp := by
    simp only [Bool.or_eq_true, decide_eq_true_eq, not_or] at hc
    exact Decidable.of_not_not hc.1
  have hid : a.subscriptionId ∉ slaveIds m₁.subscriptions := by
    simp [m₁, s', hcatching, not_mem_slaveIds h₁, not_mem_slaveIds h₂]
  refine Spec.me_bind_eq ?_
  refine (assignRole_spec m₁ a.subscriptionId _ hb hid fun hrole => ?_).mono (fun _ h => h)
    (fun _ _ h => h.1) (fun _ h => h.1)
  -- the role is slave only while the slaves are fewer than half the cluster
  split at hrole
  · simpa [slaveIds] using ‹_›
  · cases hrole

/-- A closed connection keeps the books: its subscriptions go one by one. -/
theorem connectionClosed_keeps (conn : Nat) : Keeps (Bookkeeping owner) (connectionClosed conn) := by
  unfold connectionClosed
  refine Keeps.me_bind fun _ => (Keeps.forIn fun p _ => ?_).bind fun _ => Keeps.pure _
  rcases p with ⟨id, s⟩
  exact Keeps.ite ((removeSubscription_keeps id).bind fun _ => Keeps.pure _) (Keeps.pure _)

/-- A change of node state keeps the books: a new master counts its own position, and a master
that steps down drops everything. -/
theorem changeState_keeps (st : NodeState) : Keeps (Bookkeeping owner) (changeState st) := by
  refine Spec.ghost fun m₀ h => ?_
  unfold changeState
  refine Spec.me_bind_eq ?_
  refine Spec.modifyMe_bind (· = { m₀ with state := st }) (fun m hm => hm ▸ rfl) ?_
  refine Spec.ite (fun hup => ?_) fun hup => Spec.ite (fun hdown => ?_) fun hdown => ?_
  · -- becoming master: the node held nothing yet
    simp only [Bool.and_eq_true, decide_eq_true_eq] at hup
    have hb := h.withState st fun hne => absurd hup.1 hne
    refine Spec.bind (Spec.onStore_total Total.writerCheckpoint fun _ _ h => h) fun w => ?_
    refine Spec.modifyMe fun m hm => ?_
    subst hm
    exact hb.masterFlushed w
  · -- leaving master: everything goes
    exact (stepDown_spec _ _).mono (fun _ h => h)
      (fun _ _ ⟨hs, ha, hp, _⟩ => Bookkeeping.of_empty hs ha hp) (fun _ h => h)
  · -- otherwise the node keeps what it holds, which is nothing unless it stays master
    refine Spec.pure fun m hm => ?_
    subst hm
    refine h.withState st fun hne => h.idle fun hmaster => hdown ?_
    simp [hne, hmaster]

/-- A subscription request keeps the books when the replica it names is the one its identifier
belongs to: the replica's older subscriptions go first, so the new one is its only one. -/
theorem subscribe_keeps (conn : Nat) (r : SubscribeReplica)
    (hown : r.replicaId = owner r.subscriptionId) : Keeps (Bookkeeping owner) (subscribe conn r) := by
  refine Spec.ghost fun m₀ h => ?_
  unfold subscribe
  refine Spec.me_bind_eq ?_
  refine Spec.ite (fun _ => Spec.onStore_total (Total.emit _) fun _ m hm => hm ▸ h) fun hc => ?_
  have hmaster : m₀.state = .master := by
    simp only [Bool.or_eq_true, decide_eq_true_eq, not_or] at hc
    exact Decidable.of_not_not hc.1
  -- where the subscription starts is read from the store, and reading may fail
  refine Spec.bind (Spec.onStore (fun _ _ h => h) fun m hm => hm ▸ h) fun position => ?_
  refine Spec.me_bind_eq ?_
  -- the replica's subscriptions go; those left of it are among the rest of the loop
  let I : List (Uuid × Subscription) → PUnit → MasterReplication → Prop := fun rest _ m =>
    Bookkeeping owner m ∧ m.state = .master ∧
      (∀ p ∈ m.subscriptions, p.2.replicaId = r.replicaId → p.1 ∈ rest.map (·.1)) ∧
      ∀ q ∈ rest, q.2.replicaId = owner q.1
  refine Spec.bind ((Spec.forIn I fun q rest _ => ?_).mono (fun m hm => ?_) (fun _ _ h => h)
    (fun _ h => h)) fun _ => ?_
  · rcases q with ⟨id, s⟩
    refine Spec.ghost fun m ⟨hb, hm, hrest, howned⟩ => ?_
    have hs : s.replicaId = owner id := howned (id, s) (List.mem_cons_self ..)
    have hrest' : ∀ q ∈ rest, q.2.replicaId = owner q.1 := fun q hq =>
      howned q (List.mem_cons_of_mem _ hq)
    refine Spec.ite (fun _ => ?_) fun hR => ?_
    · -- a subscription of the replica goes
      refine Spec.bind ((removeSubscription_spec m id hb).mono (fun _ h => h) (fun _ _ h => h)
        (fun _ h => h.1)) fun _ => Spec.pure fun m' ⟨hb', hstate, hkeys⟩ => ?_
      refine ⟨hb', hstate ▸ hm, fun p hp hpR => ?_, hrest'⟩
      obtain ⟨hne, hold⟩ := hkeys p hp
      obtain ⟨q, hq, hqp⟩ := List.mem_map.1 hold
      have hqR : q.2.replicaId = r.replicaId := by rw [hb.owned q hq, hqp, ← hb'.owned p hp, hpR]
      have hin := hrest q hq hqR
      rw [hqp, List.map_cons, List.mem_cons] at hin
      exact hin.resolve_left hne
    · -- another replica's subscription stays
      refine Spec.pure fun m' hm' => ?_
      subst hm'
      refine ⟨hb, hm, fun p hp hpR => ?_, hrest'⟩
      have hin := hrest p hp hpR
      rw [List.map_cons, List.mem_cons] at hin
      refine hin.resolve_left fun he => hR ?_
      have he : p.1 = id := he
      rw [hs, ← he, ← hb.owned p hp, hpR]
  · subst hm
    exact ⟨h, hmaster, fun p hp _ => List.mem_map.2 ⟨p, hp, rfl⟩, h.owned⟩
  -- after the loop the replica holds no subscription, and the new one is added
  refine Spec.bind (Spec.onStore_total (Total.emit _) fun _ _ h => h) fun _ => ?_
  refine Spec.modifyMe fun m ⟨hb, hm, hnone, _⟩ => ?_
  have hfree : ∀ p ∈ m.subscriptions, p.2.replicaId ≠ r.replicaId := fun p hp he => by
    simpa using hnone p hp he
  have hany : (m.subscriptions.any (·.1 = r.subscriptionId)) = false :=
    List.any_eq_false.2 fun p hp he => hfree p hp (by
      rw [hb.owned p hp, hown]
      exact congrArg owner (of_decide_eq_true he))
  rw [hany, if_neg Bool.false_ne_true]
  refine hb.add hm hown (fun hmem => ?_) nofun
  obtain ⟨p, hp, he⟩ := List.mem_map.1 hmem
  exact hfree p hp he

/-- Stepping down keeps the books: nothing is left. -/
theorem stepDown_keeps : Keeps (Bookkeeping owner) stepDown :=
  Spec.ghost fun m₀ _ => (stepDown_spec m₀ _).mono (fun _ h => h)
    (fun _ _ ⟨hs, ha, hp, _⟩ => Bookkeeping.of_empty hs ha hp) (fun _ h => h)

/-- Pumping keeps the books: streaming does not touch them, a subscription whose streaming failed
goes like any other, and timing writes out only takes them off the queue. -/
theorem pump_keeps (now : Nat) : Keeps (Bookkeeping owner) (pump now) := by
  unfold pump
  refine Keeps.me_bind fun _ => Keeps.ite (Keeps.pure _) ?_
  refine Keeps.me_bind fun _ => ?_
  -- streaming moves nothing the books read
  refine Keeps.bind (Keeps.of_settled (fun L => Keeps.forIn fun p _ => ?_)
    fun _ _ hs h => h.of_settled hs) fun failed => ?_
  · rcases p with ⟨id, _⟩
    refine Keeps.bind (Keeps.wrap (Keeps.tryCatch
      ((streamBulks_keeps L id _).bind fun _ => Keeps.pure _) fun e => ?_))
      fun _ => Keeps.ite (Keeps.pure _) (Keeps.pure _)
    cases e
    · exact Keeps.pure _
    · exact Keeps.throw _
  -- the subscriptions whose streaming failed go
  refine Keeps.bind (Keeps.forIn fun id _ => ?_) fun _ => ?_
  · refine (Keeps.me_bind fun _ => Keeps.pure _).bind fun r => ?_
    rcases r with _ | s
    · exact (removeSubscription_keeps id).bind fun _ => Keeps.pure _
    · exact (Keeps.onWorld _).bind fun _ => (removeSubscription_keeps id).bind fun _ => Keeps.pure _
  -- writes that waited too long are timed out
  refine Spec.me_bind fun m₀ => ?_
  split
  rename_i late t heq
  refine Spec.modifyMe_bind (Bookkeeping owner) (fun m ⟨hm, h₀⟩ => ?_) ?_
  · subst h₀
    have ht : t = (m.commits.takeTimedOut now).2 := by rw [heq]
    rw [ht]
    exact hm.takeTimedOut now
  refine Keeps.ite ?_ (Keeps.pure _)
  have hreplies : Keeps (Bookkeeping owner)
      (ForIn.forIn late PUnit.unit fun w _ => do replyTimedOut w; pure (ForInStep.yield PUnit.unit)) :=
    Keeps.forIn fun _ _ => (Keeps.onWorld _).bind fun _ => Keeps.pure _
  exact Keeps.ite ((Keeps.publish _).bind fun _ => hreplies.bind fun _ => Keeps.pure _)
    (hreplies.bind fun _ => Keeps.pure _)

/-- Every subscription request in the message names the replica that `owner` gives its
identifier. -/
def RequestsOwned (owner : Uuid → Uuid) : Message → Prop
  | .replication (.replicaSubscriptionRequest _ r) => r.replicaId = owner r.subscriptionId
  | _ => True

/-- Handling a message keeps the books, when a subscription request in it names the replica its
identifier belongs to. -/
theorem handle_keeps (now : Nat) (msg : Message) (hmsg : RequestsOwned owner msg) :
    Keeps (Bookkeeping owner) (handle now msg) := by
  unfold handle
  split
  · exact stepDown_keeps.bind fun _ => (Keeps.publish _).bind fun _ => Keeps.pure _
  · split
    · exact (changeState_keeps _).bind fun _ => Keeps.pure _
    · exact Keeps.pure _
  · exact (subscribe_keeps _ _ hmsg).bind fun _ => Keeps.pure _
  · exact (logPositionAck_keeps _ _).bind fun _ => Keeps.pure _
  · exact (writeAck_keeps _ _).bind fun _ => Keeps.pure _
  · exact (connectionClosed_keeps _).bind fun _ => Keeps.pure _
  · -- a write waits for the quorum only on a master
    refine Spec.me_bind fun m₀ => Spec.ite (fun hm => ?_) fun _ =>
      ((Keeps.onWorld _).bind fun _ => Keeps.pure _).mono (fun _ h => h.1) (fun _ _ h => h)
        (fun _ h => h)
    refine Spec.modifyMe_bind (Bookkeeping owner) (fun m ⟨hb, h₀⟩ => ?_)
      ((completeCommitted_keeps fun _ h => h.takeCommitted).bind fun _ => Keeps.pure _)
    subst h₀
    exact hb.addPending hm _ _ _ _ _
  · -- the master's own durable position
    refine Spec.me_bind fun m₀ => Spec.ite (fun _ => ?_) fun _ =>
      (Keeps.pure _).mono (fun _ h => h.1) (fun _ _ h => h) (fun _ h => h)
    refine Spec.modifyMe_bind (Bookkeeping owner) (fun m ⟨hb, h₀⟩ => ?_)
      ((completeCommitted_keeps fun _ h => h.takeCommitted).bind fun _ => Keeps.pure _)
    subst h₀
    exact hb.masterFlushed _
  · exact Keeps.pure _

/-! ## Runs -/

/-- The master states reached from `m₀` by handling messages whose subscription requests name the
replica that `owner` gives their identifiers, and by pumping. Before each step the node's other
services may have left its store and outbox anyhow. -/
inductive Reaches (owner : Uuid → Uuid) (m₀ : MasterReplication) : MasterReplication → Prop
  | start : Reaches owner m₀ m₀
  | handle {a : Actor MasterReplication} (now : Nat) (msg : Message) :
      Reaches owner m₀ a.self → RequestsOwned owner msg →
      Reaches owner m₀ ((MasterReplication.handle now msg).run.run a).2.self
  | pump {a : Actor MasterReplication} (now : Nat) :
      Reaches owner m₀ a.self → Reaches owner m₀ ((MasterReplication.pump now).run.run a).2.self

/-- Every step keeps the books, so every run from kept books does. -/
theorem Reaches.bookkeeping {m₀ m : MasterReplication} (hr : Reaches owner m₀ m)
    (h₀ : Bookkeeping owner m₀) : Bookkeeping owner m := by
  induction hr with
  | start => exact h₀
  | handle now msg _ hmsg ih => exact (handle_keeps now msg hmsg).run ih
  | pump now _ ih => exact (pump_keeps now).run ih

/-- Along every run of a fresh master replication service in which distinct replicas use distinct
subscription identifiers, the master keeps its books: a replica has at most one subscription, the
commit tracker counts exactly the slave subscriptions, the slaves are at most half the cluster, and
a node that is not master holds no subscription and no write waiting for the quorum. -/
theorem master_replica_books_balanced (owner : Uuid → Uuid) (id : Uuid) (n t : Nat)
    {m : MasterReplication}
    (hr : Reaches owner
      { instanceId := id, clusterSize := n, commits := { clusterSize := n, commitTimeoutMs := t } }
      m) :
    Bookkeeping owner m :=
  hr.bookkeeping (Bookkeeping.of_empty rfl rfl rfl)

/-- The master sorts positions highest first; on integers that merge sort is the insertion sort,
which the kernel evaluates. -/
theorem mergeSort_desc_eq_insertionSort (l : List Int) :
    l.mergeSort (fun a b => decide (b ≤ a)) = l.insertionSort (fun a b => b ≤ a) :=
  List.mergeSort_eq_insertionSort (r := fun a b : Int => b ≤ a) l

/-- A fresh service of a cluster of three is elected, takes a replica's subscription, makes the
replica a slave once it acknowledges the master's durable position and counts its write
acknowledgement: the books then hold one slave, which the commit tracker counts. -/
theorem master_books_count_caught_up_slave :
    let m₀ : MasterReplication :=
      { instanceId := ⟨1⟩, clusterSize := 3, commits := { clusterSize := 3, commitTimeoutMs := 9 } }
    let r : SubscribeReplica :=
      { (default : SubscribeReplica) with replicaId := ⟨5⟩, masterId := ⟨1⟩, subscriptionId := ⟨5⟩ }
    let a₁ := ((handle 0 (.system (.becomeMaster ⟨2⟩))).run.run { store := default, self := m₀ }).2
    let a₂ := ((handle 0 (.replication (.replicaSubscriptionRequest 1 r))).run.run a₁).2
    let a₃ := ((handle 0 (.replication (.replicaLogPositionAck 1 ⟨⟨5⟩, 0⟩))).run.run a₂).2
    let a₄ := ((handle 0 (.replication (.replicaWriteAck 1 ⟨⟨5⟩, 0⟩))).run.run a₃).2
    Reaches (fun x => x) m₀ a₄.self ∧
      a₄.self.subscriptions.map (fun p => (p.1, p.2.role)) = [(⟨5⟩, .slave)] ∧
      a₄.self.commits.acks = [(⟨5⟩, 0)] ∧ Bookkeeping (fun x => x) a₄.self := by
  intro m₀ r a₁ a₂ a₃ a₄
  have hr : Reaches (fun x => x) m₀ a₄.self :=
    .handle 0 _ (.handle 0 _ (.handle 0 _ (.handle 0 _ .start trivial) rfl) trivial) trivial
  -- the kernel does not evaluate the merge sort of the slave's and the master's positions
  have hslave : a₄.self.subscriptions.map (fun p => (p.1, p.2.role)) = [(⟨5⟩, .slave)] ∧
      a₄.self.commits.acks = [(⟨5⟩, 0)] := by
    simp only [a₄, a₃, handle, logPositionAck, writeAck, assignRole, CommitTracker.addSlave,
      CommitTracker.replicaAcked, CommitTracker.recompute, mergeSort_desc_eq_insertionSort]
    decide +kernel
  exact ⟨hr, hslave.1, hslave.2, master_replica_books_balanced _ ⟨1⟩ 3 9 hr⟩

end MasterReplication

end EventStore
