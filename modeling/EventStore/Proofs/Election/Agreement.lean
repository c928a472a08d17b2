import EventStore.Proofs.Election.Rounds

/-!
# One master per view

In a cluster of elections services that all know the same servers, with distinct identifiers and
distinct internal addresses, no two election results name different masters for one view,
whatever the order of triggers and deliveries, with drops and duplicates
(`elections_agree_on_master`).

The argument follows the round-robin leader. Every accept and every result in the network stands
for a proposal of its view's leader, which is past that view (`Safe.led`); a leader proposes in a
view only in the step that takes it past the view (`Elections.Fresh`), and nodes only move
forward, so that happens once. Leaders are unique because every node knows the same servers
(`Safe.leader_eq`). What one handler run may do is said once, by `Elections.handler_step`;
`Safe.act` turns such a run into a step of the network, and `Safe.step` supplies what the run
needs from the network: the claim and the leader reference of the delivered message, and that an
answer to a prepare reaches the node that sent the prepare.

Views are 32-bit and wrap from the largest to the smallest, after which a node tries views it is
already past again. The runs considered are those whose every step is taken with all attempted
views below the largest (`ReachesBelowMax`), that is, before some node has been through `2 ^ 31`
elections.
-/

namespace EventStore

namespace ElectionMsg

/-- A trigger stands for no accept. -/
theorem IsTrigger.claim?_eq {m : ElectionMsg} (hm : m.IsTrigger) : m.claim? = none := by
  cases m <;> simp_all [IsTrigger, ElectionMsg.claim?]

/-- A trigger vouches for no leader. -/
theorem IsTrigger.leaderRef?_eq {m : ElectionMsg} (hm : m.IsTrigger) : m.leaderRef? = none := by
  cases m <;> simp_all [IsTrigger, ElectionMsg.leaderRef?]

/-- A delivered peer message stands for what it accepts. -/
theorem claim?_of_ofPeer? {pm : PeerMessage} {em : ElectionMsg} (h : ofPeer? pm = some em) :
    em.claim? = pm.accepted? := by
  cases pm <;> simp only [ofPeer?, Option.some.injEq, reduceCtorEq] at h <;> subst h <;> rfl

/-- A delivered prepare vouches for the leader the prepare names in the soup. -/
theorem leaderRef?_of_ofPeer? (d : SocketAddr) {pm : PeerMessage} {em : ElectionMsg}
    (h : ofPeer? pm = some em) : ∀ x ∈ em.leaderRef?, pm.leaderRef? d = some x := by
  cases pm <;> simp only [ofPeer?, Option.some.injEq, reduceCtorEq] at h <;> subst h <;>
    simp [ElectionMsg.leaderRef?, PeerMessage.leaderRef?]

theorem eq_prepareOk_of_ofPeer? {pm : PeerMessage} {ok : PrepareOk}
    (h : ofPeer? pm = some (.prepareOk ok)) : pm = .prepareOk ok := by
  cases pm <;> simp_all [ofPeer?]

end ElectionMsg

namespace Elections

/-- A node's step is its handler's run from a round with nothing published. -/
theorem handle_eq (cfg : ElectionConfig) (p : Progress) (s : Elections) (m : Message) :
    handle cfg p s m = (((handler cfg p m).run ⟨s, #[]⟩).2.s,
      ((handler cfg p m).run ⟨s, #[]⟩).2.out.toList) := rfl

/-- What a node's step sends is what its handler run adds to an empty round. -/
theorem handle_snd_eq {cfg : ElectionConfig} {p : Progress} {s : Elections} {m : Message}
    {o : List Message}
    (ho : ((handler cfg p m).run ⟨s, #[]⟩).2.out.toList = (⟨s, #[]⟩ : Round).out.toList ++ o) :
    (handle cfg p s m).2 = o := by
  rw [handle_eq]
  simpa using ho

/-- A node that moves forward keeps leading the views it led. -/
theorem Grows.leads {cfg : ElectionConfig} {s s' : Elections} {v : Int} (hg : Grows s s')
    (h : isLeaderOf cfg s v = true) : isLeaderOf cfg s' v = true := by
  rw [isLeaderOf_congr cfg hg.servers]
  exact h

/-- Two nodes that know the same servers and lead the same view have the same identifier. -/
theorem isLeaderOf_unique {cfg cfg' : ElectionConfig} {s s' : Elections} {v : Int}
    (hs : s'.servers = s.servers) (h : isLeaderOf cfg s v = true)
    (h' : isLeaderOf cfg' s' v = true) : cfg'.node.instanceId = cfg.node.instanceId := by
  unfold isLeaderOf at h h'
  rw [hs] at h'
  split at h
  · cases h
  · rename_i hc
    rw [if_neg hc] at h'
    split at h
    · rename_i srv hsrv
      rw [hsrv] at h'
      exact (beq_iff_eq.1 h').symm.trans (beq_iff_eq.1 h)
    · cases h

end Elections

namespace ElectionNet

open Elections

section Claims

variable {ι : Type}

/-- Every accept and every result in a network, as view and master: the proposals and accepts in
the soup and the results the nodes published. -/
def Claimed (w : ElectionNet ι) (x : Int × Uuid) : Prop :=
  (∃ d pm, (d, pm) ∈ w.sent ∧ pm.accepted? = some x) ∨ ∃ i, (i, x) ∈ w.done

/-- Every leader reference in the soup: the sender and view of every prepare, and the destination
and view of every answer to one. -/
def Vouched (w : ElectionNet ι) (x : SocketAddr × Int) : Prop :=
  ∃ d pm, (d, pm) ∈ w.sent ∧ pm.leaderRef? d = some x

/-- No node's attempted view is the largest one. -/
def BelowMax (w : ElectionNet ι) : Prop := ∀ i, (w.node i).lastAttemptedView < maxView

/-- What keeps a network safe: every node knows the servers `servers` and has its views in order;
the accepts and results agree on one master per view; each of them is backed by its view's
leader, which is past the view; and every leader reference names a node that installed and leads
the view. -/
structure Safe (cfg : ι → ElectionConfig) (servers : List Member) (w : ElectionNet ι) :
    Prop where
  sameServers : ∀ i, (w.node i).servers = servers
  ordered : ∀ i, ViewsOrdered (w.node i)
  agree : ∀ x y, Claimed w x → Claimed w y → x.1 = y.1 → x = y
  led : ∀ x, Claimed w x →
    ∃ L, isLeaderOf (cfg L) (w.node L) x.1 = true ∧ PastView x.1 (w.node L)
  vouched : ∀ x, Vouched w x → ∃ L, (cfg L).node.internalTcp = x.1 ∧
    x.2 ≤ (w.node L).lastInstalledView ∧ isLeaderOf (cfg L) (w.node L) x.2 = true

variable {cfg : ι → ElectionConfig} {servers : List Member}

/-- In a safe network a view has at most one leader. -/
theorem Safe.leader_eq (hid : Function.Injective fun i => (cfg i).node.instanceId)
    {w : ElectionNet ι} (h : Safe cfg servers w) {i j : ι} {v : Int}
    (hi : isLeaderOf (cfg i) (w.node i) v = true) (hj : isLeaderOf (cfg j) (w.node j) v = true) :
    i = j :=
  hid (isLeaderOf_unique ((h.sameServers j).trans (h.sameServers i).symm) hi hj).symm

/-- A fresh proposal of node `i` is never at the view of a claim the network holds: that view's
leader is node `i`, which was already past it. -/
theorem Safe.fresh_view_ne (hid : Function.Injective fun i => (cfg i).node.instanceId)
    {w : ElectionNet ι} (h : Safe cfg servers w) {i : ι} {s' : Elections}
    (hs' : s'.servers = (w.node i).servers) {x y : Int × Uuid} (hx : Claimed w x)
    (hy : Fresh (cfg i) (w.node i) s' y) : x.1 ≠ y.1 := by
  intro hxy
  obtain ⟨L, hL, hpast⟩ := h.led x hx
  obtain ⟨hnot, -, hlead⟩ := hy
  have hLi : L = i := h.leader_eq hid hL (by
    rw [hxy, ← isLeaderOf_congr (cfg i) hs']
    exact hlead)
  subst hLi
  exact hnot (hxy ▸ hpast)

end Claims

section Steps

variable {ι : Type} [DecidableEq ι] {cfg : ι → ElectionConfig} {servers : List Member}

theorem claimed_act {w : ElectionNet ι} {i : ι} {p : Progress} {m : Message} {x : Int × Uuid}
    (h : Claimed (w.act cfg i p m) x) :
    Claimed w x ∨ ∃ msg ∈ (handle (cfg i) p (w.node i) m).2, msg.claim? = some x := by
  rcases h with ⟨d, pm, hs, hx⟩ | ⟨j, hj⟩
  · rw [act_sent, List.mem_append] at hs
    rcases hs with hs | hs
    · exact .inl (.inl ⟨d, pm, hs, hx⟩)
    · obtain ⟨msg, hmsg, hsend⟩ := List.mem_filterMap.1 hs
      rw [Message.eq_of_peerSend? hsend] at hmsg
      exact .inr ⟨_, hmsg, hx⟩
  · rw [act_done, List.mem_append] at hj
    rcases hj with hj | hj
    · exact .inl (.inr ⟨j, hj⟩)
    · obtain ⟨y, hy, hjy⟩ := List.mem_map.1 hj
      cases hjy
      obtain ⟨msg, hmsg, hdone⟩ := List.mem_filterMap.1 hy
      obtain ⟨mm, rfl, hmm⟩ := Message.eq_of_electionsDone? hdone
      exact .inr ⟨_, hmsg, by rw [Message.claim?, hmm]⟩

theorem vouched_act {w : ElectionNet ι} {i : ι} {p : Progress} {m : Message}
    {x : SocketAddr × Int} (h : Vouched (w.act cfg i p m) x) :
    Vouched w x ∨ ∃ msg ∈ (handle (cfg i) p (w.node i) m).2, msg.leaderRef? = some x := by
  obtain ⟨d, pm, hs, hx⟩ := h
  rw [act_sent, List.mem_append] at hs
  rcases hs with hs | hs
  · exact .inl ⟨d, pm, hs, hx⟩
  · obtain ⟨msg, hmsg, hsend⟩ := List.mem_filterMap.1 hs
    rw [Message.eq_of_peerSend? hsend] at hmsg
    exact .inr ⟨_, hmsg, hx⟩

/-- When the acting node moves forward, every node does. -/
theorem act_grows {w : ElectionNet ι} {i : ι} {p : Progress} {m : Message}
    (hg : Grows (w.node i) (handle (cfg i) p (w.node i) m).1) (j : ι) :
    Grows (w.node j) ((w.act cfg i p m).node j) := by
  by_cases hj : j = i
  · subst hj
    rw [act_node_self]
    exact hg
  · rw [act_node_ne w p m hj]
    exact .refl _

/-- A handler run of node `i` that `StepOK` describes, on a claim and a leader reference the
network holds, keeps the network safe. -/
theorem Safe.act (hid : Function.Injective fun i => (cfg i).node.instanceId)
    {w : ElectionNet ι} (h : Safe cfg servers w) {i : ι} {p : Progress} {m : Message}
    {inp : Option (Int × Uuid)} {ref : Option (SocketAddr × Int)}
    (hstep : StepOK (cfg i) inp ref ⟨w.node i, #[]⟩
      ((handler (cfg i) p m).run ⟨w.node i, #[]⟩).2)
    (hinp : ∀ x ∈ inp, Claimed w x) (href : ∀ x ∈ ref, Vouched w x) :
    Safe cfg servers (w.act cfg i p m) := by
  obtain ⟨hord, hg, o, ho, ⟨F, hF, hFu, hc⟩, hr⟩ := hstep
  have hnode : (w.act cfg i p m).node i = ((handler (cfg i) p m).run ⟨w.node i, #[]⟩).2.s := by
    rw [act_node_self, handle_eq]
  have hout : (handle (cfg i) p (w.node i) m).2 = o := handle_snd_eq ho
  have hgrow : ∀ j, Grows (w.node j) ((w.act cfg i p m).node j) := act_grows hg
  -- what the step adds: fresh proposals of node `i`, and leader references to node `i`
  have hclaim : ∀ x, Claimed (w.act cfg i p m) x → Claimed w x ∨ x ∈ F := by
    intro x hx
    rcases claimed_act hx with hx | ⟨msg, hmsg, hmx⟩
    · exact .inl hx
    · rw [hout] at hmsg
      exact (hc msg hmsg x hmx).imp_left (hinp x)
  have hvouch : ∀ x, Vouched (w.act cfg i p m) x → Vouched w x ∨
      (x.1 = (cfg i).node.internalTcp ∧ x.2 ≤ ((w.act cfg i p m).node i).lastInstalledView ∧
        isLeaderOf (cfg i) ((w.act cfg i p m).node i) x.2 = true) := by
    intro x hx
    rcases vouched_act hx with hx | ⟨msg, hmsg, hmx⟩
    · exact .inl hx
    · rw [hout] at hmsg
      rw [hnode]
      exact (hr msg hmsg x hmx).imp_left (href x)
  refine ⟨fun j => ?_, fun j => ?_, ?_, ?_, ?_⟩
  · rw [(hgrow j).servers]
    exact h.sameServers j
  · by_cases hj : j = i
    · subst hj
      rw [hnode]
      exact hord
    · rw [act_node_ne w p m hj]
      exact h.ordered j
  · intro x y hx hy hxy
    rcases hclaim x hx with hx | hx <;> rcases hclaim y hy with hy | hy
    · exact h.agree x y hx hy hxy
    · exact absurd hxy (h.fresh_view_ne hid hg.servers hx (hF y hy))
    · exact absurd hxy.symm (h.fresh_view_ne hid hg.servers hy (hF x hx))
    · exact hFu x hx y hy hxy
  · intro x hx
    rcases hclaim x hx with hx | hx
    · obtain ⟨L, hL, hpast⟩ := h.led x hx
      exact ⟨L, (hgrow L).leads hL, (hgrow L).past _ hpast⟩
    · obtain ⟨-, hpast, hlead⟩ := hF x hx
      exact ⟨i, by rw [hnode]; exact hlead, by rw [hnode]; exact hpast⟩
  · intro x hx
    rcases hvouch x hx with hx | ⟨ha, hv, hl⟩
    · obtain ⟨L, ha, hv, hl⟩ := h.vouched x hx
      exact ⟨L, ha, Int.le_trans hv (hgrow L).installed, (hgrow L).leads hl⟩
    · exact ⟨i, ha.symm, hv, hl⟩

/-- Every step of the network taken below the largest view keeps it safe. -/
theorem Safe.step (hid : Function.Injective fun i => (cfg i).node.instanceId)
    (haddr : Function.Injective fun i => (cfg i).node.internalTcp)
    {w w' : ElectionNet ι} {em : ElectionMsg} (h : Safe cfg servers w) (hbelow : BelowMax w)
    (hs : Step cfg w em w') : Safe cfg servers w' := by
  cases hs with
  | trigger i p hm =>
    refine h.act hid (handler_step (cfg i) p em _ (h.ordered i) (hbelow i) ?_) ?_ ?_
    · rintro ok rfl
      simp [ElectionMsg.IsTrigger] at hm
    · rw [hm.claim?_eq]
      exact fun x hx => absurd hx (Option.not_mem_none x)
    · rw [hm.leaderRef?_eq]
      exact fun x hx => absurd hx (Option.not_mem_none x)
  | deliver i p hsent hdest hem =>
    refine h.act hid (handler_step (cfg i) p em _ (h.ordered i) (hbelow i) ?_) ?_ ?_
    · -- an answer to a prepare vouches for its destination, which is this node
      rintro ok rfl - -
      obtain ⟨L, haL, hv, hl⟩ := h.vouched _ ⟨_, _, hsent, by
        rw [ElectionMsg.eq_prepareOk_of_ofPeer? hem]
        rfl⟩
      have hLi : L = i := haddr (haL.trans hdest.symm)
      subst hLi
      exact ⟨hv, hl⟩
    · intro x hx
      exact .inl ⟨_, _, hsent, (ElectionMsg.claim?_of_ofPeer? hem) ▸ hx⟩
    · intro x hx
      exact ⟨_, _, hsent, ElectionMsg.leaderRef?_of_ofPeer? _ hem x hx⟩

/-- The states a network reaches from `w₀` by steps taken while no node's attempted view is the
largest one. -/
def ReachesBelowMax (cfg : ι → ElectionConfig) (w₀ w : ElectionNet ι) : Prop :=
  Relation.ReflTransGen (fun a b => BelowMax a ∧ ∃ m, Step cfg a m b) w₀ w

/-- A safe network stays safe along every run below the largest view. -/
theorem Safe.reaches (hid : Function.Injective fun i => (cfg i).node.instanceId)
    (haddr : Function.Injective fun i => (cfg i).node.internalTcp)
    {w₀ w : ElectionNet ι} (h : Safe cfg servers w₀) (hr : ReachesBelowMax cfg w₀ w) :
    Safe cfg servers w := by
  induction hr with
  | refl => exact h
  | tail _ hab ih =>
    obtain ⟨hbelow, m, hs⟩ := hab
    exact ih.step hid haddr hbelow hs

omit [DecidableEq ι] in
/-- Before any election there is nothing to disagree on. -/
theorem safe_informed (p : ι → Progress) (now : Int) (members : List Member) :
    Safe cfg (serversOf members) (informed cfg p now members) where
  sameServers i := by rw [informed_node]
  ordered i := by
    rw [informed_node]
    exact Int.le_refl _
  agree x _ hx := by rcases hx with ⟨_, _, hx, -⟩ | ⟨_, hx⟩ <;> cases hx
  led x hx := by rcases hx with ⟨_, _, hx, -⟩ | ⟨_, hx⟩ <;> cases hx
  vouched x hx := by
    obtain ⟨_, _, hx, -⟩ := hx
    cases hx

end Steps

variable {ι : Type} [DecidableEq ι]

/-- In a cluster of elections services that know the same servers, with distinct identifiers and
distinct internal addresses, no two published results name different masters for one view, along
every run of triggers and deliveries, with drops and duplicates, taken below the largest view. -/
theorem elections_agree_on_master (cfg : ι → ElectionConfig)
    (hid : Function.Injective fun i => (cfg i).node.instanceId)
    (haddr : Function.Injective fun i => (cfg i).node.internalTcp)
    (p : ι → Progress) (now : Int) (members : List Member) {w : ElectionNet ι}
    (hw : ReachesBelowMax cfg (informed cfg p now members) w) :
    ∀ i j v M M', (i, v, M) ∈ w.done → (j, v, M') ∈ w.done → M = M' := by
  have h := (safe_informed p now members).reaches hid haddr hw
  intro i j v M M' hi hj
  exact congrArg Prod.snd (h.agree (v, M) (v, M') (.inr ⟨i, hi⟩) (.inr ⟨j, hj⟩) rfl)

/-! ## Schedules

A schedule names each step of a run by the node that acts and what it takes: a start of
elections, or the message at some place in the soup. Running it checks that every step can be
taken below the largest view, so a schedule that runs is a run that `ReachesBelowMax` covers. -/

/-- A step of a schedule: node `i` starts elections, or takes the `k`-th message sent. -/
inductive Move (ι : Type) where
  | start (i : ι)
  | deliver (i : ι) (k : Nat)

/-- The network after a move, if the move can be taken: a delivered message must be addressed
to the node and be an election message. -/
def Move.apply (cfg : ι → ElectionConfig) (p : ι → Progress) (w : ElectionNet ι) :
    Move ι → Option (ElectionNet ι)
  | .start i => some (w.act cfg i (p i) (.election .startElections))
  | .deliver i k =>
    match w.sent[k]? with
    | some (dest, pm) =>
      if (cfg i).node.internalTcp = dest then
        (ElectionMsg.ofPeer? pm).map fun em => w.act cfg i (p i) (.election em)
      else none
    | none => none

/-- The network after a schedule, each move taken while every node of `nodes` is below the
largest view, if the schedule can be taken. -/
def runBelow (cfg : ι → ElectionConfig) (nodes : List ι) (p : ι → Progress) :
    ElectionNet ι → List (Move ι) → Option (ElectionNet ι)
  | w, [] => some w
  | w, mv :: ms =>
    if nodes.all fun i => decide ((w.node i).lastAttemptedView < maxView) then
      (mv.apply cfg p w).bind fun w' => runBelow cfg nodes p w' ms
    else none

section Schedules

variable {cfg : ι → ElectionConfig} {p : ι → Progress}

/-- A move that can be taken is a step of the network. -/
theorem Move.step_of_apply {w w' : ElectionNet ι} {mv : Move ι} (h : mv.apply cfg p w = some w') :
    ∃ m, Step cfg w m w' := by
  cases mv with
  | start i =>
    obtain rfl := Option.some.inj h
    exact ⟨_, .trigger i (p i) trivial⟩
  | deliver i k =>
    rcases hk : w.sent[k]? with _ | ⟨dest, pm⟩
    · simp [Move.apply, hk] at h
    · by_cases hdest : (cfg i).node.internalTcp = dest
      · simp only [Move.apply, hk, if_pos hdest] at h
        obtain ⟨em, hem, rfl⟩ := Option.map_eq_some_iff.1 h
        exact ⟨em, .deliver i (p i) (List.mem_of_getElem? hk) hdest hem⟩
      · simp [Move.apply, hk, hdest] at h

/-- A schedule that runs, checked on every node, is a run below the largest view. -/
theorem runBelow_sound {nodes : List ι} (hn : ∀ i, i ∈ nodes) {ms : List (Move ι)} :
    ∀ {w w' : ElectionNet ι}, runBelow cfg nodes p w ms = some w' → ReachesBelowMax cfg w w' := by
  induction ms with
  | nil =>
    intro w w' h
    obtain rfl := Option.some.inj h
    exact .refl
  | cons mv ms ih =>
    intro w w' h
    unfold runBelow at h
    split at h
    · rename_i hbelow
      obtain ⟨w₁, h₁, h₂⟩ := Option.bind_eq_some_iff.1 h
      have hb : BelowMax w := fun i => by simpa using List.all_eq_true.1 hbelow i (hn i)
      exact Relation.ReflTransGen.head ⟨hb, Move.step_of_apply h₁⟩ (ih h₂)
    · cases h

end Schedules

/-- Two nodes with identifiers 1 and 2, listening on ports 1001 and 1002. -/
def twoNodes (i : Fin 2) : ElectionConfig where
  node :=
    { instanceId := ⟨i.val + 1⟩, internalTcp := ⟨.v4 2130706433, 1001 + i.val⟩,
      internalSecureTcp := none, externalTcp := ⟨.v4 2130706433, 2001 + i.val⟩,
      externalSecureTcp := none, externalHttp := ⟨.v4 2130706433, 3001 + i.val⟩,
      nodePriority := 0 }
  clusterSize := 2

theorem twoNodes_instanceId_injective : Function.Injective fun i => (twoNodes i).node.instanceId :=
  fun a b h => Fin.ext (by simpa [twoNodes] using h)

theorem twoNodes_internalTcp_injective :
    Function.Injective fun i => (twoNodes i).node.internalTcp :=
  fun a b h => Fin.ext (by simpa [twoNodes] using h)

/-- The two nodes as gossip shows them, alive, highest address first. -/
def twoMembers : List Member :=
  [(twoNodes 1).node.memberInfo .unknown true {} 0, (twoNodes 0).node.memberInfo .unknown true {} 0]

/-- Both nodes start elections for view 0; the second, which leads view 0, gets the first's vote
and prepares; the first answers, takes the proposal of the second and accepts it, and the second
takes that accept. -/
def electionOfTwo : List (Move (Fin 2)) :=
  [.start 0, .start 1, .deliver 1 0, .deliver 0 2, .deliver 1 3, .deliver 0 4, .deliver 1 5]

/-- Along that schedule both nodes publish the second as master of view 0, each having accepted
it. -/
theorem twoNodes_elect_in_view_zero :
    ∃ w, ReachesBelowMax twoNodes (informed twoNodes (fun _ => {}) 0 twoMembers) w ∧
      w.done = [(0, 0, ⟨2⟩), (1, 0, ⟨2⟩)] ∧
      w.accepted = [(1, 0, ⟨2⟩), (1, 0, ⟨2⟩), (0, 0, ⟨2⟩)] := by
  -- gossip sorts the members with a merge sort, which the kernel does not evaluate
  have hs : Elections.serversOf twoMembers = twoMembers := by
    unfold Elections.serversOf
    rw [List.filter_eq_self.2 (by decide +kernel), List.mergeSort_of_pairwise (by decide +kernel)]
  have h₀ : informed twoNodes (fun _ => {}) 0 twoMembers =
      { node := fun i => { Elections.init (twoNodes i) {} 0 with servers := twoMembers } } := by
    have hn : ∀ i, (informed twoNodes (fun _ => {}) 0 twoMembers).node i =
        { Elections.init (twoNodes i) {} 0 with servers := twoMembers } := fun i => by
      rw [informed_node, hs]
    exact congrArg (fun f => ({ node := f } : ElectionNet (Fin 2))) (funext hn)
  have hrun : (runBelow twoNodes [0, 1] (fun _ => {})
      { node := fun i => { Elections.init (twoNodes i) {} 0 with servers := twoMembers } }
      electionOfTwo).map (fun w => (w.done, w.accepted)) =
        some ([(0, 0, ⟨2⟩), (1, 0, ⟨2⟩)], [(1, 0, ⟨2⟩), (1, 0, ⟨2⟩), (0, 0, ⟨2⟩)]) := by
    decide +kernel
  rw [h₀]
  obtain ⟨w, h, hw⟩ := Option.map_eq_some_iff.1 hrun
  obtain ⟨hd, ha⟩ := Prod.mk.inj hw
  exact ⟨w, runBelow_sound (by decide) h, hd, ha⟩

/-- Two nodes with distinct identifiers and addresses, told of each other, run an election to its
end below the largest view; both publish a result for view 0, and the two agree. -/
theorem elections_agree_after_two_node_election :
    (Function.Injective fun i => (twoNodes i).node.instanceId) ∧
      (Function.Injective fun i => (twoNodes i).node.internalTcp) ∧
      ∃ w, ReachesBelowMax twoNodes (informed twoNodes (fun _ => {}) 0 twoMembers) w ∧
        w.done = [(0, 0, ⟨2⟩), (1, 0, ⟨2⟩)] ∧
        ∀ i j v M M', (i, v, M) ∈ w.done → (j, v, M') ∈ w.done → M = M' := by
  obtain ⟨w, hw, hdone, -⟩ := twoNodes_elect_in_view_zero
  exact ⟨twoNodes_instanceId_injective, twoNodes_internalTcp_injective, w, hw, hdone,
    elections_agree_on_master twoNodes twoNodes_instanceId_injective
      twoNodes_internalTcp_injective _ 0 twoMembers hw⟩

end ElectionNet

end EventStore
