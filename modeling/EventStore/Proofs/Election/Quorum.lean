import EventStore.Proofs.Election.Agreement

/-!
# Election results are backed by a majority

A node publishes a result once it counts a majority of accepts for its proposal. This module shows
what that count stands for (`results_backed_by_majority`): every result names its publisher and
at least a majority of distinct nodes in all, and each of the others issued an accept for the
result's master, in the result's view or an earlier one.

Earlier views cannot be ruled out. A node that joins a later view from another node's
announcement (`handleProof`) keeps the proposal and the accepts it counted in its old view, so
accepts of two views can make up one majority.

The node-level part is a calculus over handler runs (`Tally`), in the style of `StepOK`: a run
keeps a node's count backed (`Counts`: the node counts each server once, and each other server it
counts accepted the proposed master in a view no later than its installed one), and every message
it sends or publishes is accounted for (`Tallied`): an accept or a proposal is the node's own,
and a result counts a majority (`Majority`). The network part (`Backing`) carries these facts
along every run, with the accept log of `ElectionNet` as the record of who accepted what.
-/

namespace EventStore

/-- The accept a peer message carries: an accept, or a proposal, which is its sender's accept of
the proposed master. -/
def PeerMessage.acceptOf? : PeerMessage → Option Accept
  | .accept a => some a
  | .proposal p => some ⟨p.serverId, p.serverInternal, p.masterId, p.masterInternal, p.view⟩
  | _ => none

/-- The accept an election message carries. -/
def ElectionMsg.acceptOf? : ElectionMsg → Option Accept
  | .accept a => some a
  | .proposal p => some ⟨p.serverId, p.serverInternal, p.masterId, p.masterInternal, p.view⟩
  | _ => none

theorem PeerMessage.accepted?_of_acceptOf? {pm : PeerMessage} {a : Accept}
    (h : pm.acceptOf? = some a) : pm.accepted? = some (a.view, a.masterId) := by
  cases pm <;> simp only [PeerMessage.acceptOf?, Option.some.injEq, reduceCtorEq] at h <;>
    subst h <;> rfl

theorem ElectionMsg.acceptOf?_of_ofPeer? {pm : PeerMessage} {em : ElectionMsg}
    (h : ofPeer? pm = some em) : em.acceptOf? = pm.acceptOf? := by
  cases pm <;> simp only [ofPeer?, Option.some.injEq, reduceCtorEq] at h <;> subst h <;> rfl

/-- A trigger carries no accept. -/
theorem ElectionMsg.IsTrigger.acceptOf?_eq {m : ElectionMsg} (hm : m.IsTrigger) :
    m.acceptOf? = none := by
  cases m <;> simp_all [IsTrigger, ElectionMsg.acceptOf?]

namespace Elections

/-! ## Counting accepts -/

section Counting

variable (cfg : ElectionConfig) (acc : Uuid → Int → Uuid → Prop)

/-- A node's count of accepts is backed by `acc`: it counts each server once, and each other
server it counts accepted the proposed master in a view no later than the installed one. -/
def Counts (s : Elections) : Prop :=
  s.accepts.Nodup ∧ ∀ id ∈ s.accepts, id ≠ cfg.node.instanceId →
    ∃ c, s.proposal = some c ∧ ∃ u ≤ s.lastInstalledView, acc id u c.instanceId

/-- A result for master `M` in view `v` counts a majority of distinct servers, each other one of
which accepted `M` in a view no later than `v`. -/
def Majority (v : Int) (M : Uuid) : Prop :=
  ∃ ids : List Uuid, ids.Nodup ∧ majority cfg ≤ ids.length ∧
    ∀ id ∈ ids, id ≠ cfg.node.instanceId → ∃ u ≤ v, acc id u M

/-- A message a node sends is accounted for: an accept or a proposal is the node's own, and a
result counts a majority. -/
def Tallied (m : Message) : Prop :=
  (∀ d pm, m = .peerSend d pm → ∀ a ∈ pm.acceptOf?, a.serverId = cfg.node.instanceId) ∧
    ∀ v mm, m = .election (.electionsDone v mm) → Majority cfg acc v mm.instanceId

/-- A run from `r` to `r'` keeps a backed count backed and sends only messages that are
accounted for. -/
def Tally (r r' : Round) : Prop :=
  Counts cfg acc r.s → Counts cfg acc r'.s ∧
    ∃ o, r'.out.toList = r.out.toList ++ o ∧ ∀ m ∈ o, Tallied cfg acc m

variable {cfg acc}

/-- An empty count is backed. -/
theorem Counts.of_nil {s : Elections} (h : s.accepts = []) : Counts cfg acc s :=
  ⟨by rw [h]; exact List.nodup_nil, by simp [h]⟩

/-- A count stays backed while its accepts and proposal stay and the installed view grows. -/
theorem Counts.congr {s s' : Elections} (h : Counts cfg acc s) (ha : s'.accepts = s.accepts)
    (hp : s'.proposal = s.proposal) (hI : s.lastInstalledView ≤ s'.lastInstalledView) :
    Counts cfg acc s' := by
  refine ⟨ha ▸ h.1, fun id hid hne => ?_⟩
  obtain ⟨c, hc, u, hu, hacc⟩ := h.2 id (ha ▸ hid) hne
  exact ⟨c, hp.trans hc, u, Int.le_trans hu hI, hacc⟩

theorem Counts.mono {acc' : Uuid → Int → Uuid → Prop}
    (hacc : ∀ id u M, acc id u M → acc' id u M)
    {s : Elections} (h : Counts cfg acc s) : Counts cfg acc' s := by
  refine ⟨h.1, fun id hid hne => ?_⟩
  obtain ⟨c, hc, u, hu, ha⟩ := h.2 id hid hne
  exact ⟨c, hc, u, hu, hacc _ _ _ ha⟩

theorem Majority.mono {acc' : Uuid → Int → Uuid → Prop}
    (hacc : ∀ id u M, acc id u M → acc' id u M) {v : Int} {M : Uuid}
    (h : Majority cfg acc v M) : Majority cfg acc' v M := by
  obtain ⟨ids, hnd, hlen, hids⟩ := h
  refine ⟨ids, hnd, hlen, fun id hid hne => ?_⟩
  obtain ⟨u, hu, ha⟩ := hids id hid hne
  exact ⟨u, hu, hacc _ _ _ ha⟩

/-- A count of a majority for the proposal is a majority for the proposed master in the installed
view. -/
theorem Counts.majority {s : Elections} {c : Candidate} (h : Counts cfg acc s)
    (hp : s.proposal = some c) (hlen : majority cfg ≤ s.accepts.length) :
    Majority cfg acc s.lastInstalledView c.instanceId := by
  refine ⟨s.accepts, h.1, hlen, fun id hid hne => ?_⟩
  obtain ⟨c', hc', u, hu, ha⟩ := h.2 id hid hne
  rw [hp, Option.some.injEq] at hc'
  exact ⟨u, hu, hc' ▸ ha⟩

/-- A new server counted toward the proposal, for an accept of the proposed master in the
installed view, keeps the count backed. -/
theorem Counts.append {s : Elections} {id : Uuid} {c : Candidate} (h : Counts cfg acc s)
    (hnew : id ∉ s.accepts) (hp : s.proposal = some c)
    (hid : id ≠ cfg.node.instanceId → acc id s.lastInstalledView c.instanceId) :
    Counts cfg acc { s with accepts := s.accepts ++ [id] } := by
  have hone : [id].Nodup := List.nodup_cons.2 ⟨List.not_mem_nil, List.nodup_nil⟩
  refine ⟨List.nodup_append.2 ⟨h.1, hone, ?_⟩, fun id' hid' hne => ?_⟩
  · intro x hx y hy hxy
    rw [List.mem_singleton.1 hy] at hxy
    exact hnew (hxy ▸ hx)
  · rcases List.mem_append.1 hid' with hold | hnew'
    · exact h.2 id' hold hne
    · rw [List.mem_singleton.1 hnew'] at hne ⊢
      exact ⟨c, hp, s.lastInstalledView, Int.le_refl _, hid hne⟩

/-- A message that sends no accept and publishes no result is accounted for. -/
theorem Tallied.of_silent {m : Message}
    (hs : ∀ d pm, m = .peerSend d pm → pm.acceptOf? = none)
    (hd : ∀ v mm, m ≠ .election (.electionsDone v mm)) : Tallied cfg acc m :=
  ⟨fun d pm h a ha => by rw [hs d pm h] at ha; exact absurd ha (Option.not_mem_none a),
    fun v mm h => absurd h (hd v mm)⟩

theorem Tally.refl (r : Round) : Tally cfg acc r r :=
  fun h => ⟨h, [], by simp, by simp⟩

theorem Tally.trans {r₁ r₂ r₃ : Round} (h₁ : Tally cfg acc r₁ r₂)
    (h₂ : Tally cfg acc r₂ r₃) : Tally cfg acc r₁ r₃ := by
  intro h
  obtain ⟨h₂', o₁, ho₁, hm₁⟩ := h₁ h
  obtain ⟨h₃, o₂, ho₂, hm₂⟩ := h₂ h₂'
  refine ⟨h₃, o₁ ++ o₂, by rw [ho₂, ho₁, List.append_assoc], fun m hm => ?_⟩
  rcases List.mem_append.1 hm with hm | hm
  · exact hm₁ m hm
  · exact hm₂ m hm

/-- Two runs in sequence. -/
theorem Tally.seq {x : Handler Unit} {g : Unit → Handler Unit} {r : Round}
    (h₁ : Tally cfg acc r (x.run r).2)
    (h₂ : Tally cfg acc (x.run r).2 ((g ()).run (x.run r).2).2) :
    Tally cfg acc r ((x >>= g).run r).2 :=
  h₁.trans h₂

theorem Tally.update {s' : Elections} (r : Round) (hs : Counts cfg acc r.s → Counts cfg acc s') :
    Tally cfg acc r { r with s := s' } :=
  fun h => ⟨hs h, [], by simp, by simp⟩

/-- An update that keeps a backed count backed, then a run. -/
theorem Tally.update_bind {f : Elections → Elections} {g : Unit → Handler Unit} {r : Round}
    (hs : Counts cfg acc r.s → Counts cfg acc (f r.s))
    (h : Tally cfg acc { r with s := f r.s } ((g ()).run { r with s := f r.s }).2) :
    Tally cfg acc r ((Elections.update f >>= g).run r).2 :=
  (Tally.update r hs).trans h

/-- Publishing a message that is accounted for while the count is backed. -/
theorem Tally.publish {m : Message} (r : Round) (hm : Counts cfg acc r.s → Tallied cfg acc m) :
    Tally cfg acc r ((Elections.publish m).run r).2 := by
  intro h
  refine ⟨h, [m], by rw [publish_run]; simp, fun m' hm' => ?_⟩
  rw [List.mem_singleton.1 hm']
  exact hm h

/-- Sending a peer message whose accept, if any, is the node's own. -/
theorem Tally.sendToOthers {pm : PeerMessage} (r : Round)
    (hpm : ∀ a ∈ pm.acceptOf?, a.serverId = cfg.node.instanceId) :
    Tally cfg acc r ((Elections.sendToOthers cfg pm).run r).2 := by
  rw [sendToOthers_run]
  intro h
  refine ⟨h, others cfg r.s.servers pm, by simp, fun m hm => ?_⟩
  obtain ⟨srv, -, rfl⟩ := List.mem_map.1 hm
  refine ⟨fun d pm' heq => ?_, fun v mm heq => by cases heq⟩
  cases heq
  exact hpm

end Counting

/-! ## The handlers keep counts backed -/

section Handlers

variable {cfg : ElectionConfig} {acc : Uuid → Int → Uuid → Prop}

/-- Taking an accept keeps the count backed, when the accept, if another server's, is backed: a
new server is counted for an accept in the installed view, and a result is published only for a
count of a majority. -/
theorem handleAccept_tally (a : Accept) (r : Round)
    (ha : a.serverId ≠ cfg.node.instanceId → acc a.serverId a.view a.masterId) :
    Tally cfg acc r ((handleAccept cfg a).run r).2 := by
  unfold handleAccept
  dsimp only
  rw [get'_bind_run]
  split
  · exact .refl r
  · rename_i hguard
    have hview : a.view = r.s.lastInstalledView := by
      rw [not_or, not_not] at hguard
      exact hguard.2
    split
    · rename_i prop hprop
      split
      · exact .refl r
      · rename_i hmaster
        rw [not_not] at hmaster
        split
        · exact .refl r
        · rename_i hnew
          have hnew' : a.serverId ∉ r.s.accepts := fun h => hnew (List.elem_eq_true_of_mem h)
          refine Tally.update_bind (fun h => h.append hnew' hprop (hmaster ▸ hview ▸ ha)) ?_
          split
          · rename_i hlen
            split
            · exact .refl _
            · rename_i mm hmm
              have hid : mm.instanceId = prop.instanceId := by
                simpa using List.find?_some hmm
              refine Tally.update_bind (fun h => h.congr rfl rfl (Int.le_refl _)) ?_
              refine Tally.publish _ fun h =>
                ⟨fun _ _ heq => (by cases heq), fun v mm' heq => ?_⟩
              cases heq
              -- the count is the accepts taken so far, a majority for the proposal
              rw [hid, hview]
              exact h.majority hprop (Nat.le_of_eq hlen.symm)
          · exact .refl _
    · exact .refl r

/-- A message that is neither a peer message nor a result is accounted for. -/
theorem tallied_schedule (t : Nat) (m : Message) : Tallied cfg acc (.schedule t m) :=
  .of_silent (fun _ _ h => by cases h) (fun _ _ h => by cases h)

/-- Proposing empties the count and counts the node's own accept of its proposal. -/
theorem sendProposal_tally (r : Round) : Tally cfg acc r ((sendProposal cfg).run r).2 := by
  unfold sendProposal
  refine Tally.update_bind (fun _ => Counts.of_nil rfl) ?_
  rw [get'_bind_run]
  split
  · refine Tally.update_bind (fun _ => Counts.of_nil rfl) ?_
    refine Tally.seq (handleAccept_tally _ _ fun h => absurd rfl h) ?_
    exact Tally.sendToOthers _ fun a ha => by cases ha; rfl
  · exact .refl _

theorem handlePrepareOk_tally (m : PrepareOk) (r : Round) :
    Tally cfg acc r ((handlePrepareOk cfg m).run r).2 := by
  unfold handlePrepareOk
  dsimp only
  rw [get'_bind_run]
  split
  · exact .refl r
  · split
    · exact .refl r
    · refine Tally.update_bind (fun h => h.congr rfl rfl (Int.le_refl _)) ?_
      split
      · exact Tally.update_bind (fun h => h.congr rfl rfl (Int.le_refl _)) (sendProposal_tally _)
      · exact .refl _

/-- Installing the attempted view keeps the count, when the installed view does not go back. -/
theorem shiftToPreparePhase_tally (p : Progress) (r : Round)
    (hIA : r.s.lastInstalledView ≤ r.s.lastAttemptedView) :
    Tally cfg acc r ((shiftToPreparePhase cfg p).run r).2 := by
  unfold shiftToPreparePhase
  refine Tally.update_bind (fun h => h.congr rfl rfl hIA) ?_
  rw [get'_bind_run]
  exact Tally.seq (handlePrepareOk_tally _ _) (Tally.sendToOthers _ fun a ha => by cases ha)

theorem shiftToNonLeader_tally (r : Round)
    (hIA : r.s.lastInstalledView ≤ r.s.lastAttemptedView) :
    Tally cfg acc r (shiftToNonLeader.run r).2 := by
  unfold shiftToNonLeader
  rw [update_run]
  exact Tally.update r fun h => h.congr rfl rfl hIA

/-- Taking a vote keeps the count, when starting a new attempt does and leaves the views in
order. -/
theorem viewChangeWith_tally (p : Progress) (shift : Int → Handler Unit) (m : ViewChange)
    (r : Round) (hord : ViewsOrdered r.s)
    (hshift : ∀ r' : Round, ViewsOrdered r'.s → r'.s.lastInstalledView < m.attemptedView →
      r'.s.lastAttemptedView < m.attemptedView →
        Tally cfg acc r' ((shift m.attemptedView).run r').2 ∧
          ViewsOrdered ((shift m.attemptedView).run r').2.s) :
    Tally cfg acc r ((viewChangeWith cfg p shift m).run r).2 := by
  unfold viewChangeWith
  dsimp only
  rw [get'_bind_run]
  split
  · exact .refl r
  · split
    · exact .refl r
    · rename_i hI
      have hlt : r.s.lastInstalledView < m.attemptedView := Int.lt_of_not_ge hI
      split
      case' isTrue hA =>
        refine Tally.seq (hshift r hord hlt hA).1 ?_
        have hord₁ := (hshift r hord hlt hA).2
        revert hord₁
      case' isFalse =>
        have hord₁ : ViewsOrdered r.s := hord
        revert hord₁
      -- with or without a new attempt, the vote is counted on a round with its views in order
      all_goals
        intro hord₁
        rw [get'_bind_run]
        split
        · exact .refl _
        · refine Tally.update_bind (fun h => h.congr rfl rfl (Int.le_refl _)) ?_
          split
          · rw [get'_bind_run]
            split
            · exact shiftToPreparePhase_tally p _ hord₁
            · exact .refl _
          · exact .refl _

/-- Starting an attempt at a view later than the installed one empties the count. -/
theorem shiftToLeaderElection_tally (p : Progress) (view : Int) (r : Round)
    (hIv : r.s.lastInstalledView < view) :
    Tally cfg acc r ((shiftToLeaderElection cfg p view).run r).2 := by
  unfold shiftToLeaderElection
  dsimp only
  refine Tally.update_bind (fun _ => Counts.of_nil rfl) ?_
  refine Tally.seq (viewChangeWith_tally p _ _ _ (Int.le_of_lt hIv)
    fun r' hr' _ _ => ⟨.refl r', hr'⟩) ?_
  refine Tally.seq (Tally.sendToOthers _ fun a ha => by cases ha) ?_
  exact Tally.publish _ fun _ => tallied_schedule _ _

theorem handleViewChange_tally (p : Progress) (m : ViewChange) (r : Round)
    (hord : ViewsOrdered r.s) : Tally cfg acc r ((handleViewChange cfg p m).run r).2 :=
  viewChangeWith_tally p _ m r hord fun r' hr' hI hA =>
    ⟨shiftToLeaderElection_tally p _ r' hI,
      (shiftToLeaderElection_step cfg none none p _ r' hr' hA).ordered⟩

theorem handleSendProof_tally (r : Round) : Tally cfg acc r ((handleSendProof cfg).run r).2 := by
  unfold handleSendProof
  dsimp only
  rw [get'_bind_run]
  split
  · exact .refl r
  · split
    · exact Tally.seq (Tally.sendToOthers _ fun a ha => by cases ha)
        (Tally.publish _ fun _ => tallied_schedule _ _)
    · exact Tally.publish _ fun _ => tallied_schedule _ _

/-- Joining a later installed view keeps the count, with the proposal and the accepts counted
so far. -/
theorem handleProof_tally (p : Progress) (m : ViewChangeProof) (r : Round) :
    Tally cfg acc r ((handleProof cfg p m).run r).2 := by
  unfold handleProof
  rw [get'_bind_run]
  split
  · exact .refl r
  · split
    · exact .refl r
    · rename_i hnew
      have hlt : r.s.lastInstalledView < m.installedView := Int.lt_of_not_ge hnew
      refine Tally.update_bind (fun h => h.congr rfl rfl (Int.le_refl _)) ?_
      refine Tally.seq (Tally.publish _ fun _ => tallied_schedule _ _) ?_
      rw [get'_bind_run]
      split
      · exact shiftToPreparePhase_tally p _ (Int.le_of_lt hlt)
      · exact shiftToNonLeader_tally _ (Int.le_of_lt hlt)

theorem handlePrepare_tally (p : Progress) (m : Prepare) (r : Round) (hord : ViewsOrdered r.s) :
    Tally cfg acc r ((handlePrepare cfg p m).run r).2 := by
  unfold handlePrepare
  dsimp only
  rw [get'_bind_run]
  have hanswer : ∀ r' : Round, Tally cfg acc r'
      ((publish (.peerSend m.serverInternal (.prepareOk (prepareOkOf cfg p m.view)))).run r').2 :=
    fun r' => Tally.publish r' fun _ =>
      .of_silent (fun _ _ h => by cases h; rfl) (fun _ _ h => by cases h)
  split
  · exact .refl r
  · split
    · exact .refl r
    · split
      · exact Tally.seq (shiftToNonLeader_tally r hord) (hanswer _)
      · exact hanswer r

/-- Taking a proposal keeps the count, when the proposer's accept is backed: the node counts the
proposer's accept and its own. -/
theorem handleProposal_tally (p : Progress) (m : Proposal) (r : Round)
    (hm : m.serverId ≠ cfg.node.instanceId → acc m.serverId m.view m.masterId) :
    Tally cfg acc r ((handleProposal cfg p m).run r).2 := by
  unfold handleProposal
  dsimp only
  rw [get'_bind_run]
  have haccept : ∀ r' : Round, Tally cfg acc r'
      ((handleAccept cfg
          ⟨m.serverId, m.serverInternal, m.masterId, m.masterInternal, m.view⟩ >>=
        fun _ => handleAccept cfg ⟨cfg.node.instanceId, cfg.node.internalTcp, m.masterId,
          m.masterInternal, m.view⟩ >>= fun _ => sendToOthers cfg (.accept ⟨cfg.node.instanceId,
            cfg.node.internalTcp, m.masterId, m.masterInternal, m.view⟩)).run r').2 :=
    fun r' => Tally.seq (handleAccept_tally _ _ hm) (Tally.seq
      (handleAccept_tally _ _ fun h => absurd rfl h) (Tally.sendToOthers _ fun a ha => by
        cases ha; rfl))
  split
  · exact .refl r
  · split
    · exact .refl r
    · split
      · exact .refl r
      · split
        · exact .refl r
        · split
          · refine Tally.update_bind (fun _ => Counts.of_nil rfl) ?_
            rw [get'_bind_run]
            split
            · exact haccept _
            · exact .refl _
          · rw [get'_bind_run]
            split
            · exact haccept _
            · exact .refl _

/-- Handling an election message keeps the count backed and sends only messages that are
accounted for, when the node's views are in order, its attempted view is below the largest one,
and the accept the message carries, if another server's, is backed. -/
theorem handler_tally (p : Progress) (m : ElectionMsg) (r : Round) (hord : ViewsOrdered r.s)
    (hwrap : r.s.lastAttemptedView < maxView)
    (hinp : ∀ a ∈ m.acceptOf?, a.serverId ≠ cfg.node.instanceId →
      acc a.serverId a.view a.masterId) :
    Tally cfg acc r ((handler cfg p (.election m)).run r).2 := by
  -- the next view is later than the attempted one, so later than the installed one
  have hnext : r.s.lastInstalledView < nextView r.s.lastAttemptedView := by
    rw [nextView_of_lt hwrap]
    exact Int.lt_of_le_of_lt hord (Int.lt_succ _)
  cases m with
  | startElections =>
    simp only [handler]
    rw [get'_bind_run]
    split
    · exact .refl r
    · exact shiftToLeaderElection_tally p _ r hnext
  | electionsTimedOut view =>
    simp only [handler]
    rw [get'_bind_run]
    split
    · exact .refl r
    · split
      · exact .refl r
      · exact shiftToLeaderElection_tally p _ r hnext
  | sendViewChangeProof => exact handleSendProof_tally r
  | viewChange vc => exact handleViewChange_tally p vc r hord
  | viewChangeProof vp => exact handleProof_tally p vp r
  | prepare pr => exact handlePrepare_tally p pr r hord
  | prepareOk ok => exact handlePrepareOk_tally ok r
  | proposal pr => exact handleProposal_tally p pr r (hinp _ rfl)
  | accept a => exact handleAccept_tally a r (hinp a rfl)
  | electionsDone v mm => exact .refl r

end Handlers

end Elections

namespace ElectionNet

open Elections

section Backing

variable {ι : Type} {cfg : ι → ElectionConfig}

/-- The node with identifier `id` issued an accept for master `M` in view `u`: the accept log
records it. -/
def Issued (cfg : ι → ElectionConfig) (w : ElectionNet ι) (id : Uuid) (u : Int) (M : Uuid) :
    Prop :=
  ∃ j, (cfg j).node.instanceId = id ∧ (j, u, M) ∈ w.accepted

/-- What keeps the counts of a network honest: every node's count is backed by the accept log,
every accept or proposal in the soup was issued by the node it names, and every published result
counts a majority. -/
structure Backing (cfg : ι → ElectionConfig) (w : ElectionNet ι) : Prop where
  counts : ∀ i, Counts (cfg i) (Issued cfg w) (w.node i)
  sent : ∀ d pm, (d, pm) ∈ w.sent → ∀ a ∈ pm.acceptOf?,
    Issued cfg w a.serverId a.view a.masterId
  done : ∀ k v M, (k, v, M) ∈ w.done → Majority (cfg k) (Issued cfg w) v M

/-- Distinct identifiers, each of a node with property `P`, are the identifiers of as many
distinct nodes. -/
theorem exists_nodes_of_ids {P : ι → Prop} (L : List Uuid) (hnd : L.Nodup)
    (h : ∀ id ∈ L, ∃ j, (cfg j).node.instanceId = id ∧ P j) :
    ∃ T : List ι, T.Nodup ∧ T.length = L.length ∧
      ∀ j ∈ T, (cfg j).node.instanceId ∈ L ∧ P j := by
  induction L with
  | nil => exact ⟨[], List.nodup_nil, rfl, by simp⟩
  | cons id L ih =>
    obtain ⟨hid, hnd⟩ := List.nodup_cons.1 hnd
    obtain ⟨T, hT, hlen, hmem⟩ := ih hnd fun id' h' => h id' (List.mem_cons_of_mem _ h')
    obtain ⟨j, hj, hP⟩ := h id List.mem_cons_self
    -- the others' identifiers are in the rest of the list, which does not hold `id`
    have hjT : j ∉ T := fun hjT => hid (hj ▸ (hmem j hjT).1)
    refine ⟨j :: T, List.nodup_cons.2 ⟨hjT, hT⟩, by simp [hlen], fun j' hj' => ?_⟩
    rcases List.mem_cons.1 hj' with rfl | hj'
    · exact ⟨hj ▸ List.mem_cons_self, hP⟩
    · exact ⟨List.mem_cons_of_mem _ (hmem j' hj').1, (hmem j' hj').2⟩

end Backing

section Steps

variable {ι : Type} [DecidableEq ι] {cfg : ι → ElectionConfig}

theorem Issued.act {w : ElectionNet ι} {i : ι} {p : Progress} {m : Message} {id : Uuid} {u : Int}
    {M : Uuid} (h : Issued cfg w id u M) : Issued cfg (w.act cfg i p m) id u M := by
  obtain ⟨j, hj, hmem⟩ := h
  exact ⟨j, hj, by rw [act_accepted]; exact List.mem_append_left _ hmem⟩

/-- An accept node `i` sends in a step is in the accept log after it. -/
theorem mem_accepted_of_sent {w : ElectionNet ι} {i : ι} {p : Progress} {m : Message}
    {d : SocketAddr} {pm : PeerMessage} {a : Accept}
    (hmsg : .peerSend d pm ∈ (handle (cfg i) p (w.node i) m).2) (ha : pm.acceptOf? = some a) :
    (i, a.view, a.masterId) ∈ (w.act cfg i p m).accepted := by
  rw [act_accepted]
  refine List.mem_append_right _ (List.mem_map.2 ⟨(a.view, a.masterId), ?_, rfl⟩)
  unfold Elections.issued
  exact List.mem_append_left _
    (List.mem_filterMap.2 ⟨_, hmsg, PeerMessage.accepted?_of_acceptOf? ha⟩)

/-- A handler run of node `i` that `Tally` describes, with the accept log after the step as the
record of accepts, keeps the network's counts honest. -/
theorem Backing.act {w : ElectionNet ι} (h : Backing cfg w) {i : ι} {p : Progress} {m : Message}
    (hstep : Tally (cfg i) (Issued cfg (w.act cfg i p m)) ⟨w.node i, #[]⟩
      ((handler (cfg i) p m).run ⟨w.node i, #[]⟩).2) :
    Backing cfg (w.act cfg i p m) := by
  obtain ⟨hcount, o, ho, htal⟩ := hstep ((h.counts i).mono fun _ _ _ => Issued.act)
  have hout : (handle (cfg i) p (w.node i) m).2 = o := handle_snd_eq ho
  refine ⟨fun j => ?_, fun d pm hs a ha => ?_, fun k v M hk => ?_⟩
  · by_cases hj : j = i
    · subst hj
      rw [act_node_self, handle_eq]
      exact hcount
    · rw [act_node_ne w p m hj]
      exact (h.counts j).mono fun _ _ _ => Issued.act
  · rw [act_sent, List.mem_append] at hs
    rcases hs with hs | hs
    · exact (h.sent d pm hs a ha).act
    · obtain ⟨msg, hmsg, hsend⟩ := List.mem_filterMap.1 hs
      rw [Message.eq_of_peerSend? hsend] at hmsg
      refine ⟨i, ?_, mem_accepted_of_sent hmsg ha⟩
      rw [hout] at hmsg
      exact ((htal _ hmsg).1 d pm rfl a ha).symm
  · rw [act_done, List.mem_append] at hk
    rcases hk with hk | hk
    · exact (h.done k v M hk).mono fun _ _ _ => Issued.act
    · obtain ⟨x, hx, hkx⟩ := List.mem_map.1 hk
      cases hkx
      obtain ⟨msg, hmsg, hdone⟩ := List.mem_filterMap.1 hx
      obtain ⟨mm, rfl, hmm⟩ := Message.eq_of_electionsDone? hdone
      rw [hout] at hmsg
      have hres := (htal _ hmsg).2 _ mm rfl
      rw [hmm] at hres
      exact hres

/-- Every step of the network taken below the largest view, from a safe network, keeps its counts
honest. -/
theorem Backing.step {servers : List Member} {w w' : ElectionNet ι} {em : ElectionMsg}
    (hsafe : Safe cfg servers w) (hbelow : BelowMax w) (h : Backing cfg w)
    (hs : Step cfg w em w') : Backing cfg w' := by
  cases hs with
  | trigger i p hm =>
    refine h.act (handler_tally p em _ (hsafe.ordered i) (hbelow i) ?_)
    rw [hm.acceptOf?_eq]
    exact fun a ha => absurd ha (Option.not_mem_none a)
  | deliver i p hsent hdest hem =>
    refine h.act (handler_tally p em _ (hsafe.ordered i) (hbelow i) fun a ha _ => ?_)
    rw [ElectionMsg.acceptOf?_of_ofPeer? hem] at ha
    exact (h.sent _ _ hsent a ha).act

/-- Along every run below the largest view from a safe network with honest counts, the counts
stay honest. -/
theorem Backing.reaches (hid : Function.Injective fun i => (cfg i).node.instanceId)
    (haddr : Function.Injective fun i => (cfg i).node.internalTcp) {servers : List Member}
    {w₀ w : ElectionNet ι} (hsafe : Safe cfg servers w₀) (h : Backing cfg w₀)
    (hr : ReachesBelowMax cfg w₀ w) : Backing cfg w := by
  induction hr with
  | refl => exact h
  | tail hr' hab ih =>
    obtain ⟨hbelow, m, hs⟩ := hab
    exact ih.step (hsafe.reaches hid haddr hr') hbelow hs

omit [DecidableEq ι] in
/-- Before any election nothing is counted, sent or published. -/
theorem backing_informed (p : ι → Progress) (now : Int) (members : List Member) :
    Backing cfg (informed cfg p now members) where
  counts i := Counts.of_nil (by rw [informed_node]; rfl)
  sent _ _ h := by cases h
  done _ _ _ h := by cases h

end Steps

variable {ι : Type} [DecidableEq ι]

/-- In a cluster of elections services that know the same servers, with distinct identifiers and
distinct internal addresses, every published result counts its publisher and at least a majority
of distinct nodes in all, each of the others having issued an accept for the result's master in
the result's view or an earlier one, along every run taken below the largest view. -/
theorem results_backed_by_majority (cfg : ι → ElectionConfig)
    (hid : Function.Injective fun i => (cfg i).node.instanceId)
    (haddr : Function.Injective fun i => (cfg i).node.internalTcp)
    (p : ι → Progress) (now : Int) (members : List Member) {w : ElectionNet ι}
    (hw : ReachesBelowMax cfg (informed cfg p now members) w) :
    ∀ k v M, (k, v, M) ∈ w.done → ∃ S : List ι, k ∈ S ∧ S.Nodup ∧ majority (cfg k) ≤ S.length ∧
      ∀ j ∈ S, j ≠ k → ∃ u ≤ v, (j, u, M) ∈ w.accepted := by
  have hb := (backing_informed p now members).reaches hid haddr (safe_informed p now members) hw
  intro k v M hk
  obtain ⟨ids, hnd, hlen, hids⟩ := hb.done k v M hk
  -- the servers counted besides the publisher are nodes that issued an accept
  have hback : ∀ id ∈ ids.erase (cfg k).node.instanceId,
      ∃ j, (cfg j).node.instanceId = id ∧ ∃ u ≤ v, (j, u, M) ∈ w.accepted := by
    intro id hmem
    obtain ⟨hne, hmem⟩ := (hnd.mem_erase_iff).1 hmem
    obtain ⟨u, hu, j, hj, hacc⟩ := hids id hmem hne
    exact ⟨j, hj, u, hu, hacc⟩
  obtain ⟨T, hT, hTlen, hTmem⟩ := exists_nodes_of_ids _ (hnd.erase _) hback
  have hkT : k ∉ T := fun hkT => ((hnd.mem_erase_iff).1 (hTmem k hkT).1).1 rfl
  have hle : ids.length ≤ T.length + 1 := by
    rw [hTlen, List.length_erase]
    split <;> omega
  refine ⟨k :: T, List.mem_cons_self, List.nodup_cons.2 ⟨hkT, hT⟩, ?_, fun j hj hjk => ?_⟩
  · simp only [List.length_cons]
    omega
  · rcases List.mem_cons.1 hj with rfl | hj
    · exact absurd rfl hjk
    · exact (hTmem j hj).2

/-- Two nodes with distinct identifiers and addresses, told of each other, run an election to its
end below the largest view: each result for view 0 counts both nodes, and the node other than its
publisher accepted the second node in view 0. -/
theorem results_backed_after_two_node_election :
    (Function.Injective fun i => (twoNodes i).node.instanceId) ∧
      (Function.Injective fun i => (twoNodes i).node.internalTcp) ∧
      ∃ w, ReachesBelowMax twoNodes (informed twoNodes (fun _ => {}) 0 twoMembers) w ∧
        w.done = [(0, 0, ⟨2⟩), (1, 0, ⟨2⟩)] ∧
        w.accepted = [(1, 0, ⟨2⟩), (1, 0, ⟨2⟩), (0, 0, ⟨2⟩)] ∧
        ∀ k v M, (k, v, M) ∈ w.done → ∃ S : List (Fin 2), k ∈ S ∧ S.Nodup ∧
          majority (twoNodes k) ≤ S.length ∧ ∀ j ∈ S, j ≠ k → ∃ u ≤ v, (j, u, M) ∈ w.accepted := by
  obtain ⟨w, hw, hdone, hacc⟩ := twoNodes_elect_in_view_zero
  exact ⟨twoNodes_instanceId_injective, twoNodes_internalTcp_injective, w, hw, hdone, hacc,
    results_backed_by_majority twoNodes twoNodes_instanceId_injective
      twoNodes_internalTcp_injective _ 0 twoMembers hw⟩

end ElectionNet

end EventStore
