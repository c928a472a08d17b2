import EventStore.Proofs.Election.Views

/-!
# One election result per view

A service publishes an election result when the accepts it counts for its proposal reach a
majority, and the result names its installed view. `Elections.Views` shows that these views never
go back. This module shows when they also never repeat, so that a service publishes at most one
result per view.

After a result the service is *spent* for its installed view (`Elections.Spent`): its proposal
has a majority of accepts already, and every further accept only adds to the count. Counting
starts afresh only for a new proposal. That happens when the service proposes as a leader, takes
a proposal as a non-leader holding none, or starts a new attempt; the last leaves it electing
itself for a view past its installed one, which is spent too. `Elections.Settled` carries this
from step to step, with the view `d` of the last result as a ghost.

One thing can break it. A leader counts prepare answers for its attempted view but proposes in
its installed view, so answers for a view it never installed would make it propose again in the
installed view. A service gets such answers only if they were never asked for (`Solicited`).
Without that condition two results may share a view (`unsolicited_answers_repeat_a_view`).
`result_views_ordered` gathers it all: along every run below the largest view the installed view
never goes back and never passes the attempted one, the results come in order of view, and they
come in strictly increasing order when every prepare answer counted was asked for.
-/

namespace EventStore

namespace Elections

/-- Whether a service can publish no further result for its installed view: it shut down, or the
proposal it counts has a majority of accepts already, or it is electing itself for a later
view. -/
def Spent (cfg : ElectionConfig) (s : Elections) : Prop :=
  s.phase = .shutdown ∨ (s.proposal.isSome ∧ majority cfg ≤ s.accepts.length) ∨
    (s.phase = .electingLeader ∧ s.lastInstalledView < s.lastAttemptedView)

/-- The shape every state of a service has: ordered views, and no proposal while electing. -/
structure Coherent (s : Elections) : Prop where
  ordered : ViewsOrdered s
  proposal : s.phase = .electingLeader → s.proposal = none

/-- A coherent state after results whose last one has view `d`: `d` is below the installed view,
or it is the installed view and the state is spent. -/
structure Settled (cfg : ElectionConfig) (d : Int) (s : Elections) : Prop where
  coherent : Coherent s
  fresh : d < s.lastInstalledView ∨ (d = s.lastInstalledView ∧ Spent cfg s)

/-- A handler run from `r` to `r'`, starting after a result of view `d`: its results come in
strictly increasing order of view, all after `d`, and it ends settled after the last of them. -/
def Keeps (cfg : ElectionConfig) (d : Int) (r r' : Round) : Prop :=
  ∃ o d', r'.out.toList = r.out.toList ++ o ∧ (doneViews o).Pairwise (· < ·) ∧
    (∀ v ∈ doneViews o, d < v ∧ v ≤ d') ∧ d ≤ d' ∧ Settled cfg d' r'.s

/-- A prepare answer that a service electing itself would count, one for its attempted view,
answers a prepare the service sent, which it did only for a view it installed. -/
def Solicited (s : Elections) (m : Message) : Prop :=
  ∀ ok, m = .election (.prepareOk ok) → s.phase = .electingLeader →
    ok.view = s.lastAttemptedView → ok.view ≤ s.lastInstalledView

section Keeps

variable {cfg : ElectionConfig}

/-- A state that is not spent has results only for views below its installed one. -/
theorem Settled.lt_of_not_spent {d : Int} {s : Elections} (h : Settled cfg d s)
    (hs : ¬Spent cfg s) : d < s.lastInstalledView :=
  h.fresh.resolve_right fun h' => hs h'.2

/-- A service that is not shut down and still counts accepts towards a majority for a proposal
is not spent. -/
theorem not_spent_of_counting {s : Elections} (hc : Coherent s) (hshut : s.phase ≠ .shutdown)
    (hprop : s.proposal.isSome) (hlen : s.accepts.length < majority cfg) : ¬Spent cfg s := by
  rintro (h | ⟨-, h⟩ | ⟨h, -⟩)
  · exact hshut h
  · exact absurd h (Nat.not_le.2 hlen)
  · rw [hc.proposal h] at hprop
    cases hprop

/-- A service electing itself for the view it installed is not spent. -/
theorem not_spent_of_electing {s : Elections} (hc : Coherent s) (hphase : s.phase = .electingLeader)
    (hIA : s.lastInstalledView = s.lastAttemptedView) : ¬Spent cfg s := by
  rintro (h | ⟨h, -⟩ | ⟨-, h⟩)
  · rw [hphase] at h
    cases h
  · rw [hc.proposal hphase] at h
    cases h
  · exact absurd hIA (Int.ne_of_lt h)

/-- Settledness reads the phase, the views, the proposal and the accepts only. -/
theorem Settled.congr {d : Int} {s s' : Elections} (h : Settled cfg d s) (hp : s'.phase = s.phase)
    (hA : s'.lastAttemptedView = s.lastAttemptedView)
    (hI : s'.lastInstalledView = s.lastInstalledView) (hprop : s'.proposal = s.proposal)
    (hacc : s'.accepts = s.accepts) : Settled cfg d s' := by
  obtain ⟨⟨hord, hc⟩, hf⟩ := h
  refine ⟨⟨?_, ?_⟩, ?_⟩
  · unfold ViewsOrdered
    rw [hA, hI]
    exact hord
  · rw [hp, hprop]
    exact hc
  · unfold Spent
    rw [hp, hA, hI, hprop, hacc]
    exact hf

/-- Installing the attempted view keeps a service settled, when it keeps the proposal and the
accepts and a service that shut down stays so: a view installed anew is past every result. -/
theorem Settled.install {d : Int} {s s' : Elections} (h : Settled cfg d s)
    (hI : s'.lastInstalledView = s.lastAttemptedView)
    (hA : s'.lastAttemptedView = s.lastAttemptedView) (hprop : s'.proposal = s.proposal)
    (hacc : s'.accepts = s.accepts) (hshut : s.phase = .shutdown → s'.phase = .shutdown)
    (hc : s'.phase = .electingLeader → s'.proposal = none) : Settled cfg d s' := by
  have hord := h.coherent.ordered
  unfold ViewsOrdered at hord
  refine ⟨⟨?_, hc⟩, ?_⟩
  · exact Int.le_of_eq (hI.trans hA.symm)
  rw [hI]
  rcases h.fresh with hd | ⟨hd, hs⟩
  · exact .inl (Int.lt_of_lt_of_le hd hord)
  · rcases Int.lt_or_eq_of_le hord with hlt | heq
    · exact .inl (hd ▸ hlt)
    · -- the installed view was the attempted one already, so the service stays spent
      refine .inr ⟨hd.trans heq, ?_⟩
      rcases hs with hs | hs | ⟨-, hlt⟩
      · exact .inl (hshut hs)
      · refine .inr (.inl ?_)
        rw [hprop, hacc]
        exact hs
      · exact absurd heq (Int.ne_of_lt hlt)

/-- A run that publishes no election result and ends settled. -/
theorem Keeps.of_silent {d : Int} {r r' : Round} (o : List Message)
    (hout : r'.out.toList = r.out.toList ++ o) (ho : ∀ m ∈ o, m.electionsDone? = none)
    (hset : Settled cfg d r'.s) : Keeps cfg d r r' := by
  have hdv := doneViews_of_silent ho
  exact ⟨o, d, hout, by rw [hdv]; exact List.Pairwise.nil, by simp [hdv], Int.le_refl _, hset⟩

theorem Keeps.refl {d : Int} {r : Round} (h : Settled cfg d r.s) : Keeps cfg d r r :=
  .of_silent [] (by simp) (by simp) h

theorem Keeps.trans {d : Int} {r₁ r₂ r₃ : Round} (h₁ : Keeps cfg d r₁ r₂)
    (h₂ : ∀ d₁, Settled cfg d₁ r₂.s → Keeps cfg d₁ r₂ r₃) : Keeps cfg d r₁ r₃ := by
  obtain ⟨o₁, d₁, ho₁, hs₁, hb₁, hd₁, hset₁⟩ := h₁
  obtain ⟨o₂, d₂, ho₂, hs₂, hb₂, hd₂, hset₂⟩ := h₂ d₁ hset₁
  refine ⟨o₁ ++ o₂, d₂, by rw [ho₂, ho₁, List.append_assoc], ?_, ?_, Int.le_trans hd₁ hd₂,
    hset₂⟩
  · -- the results of the first part are at most `d₁`, those of the second after it
    rw [doneViews_append, List.pairwise_append]
    exact ⟨hs₁, hs₂, fun a ha b hb => Int.lt_of_le_of_lt (hb₁ a ha).2 (hb₂ b hb).1⟩
  · intro v hv
    rw [doneViews_append, List.mem_append] at hv
    rcases hv with hv | hv
    · exact ⟨(hb₁ v hv).1, Int.le_trans (hb₁ v hv).2 hd₂⟩
    · exact ⟨Int.lt_of_le_of_lt hd₁ (hb₂ v hv).1, (hb₂ v hv).2⟩

/-- Two runs in sequence. -/
theorem Keeps.seq {d : Int} {x : Handler Unit} {g : Unit → Handler Unit} {r : Round}
    (h₁ : Keeps cfg d r (x.run r).2)
    (h₂ : ∀ d₁, Settled cfg d₁ (x.run r).2.s →
      Keeps cfg d₁ (x.run r).2 ((g ()).run (x.run r).2).2) :
    Keeps cfg d r ((x >>= g).run r).2 :=
  h₁.trans h₂

/-- An update that leaves the state settled, then a run. -/
theorem Keeps.update_bind {d : Int} {f : Elections → Elections} {g : Unit → Handler Unit}
    {r : Round} (h : Keeps cfg d { r with s := f r.s } ((g ()).run { r with s := f r.s }).2) :
    Keeps cfg d r ((Elections.update f >>= g).run r).2 :=
  h

/-- An update that leaves the state settled. -/
theorem Keeps.update {d : Int} {f : Elections → Elections} {r : Round}
    (hf : Settled cfg d (f r.s)) : Keeps cfg d r ((Elections.update f).run r).2 := by
  rw [update_run]
  exact .of_silent [] (by simp) (by simp) hf

/-- Publishing a message that is no election result. -/
theorem Keeps.publish {d : Int} {m : Message} {r : Round} (hset : Settled cfg d r.s)
    (hm : m.electionsDone? = none) : Keeps cfg d r ((Elections.publish m).run r).2 := by
  rw [publish_run]
  exact .of_silent [m] (by simp) (by simpa using hm) hset

/-- Publishing the result of the installed view, after results of views below it only, leaves
the service settled after that view when it is spent for it. -/
theorem Keeps.publish_done {d : Int} (mm : Member) {r : Round} (hd : d < r.s.lastInstalledView)
    (hset : Settled cfg r.s.lastInstalledView r.s) :
    Keeps cfg d r
      ((Elections.publish (.election (.electionsDone r.s.lastInstalledView mm))).run r).2 := by
  rw [publish_run]
  refine ⟨[Message.election (.electionsDone r.s.lastInstalledView mm)], r.s.lastInstalledView,
    by simp, by simp, ?_, Int.le_of_lt hd, hset⟩
  intro v hv
  rw [doneViews_electionsDone, List.mem_singleton] at hv
  rw [hv]
  exact ⟨hd, Int.le_refl _⟩

/-- Sending a peer message to the others. -/
theorem Keeps.sendToOthers {d : Int} (pm : PeerMessage) {r : Round} (hset : Settled cfg d r.s) :
    Keeps cfg d r ((Elections.sendToOthers cfg pm).run r).2 := by
  rw [sendToOthers_run]
  refine .of_silent (others cfg r.s.servers pm) (by simp) (fun m hm => ?_) hset
  obtain ⟨srv, -, rfl⟩ := List.mem_map.1 hm
  rfl

end Keeps

/-! ## The handlers -/

section Handlers

variable (cfg : ElectionConfig)

/-- Taking an accept publishes a result only when the count reaches a majority, which a spent
service is past; the result leaves it spent for the installed view. -/
theorem handleAccept_keeps (a : Accept) (r : Round) (d : Int) (hset : Settled cfg d r.s) :
    Keeps cfg d r ((handleAccept cfg a).run r).2 := by
  unfold handleAccept
  dsimp only
  rw [get'_bind_run]
  split
  · exact .refl hset
  · rename_i hguard
    rw [not_or, not_not] at hguard
    obtain ⟨hshut, hview⟩ := hguard
    split
    · rename_i prop hprop
      split
      · exact .refl hset
      · split
        · exact .refl hset
        · -- the count grows by one, so a spent state stays spent
          have hgrow : Settled cfg d { r.s with accepts := r.s.accepts ++ [a.serverId] } := by
            refine ⟨⟨hset.coherent.ordered, hset.coherent.proposal⟩, ?_⟩
            rcases hset.fresh with h | ⟨h, hs⟩
            · exact .inl h
            · refine .inr ⟨h, ?_⟩
              rcases hs with hs | ⟨hp, hs⟩ | hs
              · exact .inl hs
              · refine .inr (.inl ⟨hp, ?_⟩)
                simp only [List.length_append, List.length_singleton]
                omega
              · exact .inr (.inr hs)
          refine Keeps.update_bind ?_
          split
          · rename_i hmaj
            split
            · exact .refl hgrow
            · rename_i mm _
              -- before this accept the proposal had no majority, so no result names the
              -- installed view yet
              have hd : d < r.s.lastInstalledView := by
                refine hset.lt_of_not_spent
                  (not_spent_of_counting hset.coherent hshut (by rw [hprop]; rfl) ?_)
                simp only [List.length_append, List.length_singleton] at hmaj
                omega
              refine Keeps.update_bind ?_
              rw [hview]
              refine Keeps.publish_done mm hd
                ⟨⟨hset.coherent.ordered, hset.coherent.proposal⟩,
                  .inr ⟨rfl, .inr (.inl ⟨by simp [hprop], ?_⟩)⟩⟩
              simp only [hmaj, Nat.le_refl]
          · exact .refl hgrow
    · exact .refl hset

/-- A leader that holds results for views below its installed one only proposes afresh. -/
theorem sendProposal_keeps (r : Round) (d : Int) (hset : Settled cfg d r.s)
    (hlead : r.s.phase = .leader) (hd : d < r.s.lastInstalledView) :
    Keeps cfg d r ((sendProposal cfg).run r).2 := by
  unfold sendProposal
  have hfresh : ∀ c : Option Candidate, Settled cfg d
      { r.s with accepts := [], proposal := c } :=
    fun c =>
      ⟨⟨hset.coherent.ordered, fun h => absurd (hlead.symm.trans h) (by decide)⟩, .inl hd⟩
  refine Keeps.update_bind ?_
  rw [get'_bind_run]
  split
  · rename_i c _
    refine Keeps.update_bind ?_
    exact Keeps.seq (handleAccept_keeps cfg _ _ d (hfresh (some c))) fun _ h₁ =>
      .sendToOthers _ h₁
  · exact .refl (hfresh none)

/-- Taking a prepare answer keeps a service settled, when an answer for the attempted view reaches
an electing service only for a view it installed. -/
theorem handlePrepareOk_keeps (m : PrepareOk) (r : Round) (d : Int) (hset : Settled cfg d r.s)
    (hok : r.s.phase = .electingLeader → m.view = r.s.lastAttemptedView →
      m.view ≤ r.s.lastInstalledView) :
    Keeps cfg d r ((handlePrepareOk cfg m).run r).2 := by
  unfold handlePrepareOk
  dsimp only
  rw [get'_bind_run]
  split
  · exact .refl hset
  · rename_i hguard
    rw [not_or, not_not, not_not] at hguard
    obtain ⟨hphase, hview⟩ := hguard
    -- the service installed the view it attempts, so it is not spent and holds no result for it
    have hIA : r.s.lastInstalledView = r.s.lastAttemptedView := by
      have := hok hphase hview
      have := hset.coherent.ordered
      unfold ViewsOrdered at this
      omega
    have hd : d < r.s.lastInstalledView :=
      hset.lt_of_not_spent (not_spent_of_electing hset.coherent hphase hIA)
    split
    · exact .refl hset
    · refine Keeps.update_bind ?_
      split
      · refine Keeps.update_bind ?_
        exact sendProposal_keeps cfg _ d
          ⟨⟨hset.coherent.ordered, fun h => by cases h⟩, .inl hd⟩ rfl hd
      · exact .refl (hset.congr rfl rfl rfl rfl rfl)

/-- Installing the attempted view as its leader keeps a service settled: a view it installs anew
is past every result it holds. -/
theorem shiftToPreparePhase_keeps (p : Progress) (r : Round) (d : Int)
    (hset : Settled cfg d r.s) : Keeps cfg d r ((shiftToPreparePhase cfg p).run r).2 := by
  unfold shiftToPreparePhase
  have hset₁ : Settled cfg d
      { r.s with lastInstalledView := r.s.lastAttemptedView, prepareOks := [] } :=
    hset.install rfl rfl rfl rfl id hset.coherent.proposal
  refine Keeps.update_bind ?_
  rw [get'_bind_run]
  refine Keeps.seq (handlePrepareOk_keeps cfg _ _ d hset₁ fun _ _ => Int.le_refl _)
    fun _ h₁ => ?_
  exact .sendToOthers _ h₁

/-- Installing the attempted view as a non-leader keeps a service settled, unless it shut
down. -/
theorem shiftToNonLeader_keeps (r : Round) (d : Int) (hset : Settled cfg d r.s)
    (hshut : r.s.phase ≠ .shutdown) : Keeps cfg d r (shiftToNonLeader.run r).2 := by
  unfold shiftToNonLeader
  exact Keeps.update (hset.install rfl rfl rfl rfl (fun h => absurd h hshut) fun h => by cases h)

/-- Taking a vote keeps a service settled, when starting a new attempt does. -/
theorem viewChangeWith_keeps (p : Progress) (shift : Int → Handler Unit) (m : ViewChange)
    (r : Round) (d : Int) (hset : Settled cfg d r.s)
    (hshift : ∀ (r' : Round) (d' : Int), Settled cfg d' r'.s →
      r'.s.lastAttemptedView < m.attemptedView →
        Keeps cfg d' r' ((shift m.attemptedView).run r').2) :
    Keeps cfg d r ((viewChangeWith cfg p shift m).run r).2 := by
  unfold viewChangeWith
  dsimp only
  rw [get'_bind_run]
  split
  · exact .refl hset
  · split
    · exact .refl hset
    · split
      case' isTrue hA =>
        refine Keeps.seq (hshift r d hset hA) fun d₁ hset₁ => ?_
        revert d₁
      case' isFalse =>
        revert d
      -- after an optional new attempt, the vote is counted and a majority installs the view
      all_goals
        intro d₁ hset₁
        rw [get'_bind_run]
        split
        · exact .refl hset₁
        · refine Keeps.update_bind ?_
          split
          · rw [get'_bind_run]
            split
            · exact shiftToPreparePhase_keeps cfg p _ d₁ (hset₁.congr rfl rfl rfl rfl rfl)
            · exact .refl (hset₁.congr rfl rfl rfl rfl rfl)
          · exact .refl (hset₁.congr rfl rfl rfl rfl rfl)

/-- Starting an attempt at a later view keeps a service settled: electing itself for a view past
the installed one, it is spent for the installed view. -/
theorem shiftToLeaderElection_keeps (p : Progress) (view : Int) (r : Round) (d : Int)
    (hset : Settled cfg d r.s) (hv : r.s.lastAttemptedView < view) :
    Keeps cfg d r ((shiftToLeaderElection cfg p view).run r).2 := by
  unfold shiftToLeaderElection
  dsimp only
  have hord := hset.coherent.ordered
  unfold ViewsOrdered at hord
  have hlt : r.s.lastInstalledView < view := Int.lt_of_le_of_lt hord hv
  refine Keeps.update_bind ?_
  have hset₁ : Settled cfg d
      { r.s with phase := .electingLeader, viewChanges := [], prepareOks := [],
                 lastAttemptedView := view, proposal := none, master := none, accepts := [] } :=
    ⟨⟨Int.le_of_lt hlt, fun _ => rfl⟩,
      hset.fresh.imp_right fun h => ⟨h.1, .inr (.inr ⟨rfl, hlt⟩)⟩⟩
  -- the own vote meets an attempt already at `view`, so it starts none
  refine Keeps.seq (viewChangeWith_keeps cfg p _ _ _ d hset₁ fun r' d' h' _ => .refl h')
    fun _ h₁ => ?_
  exact Keeps.seq (.sendToOthers _ h₁) fun _ h₂ => .publish h₂ rfl

theorem handleViewChange_keeps (p : Progress) (m : ViewChange) (r : Round) (d : Int)
    (hset : Settled cfg d r.s) : Keeps cfg d r ((handleViewChange cfg p m).run r).2 :=
  viewChangeWith_keeps cfg p _ m r d hset fun r' d' h' hlt =>
    shiftToLeaderElection_keeps cfg p _ r' d' h' hlt

theorem handleSendProof_keeps (r : Round) (d : Int) (hset : Settled cfg d r.s) :
    Keeps cfg d r ((handleSendProof cfg).run r).2 := by
  unfold handleSendProof
  dsimp only
  rw [get'_bind_run]
  split
  · exact .refl hset
  · split
    · exact Keeps.seq (.sendToOthers _ hset) fun _ h₁ => .publish h₁ rfl
    · exact .publish hset rfl

/-- Joining a later installed view announced by another node keeps a service settled. -/
theorem handleProof_keeps (p : Progress) (m : ViewChangeProof) (r : Round) (d : Int)
    (hset : Settled cfg d r.s) : Keeps cfg d r ((handleProof cfg p m).run r).2 := by
  unfold handleProof
  rw [get'_bind_run]
  split
  · exact .refl hset
  · rename_i hguard
    have hshut : r.s.phase ≠ .shutdown := fun h => hguard (.inl h)
    split
    · exact .refl hset
    · rename_i hnew
      have hlt : r.s.lastInstalledView < m.installedView := Int.lt_of_not_ge hnew
      -- a spent service stays spent: its proposal is kept, and electing it attempts a later view
      have hset₁ : Settled cfg d { r.s with lastAttemptedView := m.installedView } := by
        refine ⟨⟨Int.le_of_lt hlt, hset.coherent.proposal⟩, ?_⟩
        rcases hset.fresh with h | ⟨h, hs⟩
        · exact .inl h
        · refine .inr ⟨h, ?_⟩
          rcases hs with hs | hs | ⟨hp, -⟩
          · exact absurd hs hshut
          · exact .inr (.inl hs)
          · exact .inr (.inr ⟨hp, hlt⟩)
      refine Keeps.update_bind ?_
      refine Keeps.seq (.publish hset₁ rfl) fun d₁ h₁ => ?_
      rw [get'_bind_run]
      split
      · exact shiftToPreparePhase_keeps cfg p _ d₁ h₁
      · exact shiftToNonLeader_keeps cfg _ d₁ h₁ hshut

theorem handlePrepare_keeps (p : Progress) (m : Prepare) (r : Round) (d : Int)
    (hset : Settled cfg d r.s) : Keeps cfg d r ((handlePrepare cfg p m).run r).2 := by
  unfold handlePrepare
  dsimp only
  rw [get'_bind_run]
  split
  · exact .refl hset
  · split
    · exact .refl hset
    · split
      · rename_i helect
        refine Keeps.seq (shiftToNonLeader_keeps cfg r d hset (by rw [helect]; decide))
          fun _ h₁ => .publish h₁ rfl
      · exact .publish hset rfl

/-- Taking a proposal keeps a service settled: a non-leader holding no proposal is not spent, so
the fresh count it starts is past every result it holds. -/
theorem handleProposal_keeps (p : Progress) (m : Proposal) (r : Round) (d : Int)
    (hset : Settled cfg d r.s) : Keeps cfg d r ((handleProposal cfg p m).run r).2 := by
  unfold handleProposal
  dsimp only
  rw [get'_bind_run]
  -- the proposal counts as the proposer's accept and this node's own, then the own goes out
  have haccept : ∀ (r' : Round) (d' : Int), Settled cfg d' r'.s → Keeps cfg d' r'
      ((handleAccept cfg
          ⟨m.serverId, m.serverInternal, m.masterId, m.masterInternal, m.view⟩ >>=
        fun _ => handleAccept cfg ⟨cfg.node.instanceId, cfg.node.internalTcp, m.masterId,
          m.masterInternal, m.view⟩ >>= fun _ => sendToOthers cfg (.accept ⟨cfg.node.instanceId,
            cfg.node.internalTcp, m.masterId, m.masterInternal, m.view⟩)).run r').2 :=
    fun r' d' h' => Keeps.seq (handleAccept_keeps cfg _ _ d' h') fun _ h₁ =>
      Keeps.seq (handleAccept_keeps cfg _ _ _ h₁) fun _ h₂ => .sendToOthers _ h₂
  split
  · exact .refl hset
  · rename_i hguard
    have hnon : r.s.phase = .nonLeader := by
      rw [not_or, not_or, not_not] at hguard
      exact hguard.2.2
    split
    · exact .refl hset
    · split
      · exact .refl hset
      · split
        · exact .refl hset
        · split
          · rename_i hnone
            -- a non-leader without a proposal is not spent
            have hd : d < r.s.lastInstalledView := by
              refine hset.lt_of_not_spent ?_
              rintro (h | ⟨h, -⟩ | ⟨h, -⟩)
              · rw [hnon] at h
                cases h
              · rw [Option.isNone_iff_eq_none.1 hnone] at h
                cases h
              · rw [hnon] at h
                cases h
            have hfresh : ∀ c : Candidate,
                Settled cfg d { r.s with proposal := some c, accepts := [] } := fun _ =>
              ⟨⟨hset.coherent.ordered, fun h => absurd (hnon.symm.trans h) (by decide)⟩, .inl hd⟩
            refine Keeps.update_bind ?_
            rw [get'_bind_run]
            split
            · exact haccept _ d (hfresh _)
            · exact .refl (hfresh _)
          · rw [get'_bind_run]
            split
            · exact haccept _ d hset
            · exact .refl hset

/-- Handling a message below the largest view keeps a service settled, when the message is a
prepare answer it asked for if it is one it counts. -/
theorem handler_keeps (p : Progress) (m : Message) (r : Round) (d : Int) (hset : Settled cfg d r.s)
    (hwrap : r.s.lastAttemptedView < maxView) (hok : Solicited r.s m) :
    Keeps cfg d r ((handler cfg p m).run r).2 := by
  have hlt : r.s.lastAttemptedView < nextView r.s.lastAttemptedView := by
    rw [nextView_of_lt hwrap]
    exact Int.lt_succ _
  cases m with
  | election em =>
    cases em with
    | startElections =>
      simp only [handler]
      rw [get'_bind_run]
      split
      · exact .refl hset
      · exact shiftToLeaderElection_keeps cfg p _ r d hset hlt
    | electionsTimedOut view =>
      simp only [handler]
      rw [get'_bind_run]
      split
      · exact .refl hset
      · split
        · exact .refl hset
        · exact shiftToLeaderElection_keeps cfg p _ r d hset hlt
    | sendViewChangeProof => exact handleSendProof_keeps cfg r d hset
    | viewChange vc => exact handleViewChange_keeps cfg p vc r d hset
    | viewChangeProof vp => exact handleProof_keeps cfg p vp r d hset
    | prepare pr => exact handlePrepare_keeps cfg p pr r d hset
    | prepareOk ok => exact handlePrepareOk_keeps cfg ok r d hset (hok ok rfl)
    | proposal pr => exact handleProposal_keeps cfg p pr r d hset
    | accept a => exact handleAccept_keeps cfg a r d hset
    | electionsDone v mm => exact .refl hset
  | system sm =>
    cases sm with
    | systemInit => exact .publish hset rfl
    | becomeShuttingDown _ _ =>
      -- a service that shuts down is spent for good
      exact Keeps.update ⟨⟨hset.coherent.ordered, fun h => by cases h⟩,
        hset.fresh.imp_right fun h => ⟨h.1, .inl rfl⟩⟩
    | _ => exact .refl hset
  | gossip gm =>
    cases gm with
    | gossipUpdated members => exact Keeps.update (hset.congr rfl rfl rfl rfl rfl)
    | _ => exact .refl hset
  | _ => exact .refl hset

end Handlers

/-! ## Whole runs -/

/-- One step of a settled service below the largest view, taking a prepare answer only if it
asked for it, publishes results in strictly increasing order of view, all after the last one it
published, and leaves it settled after the last of them. -/
theorem handle_keeps (cfg : ElectionConfig) (p : Progress) (s : Elections) (m : Message) (d : Int)
    (hset : Settled cfg d s) (hwrap : s.lastAttemptedView < maxView) (hok : Solicited s m) :
    ∃ d', (doneViews (handle cfg p s m).2).Pairwise (· < ·) ∧
      (∀ v ∈ doneViews (handle cfg p s m).2, d < v ∧ v ≤ d') ∧ d ≤ d' ∧
      Settled cfg d' (handle cfg p s m).1 := by
  obtain ⟨o, d', ho, hs, hb, hd, hset'⟩ := handler_keeps cfg p m ⟨s, #[]⟩ d hset hwrap hok
  rw [handle_snd_eq ho]
  exact ⟨d', hs, hb, hd, hset'⟩

/-- Along a run from a settled service, below the largest view and taking only prepare answers it
asked for, the results come in strictly increasing order of view, all after `d`. -/
theorem handleAll_results_increase (cfg : ElectionConfig) : ∀ (s : Elections)
    (xs : List (Progress × Message)) (d : Int), Settled cfg d s →
    EachStep cfg (fun s x => s.lastAttemptedView < maxView ∧ Solicited s x.2) s xs →
    (doneViews (handleAll cfg s xs).2).Pairwise (· < ·) ∧
      ∀ v ∈ doneViews (handleAll cfg s xs).2, d < v
  | _, [], _, _, _ => ⟨List.Pairwise.nil, fun _ h => by cases h⟩
  | s, x :: xs, d, hset, hstep => by
    obtain ⟨d', hs, hb, hd, hset'⟩ := handle_keeps cfg x.1 s x.2 d hset hstep.1.1 hstep.1.2
    obtain ⟨hs', hb'⟩ := handleAll_results_increase cfg _ xs d' hset' hstep.2
    rw [handleAll_cons, doneViews_append]
    refine ⟨List.pairwise_append.2 ⟨hs, hs', fun a ha b hb₂ =>
      Int.lt_of_le_of_lt (hb a ha).2 (hb' b hb₂)⟩, fun v hv => ?_⟩
    rcases List.mem_append.1 hv with hv | hv
    · exact (hb v hv).1
    · exact Int.lt_of_le_of_lt hd (hb' v hv)

/-- A fresh service is settled after no result at all. -/
theorem settled_init (cfg : ElectionConfig) (p : Progress) (now : Int) :
    Settled cfg (-2) (init cfg p now) :=
  ⟨⟨Int.le_refl _, fun h => by cases h⟩, .inl (show (-2 : Int) < -1 by decide)⟩

/-- Along every run of a fresh service taken below the largest view, each step starts from an
installed view at most the attempted one and never lowers the installed view, and the election
results come in order of view; they come in strictly increasing order, one per view, when every
prepare answer the service counts while electing itself answers a prepare it sent. -/
theorem result_views_ordered (cfg : ElectionConfig) (p : Progress) (now : Int)
    (xs : List (Progress × Message))
    (hwrap : EachStep cfg (fun s _ => s.lastAttemptedView < maxView) (init cfg p now) xs) :
    EachStep cfg (fun s x => ViewsOrdered s ∧
      s.lastInstalledView ≤ (handle cfg x.1 s x.2).1.lastInstalledView) (init cfg p now) xs ∧
    (doneViews (handleAll cfg (init cfg p now) xs).2).Pairwise (· ≤ ·) ∧
    (EachStep cfg (fun s x => Solicited s x.2) (init cfg p now) xs →
      (doneViews (handleAll cfg (init cfg p now) xs).2).Pairwise (· < ·)) := by
  have hord : ViewsOrdered (init cfg p now) := Int.le_refl _
  refine ⟨eachStep_installed_mono cfg _ xs hord hwrap,
    (handleAll_moves cfg _ xs hord hwrap).sorted, fun hok => ?_⟩
  exact (handleAll_results_increase cfg _ xs (-2) (settled_init cfg p now)
    (hwrap.and hok)).1

/-- Node `i` as gossip describes it: alive, in an unknown state, listening on port `1000 + i`. -/
def peerMember (i : Nat) : Member :=
  ⟨⟨i⟩, 0, .unknown, true, SocketAddr.loopback (1000 + i), none, SocketAddr.loopback 0, none,
    SocketAddr.loopback 0, -1, 0, 0, -1, -1, ⟨0⟩, 0⟩

/-- Node 1 learns of nodes 3, 2 and 1, starts elections, installs view 0 on node 3's prepare and
accepts node 3's proposal, which makes a majority with node 3's own accept. It starts elections
again, and answers to a prepare for view 1 that it never sent make it leader: it proposes in its
installed view 0, and node 2 accepts. -/
def unsolicitedRun : List (Progress × Message) :=
  [({}, .gossip (.gossipUpdated [peerMember 3, peerMember 2, peerMember 1])),
   ({}, .election .startElections),
   ({}, .election (.prepare ⟨⟨3⟩, SocketAddr.loopback 1003, 0⟩)),
   ({}, .election (.proposal
      ⟨⟨3⟩, SocketAddr.loopback 1003, ⟨3⟩, SocketAddr.loopback 1003, 0,
        ⟨5, -1, ⟨0⟩, 0, 0, 0, 0⟩⟩)),
   ({}, .election .startElections),
   ({}, .election (.prepareOk
      ⟨1, ⟨2⟩, SocketAddr.loopback 1002, ⟨-1, -1, ⟨0⟩, -1, 0, 0, 0⟩⟩)),
   ({}, .election (.prepareOk
      ⟨1, ⟨3⟩, SocketAddr.loopback 1003, ⟨-1, -1, ⟨0⟩, -1, 0, 0, 0⟩⟩)),
   ({}, .election (.accept
      ⟨⟨2⟩, SocketAddr.loopback 1002, ⟨3⟩, SocketAddr.loopback 1003, 0⟩))]

/-- The run with unsolicited answers carries no view and starts two attempts, so every step of it
starts below the largest view. -/
theorem unsolicitedRun_below_max :
    EachStep nodeOne (fun s _ => s.lastAttemptedView < maxView) (init nodeOne {} 0)
      unsolicitedRun := by
  have hroom : (0 : Int) + attempts unsolicitedRun < maxView := by decide
  have hrun := attempted_le_of_bound nodeOne (-1) 0 (init nodeOne {} 0) unsolicitedRun
    (Int.le_refl _) (Int.le_refl _) (by decide) (by decide) hroom
  exact EachStep.of_always (hrun.imp fun s h => Int.lt_of_le_of_lt h.2.2 hroom)

/-- Without the condition on prepare answers, results may share a view: along the run with
unsolicited answers, which stays below the largest view, node 1 publishes two results for
view 0. -/
theorem unsolicited_answers_repeat_a_view :
    EachStep nodeOne (fun s _ => s.lastAttemptedView < maxView) (init nodeOne {} 0)
        unsolicitedRun ∧
      ¬(doneViews (handleAll nodeOne (init nodeOne {} 0) unsolicitedRun).2).Pairwise
        (· < ·) := by
  refine ⟨unsolicitedRun_below_max, ?_⟩
  -- gossip lists the servers by address already, so sorting them keeps the list
  have hgossip : handle nodeOne {} (init nodeOne {} 0)
      (.gossip (.gossipUpdated [peerMember 3, peerMember 2, peerMember 1])) =
        ({ init nodeOne {} 0 with servers := [peerMember 3, peerMember 2, peerMember 1] }, []) := by
    have hsorted : serversOf [peerMember 3, peerMember 2, peerMember 1] =
        [peerMember 3, peerMember 2, peerMember 1] :=
      List.mergeSort_of_pairwise (by decide)
    rw [handle_eq]
    simp only [handler, update_run, hsorted]
  have hdone : doneViews (handleAll nodeOne (init nodeOne {} 0) unsolicitedRun).2 = [0, 0] := by
    unfold unsolicitedRun
    rw [handleAll_cons, hgossip]
    decide +kernel
  rw [hdone]
  decide

/-- Along the run with unsolicited answers, below the largest view, the results still come in
order of view. -/
theorem unsolicited_answers_results_in_order :
    EachStep nodeOne (fun s _ => s.lastAttemptedView < maxView) (init nodeOne {} 0)
        unsolicitedRun ∧
      EachStep nodeOne (fun s x => ViewsOrdered s ∧
        s.lastInstalledView ≤ (handle nodeOne x.1 s x.2).1.lastInstalledView) (init nodeOne {} 0)
        unsolicitedRun ∧
      (doneViews (handleAll nodeOne (init nodeOne {} 0) unsolicitedRun).2).Pairwise (· ≤ ·) ∧
      (EachStep nodeOne (fun s x => Solicited s x.2) (init nodeOne {} 0) unsolicitedRun →
        (doneViews (handleAll nodeOne (init nodeOne {} 0) unsolicitedRun).2).Pairwise (· < ·)) :=
  ⟨unsolicitedRun_below_max,
    result_views_ordered nodeOne {} 0 unsolicitedRun unsolicitedRun_below_max⟩

end Elections

end EventStore
