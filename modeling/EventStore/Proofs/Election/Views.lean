import EventStore.Proofs.Election.Agreement

/-!
# How the views of one service move

One elections service handles a sequence of bus messages, each with the replication progress it
reads at that moment (`Elections.handleAll`). This module says what the handlers do to its two
views. The installed view never goes back and never passes the attempted view. The attempted view
moves in three ways only: it stays, it takes a view that a peer's `ViewChange` or `ViewChangeProof`
carries (`Message.adoptedView?`), or it goes one up when elections start or time out
(`Message.startsAttempt`). Every election result names the installed view of its moment, so the
results of a run come in order of view.

`Moves` states this of one step, and `Elections.handle_moves` proves it for every message handled
below the largest view. Going one up is the only arithmetic on views; at the largest view it wraps
to the smallest. `Elections.attempted_le_of_bound` bounds the attempted view along a whole run by
the largest view a peer message carried plus the number of attempts started. A run whose bound
stays below the largest view therefore never wraps (`Elections.views_stay_below_max`).
-/

namespace EventStore

/-- The view a bus message makes a service attempt when the service is behind it: the view a
`ViewChange` votes for, or the view a `ViewChangeProof` announces as installed. -/
def Message.adoptedView? : Message → Option Int
  | .election (.viewChange vc) => some vc.attemptedView
  | .election (.viewChangeProof vp) => some vp.installedView
  | _ => none

/-- Whether a bus message may make a service attempt the view after its attempted one: the start
of elections, or an election timeout. -/
def Message.startsAttempt : Message → Bool
  | .election .startElections | .election (.electionsTimedOut _) => true
  | _ => false

/-- The views of the election results among some messages, in order. -/
def doneViews (o : List Message) : List Int := (o.filterMap Message.electionsDone?).map (·.1)

@[simp] theorem doneViews_nil : doneViews [] = [] := rfl

@[simp] theorem doneViews_append (o o' : List Message) :
    doneViews (o ++ o') = doneViews o ++ doneViews o' := by
  simp [doneViews]

theorem doneViews_of_silent {o : List Message} (h : ∀ m ∈ o, m.electionsDone? = none) :
    doneViews o = [] := by
  simp only [doneViews, List.map_eq_nil_iff, List.filterMap_eq_nil_iff]
  exact h

@[simp] theorem doneViews_electionsDone (v : Int) (mm : Member) :
    doneViews [.election (.electionsDone v mm)] = [v] := rfl

namespace Elections

/-- A service handles messages one after the other, each with the progress it reads then: the
state it ends in and everything it published, in order. -/
def handleAll (cfg : ElectionConfig) :
    Elections → List (Progress × Message) → Elections × List Message
  | s, [] => (s, [])
  | s, x :: xs =>
    let r := handle cfg x.1 s x.2
    let rest := handleAll cfg r.1 xs
    (rest.1, r.2 ++ rest.2)

/-- `P` holds of every state a run from `s` passes through, the first and the last included. -/
def Always (cfg : ElectionConfig) (P : Elections → Prop) :
    Elections → List (Progress × Message) → Prop
  | s, [] => P s
  | s, x :: xs => P s ∧ Always cfg P (handle cfg x.1 s x.2).1 xs

/-- `P` holds of every step of a run from `s`: of the state the step starts from, and the progress
and message it handles. -/
def EachStep (cfg : ElectionConfig) (P : Elections → Progress × Message → Prop) :
    Elections → List (Progress × Message) → Prop
  | _, [] => True
  | s, x :: xs => P s x ∧ EachStep cfg P (handle cfg x.1 s x.2).1 xs

section Runs

variable {cfg : ElectionConfig}

@[simp] theorem handleAll_nil (s : Elections) : handleAll cfg s [] = (s, []) := rfl

@[simp] theorem handleAll_cons (s : Elections) (x : Progress × Message)
    (xs : List (Progress × Message)) :
    handleAll cfg s (x :: xs) =
      ((handleAll cfg (handle cfg x.1 s x.2).1 xs).1,
        (handle cfg x.1 s x.2).2 ++ (handleAll cfg (handle cfg x.1 s x.2).1 xs).2) := rfl

theorem Always.imp {P Q : Elections → Prop} (hPQ : ∀ s, P s → Q s) :
    ∀ {s : Elections} {xs : List (Progress × Message)}, Always cfg P s xs → Always cfg Q s xs
  | _, [], h => hPQ _ h
  | _, _ :: _, h => ⟨hPQ _ h.1, Always.imp hPQ h.2⟩

theorem EachStep.and {P Q : Elections → Progress × Message → Prop} :
    ∀ {s : Elections} {xs : List (Progress × Message)}, EachStep cfg P s xs →
      EachStep cfg Q s xs → EachStep cfg (fun s x => P s x ∧ Q s x) s xs
  | _, [], _, _ => trivial
  | _, _ :: _, hP, hQ => ⟨⟨hP.1, hQ.1⟩, EachStep.and hP.2 hQ.2⟩

/-- What holds of every state of a run holds of the state every step starts from. -/
theorem EachStep.of_always {P : Elections → Prop} :
    ∀ {s : Elections} {xs : List (Progress × Message)}, Always cfg P s xs →
      EachStep cfg (fun s _ => P s) s xs
  | _, [], _ => trivial
  | _, _ :: _, h => ⟨h.1, EachStep.of_always h.2⟩

end Runs

/-- The number of messages of a run that may start an attempt. -/
def attempts (xs : List (Progress × Message)) : Nat := xs.countP (·.2.startsAttempt)

@[simp] theorem attempts_nil : attempts [] = 0 := rfl

theorem attempts_cons (x : Progress × Message) (xs : List (Progress × Message)) :
    attempts (x :: xs) = attempts xs + if x.2.startsAttempt then 1 else 0 := by
  unfold attempts
  rw [List.countP_cons]

/-! ## What one step does to the views -/

/-- From `s` to `s'`, publishing `o`, the views move as a handler may move them, `A` giving the
attempted views it may take: the installed view never goes back and stays at most the attempted
one, the attempted view stays or satisfies `A`, and the election results come in order of view,
between the installed views before and after. -/
structure Moves (A : Int → Prop) (s s' : Elections) (o : List Message) : Prop where
  installed : s.lastInstalledView ≤ s'.lastInstalledView
  ordered : ViewsOrdered s'
  attempted : s'.lastAttemptedView = s.lastAttemptedView ∨ A s'.lastAttemptedView
  sorted : (doneViews o).Pairwise (· ≤ ·)
  between : ∀ v ∈ doneViews o, s.lastInstalledView ≤ v ∧ v ≤ s'.lastInstalledView

/-- A handler run from `r` to `r'` moves the views as `Moves` allows. -/
def Advance (A : Int → Prop) (r r' : Round) : Prop :=
  ∃ o, r'.out.toList = r.out.toList ++ o ∧ Moves A r.s r'.s o

section Moves

variable {A B : Int → Prop}

theorem Moves.refl (s : Elections) (h : ViewsOrdered s) : Moves A s s [] :=
  ⟨Int.le_refl _, h, .inl rfl, by simp, by simp⟩

theorem Moves.trans {s₁ s₂ s₃ : Elections} {o₁ o₂ : List Message}
    (h₁ : Moves A s₁ s₂ o₁) (h₂ : Moves A s₂ s₃ o₂) : Moves A s₁ s₃ (o₁ ++ o₂) := by
  refine ⟨Int.le_trans h₁.installed h₂.installed, h₂.ordered, ?_, ?_, ?_⟩
  · rcases h₂.attempted with h | h
    · rw [h]
      exact h₁.attempted
    · exact .inr h
  · -- the results of the first part name views up to the installed view in between, those of
    -- the second part views from it
    rw [doneViews_append, List.pairwise_append]
    exact ⟨h₁.sorted, h₂.sorted, fun a ha b hb =>
      Int.le_trans (h₁.between a ha).2 (h₂.between b hb).1⟩
  · intro v hv
    rw [doneViews_append, List.mem_append] at hv
    rcases hv with hv | hv
    · exact ⟨(h₁.between v hv).1, Int.le_trans (h₁.between v hv).2 h₂.installed⟩
    · exact ⟨Int.le_trans h₁.installed (h₂.between v hv).1, (h₂.between v hv).2⟩

theorem Moves.mono {s s' : Elections} {o : List Message} (h : Moves A s s' o)
    (hAB : ∀ v, A v → B v) : Moves B s s' o :=
  ⟨h.installed, h.ordered, h.attempted.imp_right (hAB _), h.sorted, h.between⟩

/-- Keeping the views and publishing no election result. -/
theorem Moves.of_silent {s s' : Elections} {o : List Message}
    (hI : s'.lastInstalledView = s.lastInstalledView)
    (hA : s'.lastAttemptedView = s.lastAttemptedView)
    (hord : ViewsOrdered s) (ho : ∀ m ∈ o, m.electionsDone? = none) : Moves A s s' o := by
  have hord' : ViewsOrdered s' := by
    unfold ViewsOrdered
    rw [hI, hA]
    exact hord
  refine ⟨Int.le_of_eq hI.symm, hord', .inl hA, ?_, ?_⟩
  · rw [doneViews_of_silent ho]
    exact List.Pairwise.nil
  · intro v hv
    rw [doneViews_of_silent ho] at hv
    cases hv

theorem Advance.refl (r : Round) (h : ViewsOrdered r.s) : Advance A r r :=
  ⟨[], by simp, .refl _ h⟩

theorem Advance.trans {r₁ r₂ r₃ : Round} (h₁ : Advance A r₁ r₂)
    (h₂ : Advance A r₂ r₃) : Advance A r₁ r₃ := by
  obtain ⟨o₁, ho₁, hm₁⟩ := h₁
  obtain ⟨o₂, ho₂, hm₂⟩ := h₂
  exact ⟨o₁ ++ o₂, by rw [ho₂, ho₁, List.append_assoc], hm₁.trans hm₂⟩

theorem Advance.mono {r r' : Round} (h : Advance A r r') (hAB : ∀ v, A v → B v) :
    Advance B r r' :=
  let ⟨o, ho, hm⟩ := h
  ⟨o, ho, hm.mono hAB⟩

theorem Advance.ordered {r r' : Round} (h : Advance A r r') : ViewsOrdered r'.s :=
  let ⟨_, _, hm⟩ := h
  hm.ordered

/-- Two runs in sequence. -/
theorem Advance.seq {x : Handler Unit} {g : Unit → Handler Unit} {r : Round}
    (h₁ : Advance A r (x.run r).2) (h₂ : Advance A (x.run r).2 ((g ()).run (x.run r).2).2) :
    Advance A r ((x >>= g).run r).2 :=
  h₁.trans h₂

/-- Two runs in sequence, the second knowing that the first leaves the views ordered. -/
theorem Advance.seq_ordered {x : Handler Unit} {g : Unit → Handler Unit} {r : Round}
    (h₁ : Advance A r (x.run r).2)
    (h₂ : ViewsOrdered (x.run r).2.s → Advance A (x.run r).2 ((g ()).run (x.run r).2).2) :
    Advance A r ((x >>= g).run r).2 :=
  h₁.trans (h₂ h₁.ordered)

/-- An update that keeps the views. -/
theorem Advance.update_same {f : Elections → Elections} (r : Round)
    (hI : (f r.s).lastInstalledView = r.s.lastInstalledView)
    (hA : (f r.s).lastAttemptedView = r.s.lastAttemptedView) (hord : ViewsOrdered r.s) :
    Advance A r ((Elections.update f).run r).2 := by
  rw [update_run]
  exact ⟨[], by simp, .of_silent hI hA hord (by simp)⟩

/-- An update that installs the attempted view. -/
theorem Advance.update_install {f : Elections → Elections} (r : Round)
    (hI : (f r.s).lastInstalledView = r.s.lastAttemptedView)
    (hA : (f r.s).lastAttemptedView = r.s.lastAttemptedView) (hord : ViewsOrdered r.s) :
    Advance A r ((Elections.update f).run r).2 := by
  rw [update_run]
  refine ⟨[], by simp, ⟨?_, ?_, .inl hA, by simp, by simp⟩⟩
  · rw [hI]
    exact hord
  · exact Int.le_of_eq (hI.trans hA.symm)

/-- An update that attempts a view `A` allows, no lower than the installed view, which it keeps. -/
theorem Advance.update_attempt {f : Elections → Elections} (r : Round)
    (hI : (f r.s).lastInstalledView = r.s.lastInstalledView) (hA : A (f r.s).lastAttemptedView)
    (hle : r.s.lastInstalledView ≤ (f r.s).lastAttemptedView) :
    Advance A r ((Elections.update f).run r).2 := by
  rw [update_run]
  refine ⟨[], by simp, ⟨Int.le_of_eq hI.symm, ?_, .inr hA, by simp, by simp⟩⟩
  unfold ViewsOrdered
  rw [hI]
  exact hle

/-- Publishing a message that is no election result. -/
theorem Advance.publish {m : Message} (r : Round) (hord : ViewsOrdered r.s)
    (hm : m.electionsDone? = none) : Advance A r ((publish m).run r).2 := by
  rw [publish_run]
  exact ⟨[m], by simp, .of_silent rfl rfl hord (by simpa using hm)⟩

/-- Publishing the election result of the installed view. -/
theorem Advance.publish_done (mm : Member) (r : Round) (hord : ViewsOrdered r.s) :
    Advance A r
      ((Elections.publish (.election (.electionsDone r.s.lastInstalledView mm))).run r).2 := by
  rw [publish_run]
  refine ⟨[Message.election (.electionsDone r.s.lastInstalledView mm)], by simp,
    ⟨Int.le_refl _, hord, .inl rfl, by simp, ?_⟩⟩
  intro v hv
  rw [doneViews_electionsDone, List.mem_singleton] at hv
  exact ⟨Int.le_of_eq hv.symm, Int.le_of_eq hv⟩

/-- Sending a peer message to the others. -/
theorem Advance.sendToOthers (cfg : ElectionConfig) (pm : PeerMessage) (r : Round)
    (hord : ViewsOrdered r.s) : Advance A r ((sendToOthers cfg pm).run r).2 := by
  rw [sendToOthers_run]
  refine ⟨others cfg r.s.servers pm, by simp, .of_silent rfl rfl hord ?_⟩
  intro m hm
  obtain ⟨srv, -, rfl⟩ := List.mem_map.1 hm
  rfl

end Moves

/-! ## The handlers -/

section Handlers

variable (cfg : ElectionConfig) (A : Int → Prop)

/-- Taking an accept keeps the views; a result it publishes names the installed view, which the
accept must name to count. -/
theorem handleAccept_advance (a : Accept) (r : Round) (hord : ViewsOrdered r.s) :
    Advance A r ((handleAccept cfg a).run r).2 := by
  unfold handleAccept
  dsimp only
  rw [get'_bind_run]
  split
  · exact .refl r hord
  · rename_i hguard
    have hview : a.view = r.s.lastInstalledView := by
      rw [not_or, not_not] at hguard
      exact hguard.2
    split
    · split
      · exact .refl r hord
      · split
        · exact .refl r hord
        · refine Advance.seq (.update_same r rfl rfl hord) ?_
          split
          · split
            · exact .refl _ hord
            · rename_i mm _
              refine Advance.seq (.update_same _ rfl rfl hord) ?_
              rw [hview]
              exact .publish_done mm _ hord
          · exact .refl _ hord
    · exact .refl r hord

/-- Proposing keeps the views. -/
theorem sendProposal_advance (r : Round) (hord : ViewsOrdered r.s) :
    Advance A r ((sendProposal cfg).run r).2 := by
  unfold sendProposal
  refine Advance.seq (.update_same r rfl rfl hord) ?_
  rw [get'_bind_run]
  split
  · refine Advance.seq (.update_same _ rfl rfl hord) ?_
    exact Advance.seq_ordered (handleAccept_advance cfg A _ _ hord) fun hord₁ =>
      .sendToOthers cfg _ _ hord₁
  · exact .refl _ hord

/-- Taking a prepare answer keeps the views. -/
theorem handlePrepareOk_advance (m : PrepareOk) (r : Round) (hord : ViewsOrdered r.s) :
    Advance A r ((handlePrepareOk cfg m).run r).2 := by
  unfold handlePrepareOk
  dsimp only
  rw [get'_bind_run]
  split
  · exact .refl r hord
  · split
    · exact .refl r hord
    · refine Advance.seq (.update_same r rfl rfl hord) ?_
      split
      · refine Advance.seq (.update_same _ rfl rfl hord) ?_
        exact sendProposal_advance cfg A _ hord
      · exact .refl _ hord

/-- Installing the attempted view as its leader raises the installed view to it. -/
theorem shiftToPreparePhase_advance (p : Progress) (r : Round) (hord : ViewsOrdered r.s) :
    Advance A r ((shiftToPreparePhase cfg p).run r).2 := by
  unfold shiftToPreparePhase
  refine Advance.seq_ordered (.update_install r rfl rfl hord) fun hord₁ => ?_
  rw [get'_bind_run]
  refine Advance.seq_ordered (handlePrepareOk_advance cfg A _ _ hord₁) fun hord₂ => ?_
  exact .sendToOthers cfg _ _ hord₂

/-- Installing the attempted view as a non-leader raises the installed view to it. -/
theorem shiftToNonLeader_advance (r : Round) (hord : ViewsOrdered r.s) :
    Advance A r (shiftToNonLeader.run r).2 := by
  unfold shiftToNonLeader
  exact .update_install r rfl rfl hord

/-- Taking a vote moves the views as starting a new attempt does. -/
theorem viewChangeWith_advance (p : Progress) (shift : Int → Handler Unit) (m : ViewChange)
    (r : Round) (hord : ViewsOrdered r.s)
    (hshift : ∀ r' : Round, ViewsOrdered r'.s → r'.s.lastAttemptedView < m.attemptedView →
      Advance A r' ((shift m.attemptedView).run r').2) :
    Advance A r ((viewChangeWith cfg p shift m).run r).2 := by
  unfold viewChangeWith
  dsimp only
  rw [get'_bind_run]
  split
  · exact .refl r hord
  · split
    · exact .refl r hord
    · split
      case' isTrue hA =>
        refine Advance.seq_ordered (hshift r hord hA) fun hord₁ => ?_
        revert hord₁
      case' isFalse =>
        have hord₁ : ViewsOrdered r.s := hord
        revert hord₁
      -- after an optional new attempt, the vote is counted and a majority installs the view
      all_goals
        intro hord₁
        rw [get'_bind_run]
        split
        · exact .refl _ hord₁
        · refine Advance.seq (.update_same _ rfl rfl hord₁) ?_
          split
          · rw [get'_bind_run]
            split
            · exact shiftToPreparePhase_advance cfg A p _ hord₁
            · exact .refl _ hord₁
          · exact .refl _ hord₁

/-- Starting an attempt at a later view makes it the attempted view. -/
theorem shiftToLeaderElection_advance (p : Progress) (view : Int) (r : Round)
    (hord : ViewsOrdered r.s) (hv : r.s.lastAttemptedView < view) :
    Advance (· = view) r ((shiftToLeaderElection cfg p view).run r).2 := by
  unfold shiftToLeaderElection
  dsimp only
  have hle : r.s.lastInstalledView ≤ view := Int.le_of_lt (Int.lt_of_le_of_lt hord hv)
  refine Advance.seq_ordered (.update_attempt r rfl rfl hle) fun hord₂ => ?_
  -- the own vote meets an attempt already at `view`, so it starts none
  refine Advance.seq_ordered (viewChangeWith_advance cfg _ p _ _ _ hord₂
    fun r' hr' _ => .refl r' hr') fun hord₃ => ?_
  refine Advance.seq_ordered (.sendToOthers cfg _ _ hord₃) fun hord₄ => ?_
  exact .publish _ hord₄ rfl

theorem handleViewChange_advance (p : Progress) (m : ViewChange) (r : Round)
    (hord : ViewsOrdered r.s) :
    Advance (· = m.attemptedView) r ((handleViewChange cfg p m).run r).2 :=
  viewChangeWith_advance cfg _ p _ m r hord fun r' hr' hlt =>
    shiftToLeaderElection_advance cfg p _ r' hr' hlt

theorem handleSendProof_advance (r : Round) (hord : ViewsOrdered r.s) :
    Advance A r ((handleSendProof cfg).run r).2 := by
  unfold handleSendProof
  dsimp only
  rw [get'_bind_run]
  split
  · exact .refl r hord
  · split
    · exact Advance.seq_ordered (.sendToOthers cfg _ _ hord) fun hord₁ => .publish _ hord₁ rfl
    · exact .publish _ hord rfl

/-- Joining a later installed view announced by another node installs it. -/
theorem handleProof_advance (p : Progress) (m : ViewChangeProof) (r : Round)
    (hord : ViewsOrdered r.s) :
    Advance (· = m.installedView) r ((handleProof cfg p m).run r).2 := by
  unfold handleProof
  rw [get'_bind_run]
  split
  · exact .refl r hord
  · split
    · exact .refl r hord
    · rename_i hnew
      have hlt : r.s.lastInstalledView < m.installedView := Int.lt_of_not_ge hnew
      refine Advance.seq_ordered (.update_attempt r rfl rfl (Int.le_of_lt hlt)) fun hord₁ => ?_
      refine Advance.seq_ordered (.publish _ hord₁ rfl) fun hord₂ => ?_
      rw [get'_bind_run]
      split
      · exact shiftToPreparePhase_advance cfg _ p _ hord₂
      · exact shiftToNonLeader_advance _ _ hord₂

theorem handlePrepare_advance (p : Progress) (m : Prepare) (r : Round) (hord : ViewsOrdered r.s) :
    Advance A r ((handlePrepare cfg p m).run r).2 := by
  unfold handlePrepare
  dsimp only
  rw [get'_bind_run]
  split
  · exact .refl r hord
  · split
    · exact .refl r hord
    · split
      · exact Advance.seq_ordered (shiftToNonLeader_advance A r hord) fun hord₁ =>
          .publish _ hord₁ rfl
      · exact .publish _ hord rfl

theorem handleProposal_advance (p : Progress) (m : Proposal) (r : Round)
    (hord : ViewsOrdered r.s) : Advance A r ((handleProposal cfg p m).run r).2 := by
  unfold handleProposal
  dsimp only
  rw [get'_bind_run]
  -- the proposal counts as the proposer's accept and this node's own, then the own goes out
  have haccept : ∀ r' : Round, ViewsOrdered r'.s → Advance A r'
      ((handleAccept cfg
          ⟨m.serverId, m.serverInternal, m.masterId, m.masterInternal, m.view⟩ >>=
        fun _ => handleAccept cfg ⟨cfg.node.instanceId, cfg.node.internalTcp, m.masterId,
          m.masterInternal, m.view⟩ >>= fun _ => sendToOthers cfg (.accept ⟨cfg.node.instanceId,
            cfg.node.internalTcp, m.masterId, m.masterInternal, m.view⟩)).run r').2 :=
    fun r' hr' => Advance.seq_ordered (handleAccept_advance cfg A _ _ hr') fun h₁ =>
      Advance.seq_ordered (handleAccept_advance cfg A _ _ h₁) fun h₂ =>
        .sendToOthers cfg _ _ h₂
  split
  · exact .refl r hord
  · split
    · exact .refl r hord
    · split
      · exact .refl r hord
      · split
        · exact .refl r hord
        · split
          · refine Advance.seq (.update_same r rfl rfl hord) ?_
            rw [get'_bind_run]
            split
            · exact haccept _ hord
            · exact .refl _ hord
          · rw [get'_bind_run]
            split
            · exact haccept _ hord
            · exact .refl _ hord

end Handlers

/-- The attempted views a step handling `m` from `s` may take: one more than the attempted view,
when `m` may start an attempt, or the view `m` carries. -/
def Allowed (s : Elections) (m : Message) (v : Int) : Prop :=
  (m.startsAttempt = true ∧ v = s.lastAttemptedView + 1) ∨ m.adoptedView? = some v

/-- Handling any message below the largest view moves the views as `Moves` allows, with the
attempted views of `Allowed`. -/
theorem handler_advance (cfg : ElectionConfig) (p : Progress) (m : Message) (r : Round)
    (hord : ViewsOrdered r.s) (hwrap : r.s.lastAttemptedView < maxView) :
    Advance (Allowed r.s m) r ((handler cfg p m).run r).2 := by
  -- the next view is one more, and it is later than the attempted one
  have hnext : nextView r.s.lastAttemptedView = r.s.lastAttemptedView + 1 := nextView_of_lt hwrap
  have hlt : r.s.lastAttemptedView < nextView r.s.lastAttemptedView := by
    rw [hnext]
    exact Int.lt_succ _
  have hstart : ∀ v, v = nextView r.s.lastAttemptedView → m.startsAttempt = true →
      Allowed r.s m v := fun v hv hm => .inl ⟨hm, hv.trans hnext⟩
  cases m with
  | election em =>
    cases em with
    | startElections =>
      simp only [handler]
      rw [get'_bind_run]
      split
      · exact .refl r hord
      · exact (shiftToLeaderElection_advance cfg p _ r hord hlt).mono fun v hv => hstart v hv rfl
    | electionsTimedOut view =>
      simp only [handler]
      rw [get'_bind_run]
      split
      · exact .refl r hord
      · split
        · exact .refl r hord
        · exact (shiftToLeaderElection_advance cfg p _ r hord hlt).mono fun v hv =>
            hstart v hv rfl
    | sendViewChangeProof => exact handleSendProof_advance cfg _ r hord
    | viewChange vc =>
      exact (handleViewChange_advance cfg p vc r hord).mono fun v hv => .inr (by
        rw [hv]
        rfl)
    | viewChangeProof vp =>
      exact (handleProof_advance cfg p vp r hord).mono fun v hv => .inr (by
        rw [hv]
        rfl)
    | prepare pr => exact handlePrepare_advance cfg _ p pr r hord
    | prepareOk ok => exact handlePrepareOk_advance cfg _ ok r hord
    | proposal pr => exact handleProposal_advance cfg _ p pr r hord
    | accept a => exact handleAccept_advance cfg _ a r hord
    | electionsDone v mm => exact .refl r hord
  | system sm =>
    cases sm with
    | systemInit => exact .publish r hord rfl
    | becomeShuttingDown _ _ => exact .update_same r rfl rfl hord
    | _ => exact .refl r hord
  | gossip gm =>
    cases gm with
    | gossipUpdated members => exact .update_same r rfl rfl hord
    | _ => exact .refl r hord
  | _ => exact .refl r hord

/-- One step of a service below the largest view moves its views as `Moves` allows. -/
theorem handle_moves (cfg : ElectionConfig) (p : Progress) (s : Elections) (m : Message)
    (hord : ViewsOrdered s) (hwrap : s.lastAttemptedView < maxView) :
    Moves (Allowed s m) s (handle cfg p s m).1 (handle cfg p s m).2 := by
  obtain ⟨o, ho, hm⟩ := handler_advance cfg p m ⟨s, #[]⟩ hord hwrap
  rw [handle_snd_eq ho, handle_eq]
  exact hm

/-! ## Whole runs -/

section Runs

variable (cfg : ElectionConfig)

/-- Along a run whose every step starts below the largest view, the installed view never goes
back and never passes the attempted one, and the election results come in order of view. -/
theorem handleAll_moves : ∀ (s : Elections) (xs : List (Progress × Message)), ViewsOrdered s →
    EachStep cfg (fun s _ => s.lastAttemptedView < maxView) s xs →
    Moves (fun _ => True) s (handleAll cfg s xs).1 (handleAll cfg s xs).2
  | s, [], hord, _ => .refl s hord
  | s, x :: xs, hord, hwrap =>
    -- one step, then the rest of the run from where it ends
    have h₁ := (handle_moves cfg x.1 s x.2 hord hwrap.1).mono fun _ _ => trivial
    h₁.trans (handleAll_moves _ xs h₁.ordered hwrap.2)

/-- Every step of a run below the largest view starts from ordered views and never lowers the
installed view. -/
theorem eachStep_installed_mono : ∀ (s : Elections) (xs : List (Progress × Message)),
    ViewsOrdered s → EachStep cfg (fun s _ => s.lastAttemptedView < maxView) s xs →
    EachStep cfg (fun s x => ViewsOrdered s ∧
      s.lastInstalledView ≤ (handle cfg x.1 s x.2).1.lastInstalledView) s xs
  | _, [], _, _ => trivial
  | s, x :: xs, hord, hwrap =>
    have h₁ := handle_moves cfg x.1 s x.2 hord hwrap.1
    ⟨⟨hord, h₁.installed⟩, eachStep_installed_mono _ xs h₁.ordered hwrap.2⟩

/-- One step raises the attempted view above a bound `B` on it and on the view the message
carries by at most one, and only when the message may start an attempt. -/
theorem attempted_le_after (p : Progress) (s : Elections) (m : Message) (B : Int)
    (hord : ViewsOrdered s) (hwrap : s.lastAttemptedView < maxView)
    (hs : s.lastAttemptedView ≤ B) (hm : ∀ v ∈ m.adoptedView?, v ≤ B) :
    (handle cfg p s m).1.lastAttemptedView ≤
      B + ((if m.startsAttempt then 1 else 0 : Nat) : Int) := by
  rcases (handle_moves cfg p s m hord hwrap).attempted with h | ⟨hst, h⟩ | h
  · rw [h]
    split <;> omega
  · rw [h, hst, if_pos rfl]
    omega
  · have := hm _ h
    split <;> omega

/-- Along a run from ordered views, whose peer messages carry views of at most `B`, from an
attempted view of at most `B`: while `B` plus the number of attempts the run may start stays below
the largest view, every state has ordered views, an installed view of at least `lo` when the first
has, and an attempted view of at most `B` plus that number. -/
theorem attempted_le_of_bound (lo : Int) : ∀ (B : Int) (s : Elections)
    (xs : List (Progress × Message)), ViewsOrdered s → lo ≤ s.lastInstalledView →
    s.lastAttemptedView ≤ B → (∀ x ∈ xs, ∀ v ∈ x.2.adoptedView?, v ≤ B) →
    B + attempts xs < maxView →
    Always cfg (fun s' => ViewsOrdered s' ∧ lo ≤ s'.lastInstalledView ∧
      s'.lastAttemptedView ≤ B + attempts xs) s xs
  | B, s, [], hord, hlo, hs, _, _ => ⟨hord, hlo, by simpa using hs⟩
  | B, s, x :: xs, hord, hlo, hs, hB, hroom => by
    -- `k` is one when this message may start an attempt, and zero otherwise
    have hcount := attempts_cons x xs
    have hle := attempted_le_after cfg x.1 s x.2 B hord
    generalize hk : (if x.2.startsAttempt then 1 else 0 : Nat) = k at hcount hle
    have hk1 : k ≤ 1 := by
      rw [← hk]
      split <;> omega
    rw [hcount] at hroom ⊢
    push_cast at hroom ⊢
    have hwrap : s.lastAttemptedView < maxView := by omega
    have h₁ := handle_moves cfg x.1 s x.2 hord hwrap
    -- the rest of the run starts from a bound `k` higher
    have hrest := attempted_le_of_bound lo (B + k) _ xs h₁.ordered
      (Int.le_trans hlo h₁.installed) (hle hwrap hs (hB x List.mem_cons_self))
      (fun y hy v hv => by
        have := hB y (List.mem_cons_of_mem _ hy) v hv
        omega)
      (by omega)
    refine ⟨⟨hord, hlo, by omega⟩, hrest.imp fun s' h => ⟨h.1, h.2.1, ?_⟩⟩
    have := h.2.2
    omega

end Runs

/-- A fresh service never wraps a view along a run whose peer messages carry views of at most `B`,
as long as `B` (or `-1`, if larger) plus the number of attempts the run may start stays below the
largest view: at every state the installed view is at least `-1` and at most the attempted view,
which stays below the largest view, so its step up never wraps. -/
theorem views_stay_below_max (cfg : ElectionConfig) (p : Progress) (now : Int) (B : Int)
    (xs : List (Progress × Message)) (hB : ∀ x ∈ xs, ∀ v ∈ x.2.adoptedView?, v ≤ B)
    (hroom : max B (-1) + attempts xs < maxView) :
    Always cfg (fun s => -1 ≤ s.lastInstalledView ∧
      s.lastInstalledView ≤ s.lastAttemptedView ∧ s.lastAttemptedView < maxView)
      (init cfg p now) xs := by
  have hrun := attempted_le_of_bound cfg (-1) (max B (-1)) (init cfg p now) xs (Int.le_refl _)
    (Int.le_refl _) (Int.le_max_right _ _)
    (fun x hx v hv => Int.le_trans (hB x hx v hv) (Int.le_max_left _ _)) hroom
  exact hrun.imp fun s h => ⟨h.2.1, h.1, Int.lt_of_le_of_lt h.2.2 hroom⟩

/-- Node 1 of a three-node cluster, listening on port 1001 of the loopback address. -/
def nodeOne : ElectionConfig where
  node := ⟨⟨1⟩, SocketAddr.loopback 1001, none, SocketAddr.loopback 1101, none,
    SocketAddr.loopback 1201, 0⟩
  clusterSize := 3

/-- Node 1 starts elections, joins the view 5 that node 2 announces as installed, and times out in
it. -/
def joinViewFive : List (Progress × Message) :=
  [({}, .election .startElections),
   ({}, .election (.viewChangeProof ⟨⟨2⟩, SocketAddr.loopback 1002, 5⟩)),
   ({}, .election (.electionsTimedOut 5))]

/-- Joining view 5 carries no view above 5 and starts two attempts, so no view wraps. -/
theorem views_stay_below_max_joining_view_five :
    (∀ x ∈ joinViewFive, ∀ v ∈ x.2.adoptedView?, v ≤ 5) ∧
      max 5 (-1) + attempts joinViewFive < maxView ∧
      Always nodeOne (fun s => -1 ≤ s.lastInstalledView ∧
        s.lastInstalledView ≤ s.lastAttemptedView ∧ s.lastAttemptedView < maxView)
        (init nodeOne {} 0) joinViewFive := by
  have hB : ∀ x ∈ joinViewFive, ∀ v ∈ x.2.adoptedView?, v ≤ 5 := by decide
  have hroom : max 5 (-1) + attempts joinViewFive < maxView := by decide
  exact ⟨hB, hroom, views_stay_below_max nodeOne {} 0 5 joinViewFive hB hroom⟩

end Elections

end EventStore
