import EventStore.Proofs.Election.Net

/-!
# What one elections step may do

A node's elections step is one handler run over a `Round`: the node's state and what it published.
This module says, handler by handler, what such a run may do, in the one form the network proofs
need (`StepOK`):

* the node only moves forward: every view it is past (`PastView`: installed, and no longer tried
  for leadership) stays so, its installed view never goes back, and its server list stays;
* every accept or election result it publishes is the one of the message it handles, or a fresh
  proposal: the node leads the proposal's view, was not past it before the step and is after it;
* every prepare it sends names a view the node installed and leads, and every prepare answer goes
  to the leader of the prepare it answers.

Steps compose (`StepOK.trans`), so each handler's statement is proved from the statements of the
handlers it calls.
-/

namespace EventStore

/-- The view and master a bus message stands for: a proposal or an accept sent to a peer, or a
published election result. -/
def Message.claim? : Message → Option (Int × Uuid)
  | .peerSend _ pm => pm.accepted?
  | .election (.electionsDone v m) => some (v, m.instanceId)
  | _ => none

/-- The leader and view a peer message sent to `dest` vouches for: a prepare names its sender, an
answer to a prepare its destination. -/
def PeerMessage.leaderRef? (dest : SocketAddr) : PeerMessage → Option (SocketAddr × Int)
  | .prepare p => some (p.serverInternal, p.view)
  | .prepareOk ok => some (dest, ok.view)
  | _ => none

/-- The leader and view a bus message vouches for, if it sends a prepare or an answer to one. -/
def Message.leaderRef? : Message → Option (SocketAddr × Int)
  | .peerSend dest pm => pm.leaderRef? dest
  | _ => none

/-- The view and master an election message stands for: a proposal, or an accept. -/
def ElectionMsg.claim? : ElectionMsg → Option (Int × Uuid)
  | .proposal p => some (p.view, p.masterId)
  | .accept a => some (a.view, a.masterId)
  | _ => none

/-- The leader and view an election message vouches for: a prepare names its sender. -/
def ElectionMsg.leaderRef? : ElectionMsg → Option (SocketAddr × Int)
  | .prepare p => some (p.serverInternal, p.view)
  | _ => none

/-- Below the largest view, the next view is one more. -/
theorem nextView_of_lt {v : Int} (h : v < maxView) : nextView v = v + 1 := by
  unfold nextView
  rw [if_neg (Int.ne_of_lt h)]

namespace Elections

/-! ## Moving forward -/

/-- Node state `s` is past view `v`: it installed `v` or a later view, and it no longer tries to
become the leader of `v`. A node that proposed in `v` is past it from then on. -/
def PastView (v : Int) (s : Elections) : Prop :=
  v ≤ s.lastInstalledView ∧
    (v < s.lastAttemptedView ∨ (v = s.lastAttemptedView ∧ s.phase ≠ .electingLeader))

/-- The installed view never runs ahead of the attempted one. -/
def ViewsOrdered (s : Elections) : Prop := s.lastInstalledView ≤ s.lastAttemptedView

/-- From `s` to `s'` a node keeps every view it is past, its installed view and its servers. -/
structure Grows (s s' : Elections) : Prop where
  past : ∀ v, PastView v s → PastView v s'
  installed : s.lastInstalledView ≤ s'.lastInstalledView
  servers : s'.servers = s.servers

/-- The parts of a node's state that decide which views it is past. -/
structure SameViews (s s' : Elections) : Prop where
  phase : s'.phase = s.phase
  attempted : s'.lastAttemptedView = s.lastAttemptedView
  installed : s'.lastInstalledView = s.lastInstalledView
  servers : s'.servers = s.servers

theorem Grows.refl (s : Elections) : Grows s s := ⟨fun _ h => h, Int.le_refl _, rfl⟩

theorem Grows.trans {s₁ s₂ s₃ : Elections} (h₁ : Grows s₁ s₂) (h₂ : Grows s₂ s₃) :
    Grows s₁ s₃ :=
  ⟨fun v h => h₂.past v (h₁.past v h), Int.le_trans h₁.installed h₂.installed,
    h₂.servers.trans h₁.servers⟩

theorem SameViews.pastView_iff {s s' : Elections} (h : SameViews s s') (v : Int) :
    PastView v s' ↔ PastView v s := by
  unfold PastView
  rw [h.phase, h.attempted, h.installed]

theorem SameViews.grows {s s' : Elections} (h : SameViews s s') : Grows s s' :=
  ⟨fun v hv => (h.pastView_iff v).2 hv, Int.le_of_eq h.installed.symm, h.servers⟩

theorem SameViews.viewsOrdered {s s' : Elections} (h : SameViews s s') (hs : ViewsOrdered s) :
    ViewsOrdered s' := by
  unfold ViewsOrdered
  rw [h.installed, h.attempted]
  exact hs

theorem SameViews.trans {s₁ s₂ s₃ : Elections} (h₁ : SameViews s₁ s₂)
    (h₂ : SameViews s₂ s₃) : SameViews s₁ s₃ :=
  ⟨h₂.phase.trans h₁.phase, h₂.attempted.trans h₁.attempted,
    h₂.installed.trans h₁.installed,
    h₂.servers.trans h₁.servers⟩

/-- Leadership of a view depends on the server list only. -/
theorem isLeaderOf_congr (cfg : ElectionConfig) {s s' : Elections} (h : s'.servers = s.servers)
    (v : Int) : isLeaderOf cfg s' v = isLeaderOf cfg s v := by
  unfold isLeaderOf
  rw [h]

/-! ## Fresh proposals and what a step publishes -/

/-- A proposal `x` that node `cfg` makes in a step from `s` to `s'`: it leads the proposal's view,
was not past it before and is after. -/
def Fresh (cfg : ElectionConfig) (s s' : Elections) (x : Int × Uuid) : Prop :=
  ¬PastView x.1 s ∧ PastView x.1 s' ∧ isLeaderOf cfg s' x.1 = true

theorem Fresh.mono_left {cfg : ElectionConfig} {s₀ s₁ s₂ : Elections} {x : Int × Uuid}
    (hg : Grows s₀ s₁) (h : Fresh cfg s₁ s₂ x) : Fresh cfg s₀ s₂ x :=
  ⟨fun hp => h.1 (hg.past _ hp), h.2.1, h.2.2⟩

theorem Fresh.mono_right {cfg : ElectionConfig} {s₀ s₁ s₂ : Elections} {x : Int × Uuid}
    (h : Fresh cfg s₀ s₁ x) (hg : Grows s₁ s₂) : Fresh cfg s₀ s₂ x :=
  ⟨h.1, hg.past _ h.2.1, by rw [isLeaderOf_congr cfg hg.servers]; exact h.2.2⟩

/-- The messages `o` of a step of node `cfg` from `s` to `s'`, given the claim `inp` and the
leader reference `ref` of the handled message: every accept or result stands for the handled
claim or for one of the step's fresh proposals, one master per view; every leader reference is
the handled one, or this node for a view it installed and leads. -/
structure Publishes (cfg : ElectionConfig) (inp : Option (Int × Uuid))
    (ref : Option (SocketAddr × Int)) (s s' : Elections) (o : List Message) : Prop where
  claims : ∃ F : List (Int × Uuid), (∀ x ∈ F, Fresh cfg s s' x) ∧
    (∀ x ∈ F, ∀ y ∈ F, x.1 = y.1 → x = y) ∧
    ∀ m ∈ o, ∀ x ∈ m.claim?, x ∈ inp ∨ x ∈ F
  refs : ∀ m ∈ o, ∀ x ∈ m.leaderRef?, x ∈ ref ∨
    (x.1 = cfg.node.internalTcp ∧ x.2 ≤ s'.lastInstalledView ∧ isLeaderOf cfg s' x.2 = true)

/-- A step of node `cfg` from round `r` to `r'`, handling a message with claim `inp` and leader
reference `ref`. -/
structure StepOK (cfg : ElectionConfig) (inp : Option (Int × Uuid))
    (ref : Option (SocketAddr × Int)) (r r' : Round) : Prop where
  ordered : ViewsOrdered r'.s
  grows : Grows r.s r'.s
  publishes : ∃ o, r'.out.toList = r.out.toList ++ o ∧ Publishes cfg inp ref r.s r'.s o

section Steps

variable {cfg : ElectionConfig} {inp : Option (Int × Uuid)} {ref : Option (SocketAddr × Int)}

theorem Publishes.nil (s s' : Elections) : Publishes cfg inp ref s s' [] :=
  ⟨⟨[], by simp, by simp, by simp⟩, by simp⟩

/-- Messages with no claim and no leader reference. -/
theorem Publishes.of_silent {s s' : Elections} {o : List Message}
    (h : ∀ m ∈ o, m.claim? = none ∧ m.leaderRef? = none) : Publishes cfg inp ref s s' o :=
  ⟨⟨[], by simp, by simp, fun m hm x hx => by simp [(h m hm).1] at hx⟩,
    fun m hm x hx => by simp [(h m hm).2] at hx⟩

/-- Messages that stand for one fresh proposal only. -/
theorem Publishes.of_fresh {s s' : Elections} {o : List Message} {x₀ : Int × Uuid}
    (hx₀ : Fresh cfg s s' x₀)
    (h : ∀ m ∈ o, (∀ x ∈ m.claim?, x ∈ some x₀) ∧ m.leaderRef? = none) :
    Publishes cfg inp ref s s' o :=
  ⟨⟨[x₀], by simpa using hx₀, by simp, fun m hm x hx => .inr (by
      simpa [eq_comm] using (h m hm).1 x hx)⟩,
    fun m hm x hx => by simp [(h m hm).2] at hx⟩

theorem Publishes.append {s₀ s₁ s₂ : Elections} {o₁ o₂ : List Message}
    (h₁ : Publishes cfg inp ref s₀ s₁ o₁) (h₂ : Publishes cfg inp ref s₁ s₂ o₂)
    (hg₁ : Grows s₀ s₁) (hg₂ : Grows s₁ s₂) :
    Publishes cfg inp ref s₀ s₂ (o₁ ++ o₂) := by
  obtain ⟨⟨F₁, hF₁, hu₁, hc₁⟩, hr₁⟩ := h₁
  obtain ⟨⟨F₂, hF₂, hu₂, hc₂⟩, hr₂⟩ := h₂
  refine ⟨⟨F₁ ++ F₂, ?_, ?_, ?_⟩, ?_⟩
  · intro x hx
    rcases List.mem_append.1 hx with hx | hx
    · exact (hF₁ x hx).mono_right hg₂
    · exact (hF₂ x hx).mono_left hg₁
  · -- a proposal of the first part is past its view when the second part starts, and one of
    -- the second part is not, so the two parts never share a view
    intro x hx y hy hxy
    rcases List.mem_append.1 hx with hx | hx <;> rcases List.mem_append.1 hy with hy | hy
    · exact hu₁ x hx y hy hxy
    · exact absurd (hxy ▸ (hF₁ x hx).2.1) (hF₂ y hy).1
    · exact absurd (hxy ▸ (hF₁ y hy).2.1) (hF₂ x hx).1
    · exact hu₂ x hx y hy hxy
  · intro m hm x hx
    rcases List.mem_append.1 hm with hm | hm
    · rcases hc₁ m hm x hx with h | h
      · exact .inl h
      · exact .inr (List.mem_append_left _ h)
    · rcases hc₂ m hm x hx with h | h
      · exact .inl h
      · exact .inr (List.mem_append_right _ h)
  · intro m hm x hx
    rcases List.mem_append.1 hm with hm | hm
    · rcases hr₁ m hm x hx with h | ⟨ha, hv, hl⟩
      · exact .inl h
      · refine .inr ⟨ha, Int.le_trans hv hg₂.installed, ?_⟩
        rw [isLeaderOf_congr cfg hg₂.servers]
        exact hl
    · exact hr₂ m hm x hx

theorem StepOK.refl (r : Round) (h : ViewsOrdered r.s) : StepOK cfg inp ref r r :=
  ⟨h, .refl _, [], by simp, .nil _ _⟩

theorem StepOK.trans {r₁ r₂ r₃ : Round} (h₁ : StepOK cfg inp ref r₁ r₂)
    (h₂ : StepOK cfg inp ref r₂ r₃) : StepOK cfg inp ref r₁ r₃ := by
  obtain ⟨-, hg₁, o₁, ho₁, hp₁⟩ := h₁
  obtain ⟨hord, hg₂, o₂, ho₂, hp₂⟩ := h₂
  exact ⟨hord, hg₁.trans hg₂, o₁ ++ o₂, by rw [ho₂, ho₁, List.append_assoc],
    hp₁.append hp₂ hg₁ hg₂⟩

/-- A step that keeps the views and publishes what `Publishes` allows. -/
theorem StepOK.of_sameViews {r r' : Round} (hs : SameViews r.s r'.s) (hord : ViewsOrdered r.s)
    {o : List Message} (ho : r'.out.toList = r.out.toList ++ o)
    (hp : Publishes cfg inp ref r.s r'.s o) : StepOK cfg inp ref r r' :=
  ⟨hs.viewsOrdered hord, hs.grows, o, ho, hp⟩

/-- An update that moves the node forward, then a step. -/
theorem StepOK.update_bind {f : Elections → Elections} {g : Unit → Handler Unit} {r : Round}
    (hg : Grows r.s (f r.s)) (ho : ViewsOrdered (f r.s))
    (h : StepOK cfg inp ref { r with s := f r.s } ((g ()).run { r with s := f r.s }).2) :
    StepOK cfg inp ref r ((Elections.update f >>= g).run r).2 :=
  (StepOK.trans ⟨ho, hg, [], by simp, .nil _ _⟩ h)

/-- Two steps in sequence, the second knowing that the first is one. -/
theorem StepOK.seq_with {x : Handler Unit} {g : Unit → Handler Unit} {r : Round}
    (h₁ : StepOK cfg inp ref r (x.run r).2)
    (h₂ : StepOK cfg inp ref r (x.run r).2 →
      StepOK cfg inp ref (x.run r).2 ((g ()).run (x.run r).2).2) :
    StepOK cfg inp ref r ((x >>= g).run r).2 :=
  h₁.trans (h₂ h₁)

/-- Two steps in sequence. -/
theorem StepOK.seq {x : Handler Unit} {g : Unit → Handler Unit} {r : Round}
    (h₁ : StepOK cfg inp ref r (x.run r).2)
    (h₂ : StepOK cfg inp ref (x.run r).2 ((g ()).run (x.run r).2).2) :
    StepOK cfg inp ref r ((x >>= g).run r).2 :=
  h₁.trans h₂

theorem StepOK.ite {p : Prop} [Decidable p] {x y : Handler Unit} {r : Round}
    (hx : p → StepOK cfg inp ref r (x.run r).2) (hy : ¬p → StepOK cfg inp ref r (y.run r).2) :
    StepOK cfg inp ref r ((if p then x else y).run r).2 := by
  split
  · exact hx ‹_›
  · exact hy ‹_›

end Steps

/-! ## Running handlers -/

section Run

variable {α β : Type}

theorem run_bind (x : Handler α) (f : α → Handler β) (r : Round) :
    (x >>= f).run r = (f (x.run r).1).run (x.run r).2 := rfl

theorem run_pure (a : α) (r : Round) : (pure a : Handler α).run r = (a, r) := rfl

theorem get'_bind_run (f : Elections → Handler β) (r : Round) :
    (get' >>= f).run r = (f r.s).run r := rfl

theorem update_run (f : Elections → Elections) (r : Round) :
    (update f).run r = ((), { r with s := f r.s }) := rfl

theorem publish_run (m : Message) (r : Round) :
    (publish m).run r = ((), { r with out := r.out.push m }) := rfl

/-- The messages that `sendToOthers` sends: one to each server but this node, in server order. -/
def others (cfg : ElectionConfig) (servers : List Member) (pm : PeerMessage) : List Message :=
  (servers.filter fun srv => srv.instanceId ≠ cfg.node.instanceId).map
    fun srv => .peerSend srv.internalTcp pm

theorem run_forIn_publish (l : List Member) (f : Member → Prop) [DecidablePred f]
    (g : Member → Message) (r : Round) :
    (forIn l PUnit.unit fun srv _ =>
        if f srv then (do publish (g srv); pure (ForInStep.yield PUnit.unit))
        else pure (ForInStep.yield PUnit.unit) : Handler PUnit).run r =
      ((), { r with out := r.out ++ ((l.filter f).map g).toArray }) := by
  induction l generalizing r with
  | nil => rfl
  | cons srv l ih =>
    rw [List.forIn_cons]
    by_cases h : f srv
    · simp only [h, if_true]
      exact (ih _).trans (by simp [h])
    · simp only [h, if_false]
      exact (ih _).trans (by simp [h])

theorem sendToOthers_run (cfg : ElectionConfig) (pm : PeerMessage) (r : Round) :
    (sendToOthers cfg pm).run r =
      ((), { r with out := r.out ++ (others cfg r.s.servers pm).toArray }) := by
  unfold sendToOthers
  rw [get'_bind_run, run_bind, run_forIn_publish]
  rfl

end Run

/-! ## Runs that keep the views -/

/-- A run from `r` to `r'` that keeps the views and publishes only messages that stand for a
claim in `X`, or for none, and vouch for no leader. -/
def Quiet (X : Option (Int × Uuid)) (r r' : Round) : Prop :=
  SameViews r.s r'.s ∧ ∃ o, r'.out.toList = r.out.toList ++ o ∧
    ∀ m ∈ o, (∀ x ∈ m.claim?, x ∈ X) ∧ m.leaderRef? = none

section Quiet

variable {X : Option (Int × Uuid)}

theorem Quiet.refl (r : Round) : Quiet X r r :=
  ⟨⟨rfl, rfl, rfl, rfl⟩, [], by simp, by simp⟩

theorem Quiet.trans {r₁ r₂ r₃ : Round} (h₁ : Quiet X r₁ r₂) (h₂ : Quiet X r₂ r₃) :
    Quiet X r₁ r₃ := by
  obtain ⟨hs₁, o₁, ho₁, hm₁⟩ := h₁
  obtain ⟨hs₂, o₂, ho₂, hm₂⟩ := h₂
  refine ⟨hs₁.trans hs₂, o₁ ++ o₂, by rw [ho₂, ho₁, List.append_assoc],
    fun m hm => ?_⟩
  rcases List.mem_append.1 hm with hm | hm
  · exact hm₁ m hm
  · exact hm₂ m hm

theorem Quiet.update {s' : Elections} (r : Round) (hs : SameViews r.s s') :
    Quiet X r { r with s := s' } :=
  ⟨hs, [], by simp, by simp⟩

/-- An update that keeps the views, then a quiet run. -/
theorem Quiet.update_bind {f : Elections → Elections} {g : Unit → Handler Unit} {r : Round}
    (hf : ∀ s, SameViews s (f s))
    (h : Quiet X { r with s := f r.s } ((g ()).run { r with s := f r.s }).2) :
    Quiet X r ((Elections.update f >>= g).run r).2 :=
  (Quiet.update r (hf r.s)).trans h

/-- Two quiet runs in sequence. -/
theorem Quiet.seq {x : Handler Unit} {g : Unit → Handler Unit} {r : Round}
    (h₁ : Quiet X r (x.run r).2) (h₂ : Quiet X (x.run r).2 ((g ()).run (x.run r).2).2) :
    Quiet X r ((x >>= g).run r).2 :=
  h₁.trans h₂

theorem Quiet.publish {m : Message} (r : Round) (hm : ∀ x ∈ m.claim?, x ∈ X)
    (hr : m.leaderRef? = none) : Quiet X r { r with out := r.out.push m } :=
  ⟨⟨rfl, rfl, rfl, rfl⟩, [m], by simp, fun m' hm' => by
    rw [List.mem_singleton.1 hm']
    exact ⟨hm, hr⟩⟩

theorem Quiet.sendToOthers (cfg : ElectionConfig) {pm : PeerMessage} (r : Round)
    (hm : ∀ x ∈ pm.accepted?, x ∈ X) (hr : ∀ d, pm.leaderRef? d = none) :
    Quiet X r ((sendToOthers cfg pm).run r).2 := by
  rw [sendToOthers_run]
  refine ⟨⟨rfl, rfl, rfl, rfl⟩, others cfg r.s.servers pm, by simp, fun m hm' => ?_⟩
  obtain ⟨srv, -, rfl⟩ := List.mem_map.1 hm'
  exact ⟨hm, hr _⟩

/-- A quiet run is a step, when what it stands for is the handled claim. -/
theorem StepOK.of_quiet {cfg : ElectionConfig} {inp : Option (Int × Uuid)}
    {ref : Option (SocketAddr × Int)} {r r' : Round} (hq : Quiet X r r')
    (hX : ∀ x ∈ X, x ∈ inp) (hord : ViewsOrdered r.s) : StepOK cfg inp ref r r' := by
  obtain ⟨hs, o, ho, hm⟩ := hq
  refine .of_sameViews hs hord ho ⟨⟨[], by simp, by simp, fun m hmo x hx => ?_⟩, ?_⟩
  · exact .inl (hX x ((hm m hmo).1 x hx))
  · intro m hmo x hx
    simp [(hm m hmo).2] at hx

/-- A quiet run that stands for nothing is a step. -/
theorem StepOK.of_silent {cfg : ElectionConfig} {inp : Option (Int × Uuid)}
    {ref : Option (SocketAddr × Int)} {r r' : Round} (hq : Quiet none r r')
    (hord : ViewsOrdered r.s) : StepOK cfg inp ref r r' :=
  .of_quiet hq (fun x hx => absurd hx (Option.not_mem_none x)) hord

end Quiet

/-! ## Accepts and proposals -/

/-- Taking an accept keeps the views and publishes at most the result it stands for. -/
theorem handleAccept_quiet (cfg : ElectionConfig) (a : Accept) (r : Round) :
    Quiet (some (a.view, a.masterId)) r ((handleAccept cfg a).run r).2 := by
  unfold handleAccept
  dsimp only
  rw [get'_bind_run]
  split
  · exact .refl r
  · split
    · split
      · exact .refl r
      · split
        · exact .refl r
        · refine Quiet.update_bind (fun _ => ⟨rfl, rfl, rfl, rfl⟩) ?_
          split
          · split
            · exact .refl _
            · rename_i _ prop _ hprop _ _ _ mm hmm
              refine Quiet.update_bind (fun _ => ⟨rfl, rfl, rfl, rfl⟩) (Quiet.publish _ ?_ rfl)
              -- the result names the server found for the proposal, which is the accepted master
              have hid : mm.instanceId = prop.instanceId := by
                simpa using List.find?_some hmm
              intro x hx
              simp only [Message.claim?, Option.mem_def, Option.some.injEq] at hx ⊢
              rw [← hx, hid]
              rw [not_not.1 hprop]
          · exact .refl _
    · exact .refl r

/-- Proposing keeps the views, and what it publishes stands for the proposed master in the
installed view. -/
theorem sendProposal_quiet (cfg : ElectionConfig) (r : Round) :
    ∃ c, Quiet (some (r.s.lastInstalledView, c)) r ((sendProposal cfg).run r).2 := by
  unfold sendProposal
  rw [run_bind, update_run, get'_bind_run]
  split
  · rename_i c _
    exact ⟨c.instanceId, (Quiet.update r (by exact ⟨rfl, rfl, rfl, rfl⟩)).trans
      (Quiet.update_bind (fun _ => ⟨rfl, rfl, rfl, rfl⟩) (Quiet.seq (handleAccept_quiet _ _ _)
        (Quiet.sendToOthers cfg _ (fun x hx => hx) (fun _ => rfl))))⟩
  · exact ⟨default, Quiet.update r ⟨rfl, rfl, rfl, rfl⟩⟩

/-- Taking a prepare answer is a step, when an answer for the attempted view comes while the node
is electing itself only for a view it installed and leads. A majority of answers makes the node
leader: it proposes, fresh, in the view it installed. -/
theorem handlePrepareOk_step (cfg : ElectionConfig) (inp : Option (Int × Uuid))
    (ref : Option (SocketAddr × Int)) (m : PrepareOk) (r : Round) (hord : ViewsOrdered r.s)
    (hpre : r.s.phase = .electingLeader → m.view = r.s.lastAttemptedView →
      m.view ≤ r.s.lastInstalledView ∧ isLeaderOf cfg r.s m.view = true) :
    StepOK cfg inp ref r ((handlePrepareOk cfg m).run r).2 := by
  unfold handlePrepareOk
  dsimp only
  rw [get'_bind_run]
  split
  · exact .refl r hord
  · rename_i hguard
    rw [not_or, not_not, not_not] at hguard
    obtain ⟨hphase, hview⟩ := hguard
    obtain ⟨hle, hlead⟩ := hpre hphase hview
    -- the node installed the view it attempts
    have hIA : r.s.lastInstalledView = r.s.lastAttemptedView := by
      unfold ViewsOrdered at hord
      omega
    split
    · exact .refl r hord
    · rw [run_bind, update_run]
      split
      · rw [run_bind, update_run]
        obtain ⟨c, hs, o, ho, hm⟩ := sendProposal_quiet cfg
          { s := { r.s with prepareOks := r.s.prepareOks ++ [Candidate.ofPrepareOk m],
                            phase := .leader }, out := r.out }
        refine ⟨hs.viewsOrdered hord,
          ⟨fun v hv => ?_, Int.le_of_eq hs.installed.symm, hs.servers⟩,
          o, ho, .of_fresh ⟨?_, ?_, ?_⟩ hm⟩
        · rw [hs.pastView_iff]
          refine ⟨hv.1, hv.2.imp_right fun h => ⟨h.1, by simp⟩⟩
        · -- before the step the node still tried to lead its installed view
          rintro ⟨-, hv⟩
          rcases hv with hv | hv
          · exact absurd hIA (Int.ne_of_lt hv)
          · exact hv.2 hphase
        · rw [hs.pastView_iff]
          exact ⟨Int.le_refl _, .inr ⟨hIA, by simp⟩⟩
        · rw [isLeaderOf_congr cfg (hs.servers.trans (rfl : _ = r.s.servers))]
          simpa [hview, ← hIA] using hlead
      · exact .of_silent (Quiet.update r (by exact ⟨rfl, rfl, rfl, rfl⟩)) hord

/-! ## The handlers -/

section Handlers

variable (cfg : ElectionConfig) (inp : Option (Int × Uuid)) (ref : Option (SocketAddr × Int))

/-- An update that moves the node forward is a step. -/
theorem update_step {f : Elections → Elections} {r : Round} (hg : Grows r.s (f r.s))
    (ho : ViewsOrdered (f r.s)) : StepOK cfg inp ref r ((Elections.update f).run r).2 :=
  ⟨ho, hg, [], by rw [update_run]; simp, .nil _ _⟩

/-- Publishing a message that stands for nothing and vouches for no leader is a step. -/
theorem publish_step {m : Message} (r : Round) (hord : ViewsOrdered r.s) (hm : m.claim? = none)
    (hr : m.leaderRef? = none) : StepOK cfg inp ref r ((publish m).run r).2 :=
  .of_silent (Quiet.publish r (by rw [hm]; exact fun x hx => hx) hr) hord

/-- Sending a peer message that is no accept and no prepare to the others is a step. -/
theorem sendToOthers_step {pm : PeerMessage} (r : Round) (hord : ViewsOrdered r.s)
    (hm : pm.accepted? = none) (hr : ∀ d, pm.leaderRef? d = none) :
    StepOK cfg inp ref r ((sendToOthers cfg pm).run r).2 :=
  .of_silent (Quiet.sendToOthers cfg r (by rw [hm]; exact fun x hx => hx) hr) hord

/-- Sending a prepare for a view the node installed and leads is a step. -/
theorem sendPrepare_step {v : Int} (id : Uuid) (r : Round) (hord : ViewsOrdered r.s)
    (hv : v ≤ r.s.lastInstalledView) (hl : isLeaderOf cfg r.s v = true) :
    StepOK cfg inp ref r
      ((sendToOthers cfg (.prepare ⟨id, cfg.node.internalTcp, v⟩)).run r).2 := by
  rw [sendToOthers_run]
  refine ⟨hord, .refl _, others cfg r.s.servers (.prepare ⟨id, cfg.node.internalTcp, v⟩),
    by simp,
    ⟨[], by simp, by simp, ?_⟩, ?_⟩
  · intro m hm x hx
    obtain ⟨srv, -, rfl⟩ := List.mem_map.1 hm
    simp [Message.claim?, PeerMessage.accepted?] at hx
  · intro m hm x hx
    obtain ⟨srv, -, rfl⟩ := List.mem_map.1 hm
    simp only [Message.leaderRef?, PeerMessage.leaderRef?, Option.mem_def, Option.some.injEq] at hx
    exact .inr ⟨by rw [← hx], by rw [← hx]; exact hv, by rw [← hx]; exact hl⟩

/-- Installing the attempted view as a non-leader is a step. -/
theorem shiftToNonLeader_step (r : Round) (hord : ViewsOrdered r.s) :
    StepOK cfg inp ref r (shiftToNonLeader.run r).2 := by
  refine update_step cfg inp ref ⟨fun v hv => ?_, hord, rfl⟩ (Int.le_refl _)
  obtain ⟨hvI, hvA⟩ := hv
  refine ⟨Int.le_trans hvI hord, hvA.imp_right fun h => ⟨h.1, by simp⟩⟩

/-- Installing the attempted view as its leader is a step: the node answers its own prepare,
which may make it leader and propose, and asks the others to prepare. -/
theorem shiftToPreparePhase_step (p : Progress) (r : Round) (hord : ViewsOrdered r.s)
    (hlead : isLeaderOf cfg r.s r.s.lastAttemptedView = true) :
    StepOK cfg inp ref r ((shiftToPreparePhase cfg p).run r).2 := by
  unfold shiftToPreparePhase
  refine StepOK.update_bind ⟨fun v hv => ⟨Int.le_trans hv.1 hord, hv.2⟩, hord, rfl⟩
    (Int.le_refl _) ?_
  rw [get'_bind_run]
  refine StepOK.seq_with (handlePrepareOk_step cfg inp ref _ _ (Int.le_refl _) ?_) fun h₁ => ?_
  · exact fun _ _ => ⟨Int.le_refl _, hlead⟩
  · exact sendPrepare_step cfg inp ref _ _ h₁.ordered h₁.grows.installed
      (by rw [isLeaderOf_congr cfg h₁.grows.servers]; exact hlead)

/-- Publishing a message that stands for nothing and vouches only for the handled leader is a
step. -/
theorem publishRef_step {m : Message} (r : Round) (hord : ViewsOrdered r.s) (hm : m.claim? = none)
    (hr : ∀ x ∈ m.leaderRef?, x ∈ ref) : StepOK cfg inp ref r ((publish m).run r).2 := by
  refine ⟨hord, .refl _, [m], by rw [publish_run]; simp, ⟨[], by simp, by simp, ?_⟩, ?_⟩
  · intro m' hm' x hx
    rw [List.mem_singleton.1 hm', hm] at hx
    exact absurd hx (Option.not_mem_none x)
  · intro m' hm' x hx
    rw [List.mem_singleton.1 hm'] at hx
    exact .inl (hr x hx)

/-- Taking a vote is a step, when starting a new attempt is one. -/
theorem viewChangeWith_step (p : Progress) (shift : Int → Handler Unit) (m : ViewChange)
    (r : Round) (hord : ViewsOrdered r.s)
    (hshift : ∀ r' : Round, ViewsOrdered r'.s → r'.s.lastAttemptedView < m.attemptedView →
      StepOK cfg inp ref r' ((shift m.attemptedView).run r').2) :
    StepOK cfg inp ref r ((viewChangeWith cfg p shift m).run r).2 := by
  unfold viewChangeWith
  dsimp only
  rw [get'_bind_run]
  split
  · exact .refl r hord
  · split
    · exact .refl r hord
    · split
      case' isTrue hA =>
        refine StepOK.seq_with (hshift r hord hA) fun h₁ => ?_
        have hord₁ := h₁.ordered
        revert hord₁
      case' isFalse =>
        have hord₁ : ViewsOrdered r.s := hord
        revert hord₁
      -- after an optional new attempt, the vote is counted and a majority installs the view
      all_goals
        intro hord₁
        rw [get'_bind_run]
        split
        · exact .refl _ hord₁
        · refine StepOK.update_bind (SameViews.grows ⟨rfl, rfl, rfl, rfl⟩) hord₁ ?_
          split
          · rw [get'_bind_run]
            split
            · exact shiftToPreparePhase_step cfg inp ref p _ hord₁ ‹_›
            · exact .refl _ hord₁
          · exact .refl _ hord₁

/-- Starting an attempt at a later view is a step. -/
theorem shiftToLeaderElection_step (p : Progress) (view : Int) (r : Round)
    (hord : ViewsOrdered r.s) (hv : r.s.lastAttemptedView < view) :
    StepOK cfg inp ref r ((shiftToLeaderElection cfg p view).run r).2 := by
  unfold shiftToLeaderElection
  dsimp only
  refine StepOK.update_bind ⟨fun v hpast => ⟨hpast.1, .inl ?_⟩, Int.le_refl _, rfl⟩
    (Int.le_of_lt (Int.lt_of_le_of_lt hord hv)) ?_
  · rcases hpast.2 with h | ⟨h, -⟩
    · exact Int.lt_trans h hv
    · exact h ▸ hv
  · refine StepOK.seq_with (viewChangeWith_step cfg inp ref p _ _ _
      (Int.le_of_lt (Int.lt_of_le_of_lt hord hv)) fun r' hr' _ => .refl r' hr') fun h₁ => ?_
    refine StepOK.seq_with (sendToOthers_step cfg inp ref _ h₁.ordered rfl fun _ => rfl)
      fun h₂ => ?_
    exact publish_step cfg inp ref _ h₂.ordered rfl rfl

theorem handleViewChange_step (p : Progress) (m : ViewChange) (r : Round)
    (hord : ViewsOrdered r.s) : StepOK cfg inp ref r ((handleViewChange cfg p m).run r).2 :=
  viewChangeWith_step cfg inp ref p _ m r hord fun r' hr' hlt =>
    shiftToLeaderElection_step cfg inp ref p _ r' hr' hlt

theorem handleSendProof_step (r : Round) (hord : ViewsOrdered r.s) :
    StepOK cfg inp ref r ((handleSendProof cfg).run r).2 := by
  unfold handleSendProof
  dsimp only
  rw [get'_bind_run]
  split
  · exact .refl r hord
  · split
    · refine StepOK.seq_with (sendToOthers_step cfg inp ref _ hord rfl fun _ => rfl) fun h₁ => ?_
      exact publish_step cfg inp ref _ h₁.ordered rfl rfl
    · exact publish_step cfg inp ref _ hord rfl rfl

/-- Joining a later installed view announced by another node is a step. -/
theorem handleProof_step (p : Progress) (m : ViewChangeProof) (r : Round)
    (hord : ViewsOrdered r.s) : StepOK cfg inp ref r ((handleProof cfg p m).run r).2 := by
  unfold handleProof
  rw [get'_bind_run]
  split
  · exact .refl r hord
  · split
    · exact .refl r hord
    · rename_i hnew
      have hlt : r.s.lastInstalledView < m.installedView := Int.lt_of_not_ge hnew
      refine StepOK.update_bind
        ⟨fun v hpast => ⟨hpast.1, .inl (Int.lt_of_le_of_lt hpast.1 hlt)⟩,
        Int.le_refl _, rfl⟩ (Int.le_of_lt hlt) ?_
      refine StepOK.seq_with (publish_step cfg inp ref _ (Int.le_of_lt hlt) rfl rfl) fun h₁ => ?_
      rw [get'_bind_run]
      split
      · exact shiftToPreparePhase_step cfg inp ref p _ h₁.ordered ‹_›
      · exact shiftToNonLeader_step cfg inp ref _ h₁.ordered

/-- Answering a prepare is a step: the answer goes to the prepare's sender, for its view. -/
theorem handlePrepare_step (p : Progress) (m : Prepare) (r : Round) (hord : ViewsOrdered r.s)
    (href : (m.serverInternal, m.view) ∈ ref) :
    StepOK cfg inp ref r ((handlePrepare cfg p m).run r).2 := by
  unfold handlePrepare
  dsimp only
  rw [get'_bind_run]
  have hanswer : ∀ r' : Round, ViewsOrdered r'.s → StepOK cfg inp ref r'
      ((publish (.peerSend m.serverInternal (.prepareOk (prepareOkOf cfg p m.view)))).run r').2 :=
    fun r' hr' => publishRef_step cfg inp ref r' hr' rfl fun x hx => by
      simp only [Message.leaderRef?, PeerMessage.leaderRef?, Option.mem_def,
        Option.some.injEq] at hx
      rw [← hx]
      exact href
  split
  · exact .refl r hord
  · split
    · exact .refl r hord
    · split
      · exact StepOK.seq_with (shiftToNonLeader_step cfg inp ref r hord) fun h₁ =>
          hanswer _ h₁.ordered
      · exact hanswer r hord

/-- Taking a proposal keeps the views, and what it publishes stands for the proposal. -/
theorem handleProposal_quiet (p : Progress) (m : Proposal) (r : Round) :
    Quiet (some (m.view, m.masterId)) r ((handleProposal cfg p m).run r).2 := by
  unfold handleProposal
  dsimp only
  rw [get'_bind_run]
  have haccept : ∀ r' : Round, Quiet (some (m.view, m.masterId)) r'
      ((handleAccept cfg
          ⟨m.serverId, m.serverInternal, m.masterId, m.masterInternal, m.view⟩ >>=
        fun _ => handleAccept cfg ⟨cfg.node.instanceId, cfg.node.internalTcp, m.masterId,
          m.masterInternal, m.view⟩ >>= fun _ => sendToOthers cfg (.accept ⟨cfg.node.instanceId,
            cfg.node.internalTcp, m.masterId, m.masterInternal, m.view⟩)).run r').2 :=
    fun r' => Quiet.seq (handleAccept_quiet _ _ _) (Quiet.seq (handleAccept_quiet _ _ _)
      (Quiet.sendToOthers cfg _ (fun x hx => hx) fun _ => rfl))
  split
  · exact .refl r
  · split
    · exact .refl r
    · split
      · exact .refl r
      · split
        · exact .refl r
        · split
          · refine Quiet.update_bind (fun _ => ⟨rfl, rfl, rfl, rfl⟩) ?_
            rw [get'_bind_run]
            split
            · exact haccept _
            · exact .refl _
          · rw [get'_bind_run]
            split
            · exact haccept _
            · exact .refl _

/-- Handling an election message is a step, as long as the node's attempted view is below the
largest one (past it, the next view wraps to the smallest), and an answer to a prepare for the
attempted view reaches an electing node only for a view it installed and leads. -/
theorem handler_step (p : Progress) (m : ElectionMsg) (r : Round) (hord : ViewsOrdered r.s)
    (hwrap : r.s.lastAttemptedView < maxView)
    (hok : ∀ ok, m = .prepareOk ok → r.s.phase = .electingLeader →
      ok.view = r.s.lastAttemptedView →
        ok.view ≤ r.s.lastInstalledView ∧ isLeaderOf cfg r.s ok.view = true) :
    StepOK cfg m.claim? m.leaderRef? r ((handler cfg p (.election m)).run r).2 := by
  have hnext : r.s.lastAttemptedView < nextView r.s.lastAttemptedView := by
    rw [nextView_of_lt hwrap]
    exact Int.lt_succ _
  cases m with
  | startElections =>
    simp only [handler]
    rw [get'_bind_run]
    split
    · exact .refl r hord
    · exact shiftToLeaderElection_step cfg _ _ p _ r hord hnext
  | electionsTimedOut view =>
    simp only [handler]
    rw [get'_bind_run]
    split
    · exact .refl r hord
    · split
      · exact .refl r hord
      · exact shiftToLeaderElection_step cfg _ _ p _ r hord hnext
  | sendViewChangeProof => exact handleSendProof_step cfg _ _ r hord
  | viewChange vc => exact handleViewChange_step cfg _ _ p vc r hord
  | viewChangeProof vp => exact handleProof_step cfg _ _ p vp r hord
  | prepare pr => exact handlePrepare_step cfg _ _ p pr r hord rfl
  | prepareOk ok => exact handlePrepareOk_step cfg _ _ ok r hord (hok ok rfl)
  | proposal pr => exact .of_quiet (handleProposal_quiet cfg p pr r) (fun x hx => hx) hord
  | accept a => exact .of_quiet (handleAccept_quiet cfg a r) (fun x hx => hx) hord
  | electionsDone v mm => exact .refl r hord

end Handlers

end Elections

end EventStore
