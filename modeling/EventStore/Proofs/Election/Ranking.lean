import EventStore.Proofs.Election.Views

/-!
# The best candidate and the voters that judge it

A leader that knows no master elected last proposes the best ranked of the candidates that
answered its `Prepare` (`Elections.bestCandidate`). Ranks are compared lexicographically over
epoch number, commit position, writer checkpoint, priority, chaser checkpoint and instance
identifier; a voter judges the proposal by another order, the first of epoch number, commit
position, writer and chaser checkpoints in which the proposal and its own candidate differ, and
priority plays no part there.

`Candidate.rankLt` is a strict total order on ranks, so folding the answers keeps a candidate that
no other ranks above (`Elections.topOf_foldl_pickBest`). When all the answers have one priority,
the two orders agree on it: the best candidate is good enough for every candidate that answered
(`Candidate.goodEnough_of_not_ranksBelow`). The main statement,
`Elections.bestCandidate_ranks_first_and_is_legitimate`, puts the two together: every voter whose
answer the leader counted, and that knows no live master elected last, takes the proposal as
legitimate.
-/

namespace EventStore

namespace Candidate

theorem rankLt_irrefl (r : List Int) : rankLt r r = false := by
  induction r with
  | nil => rfl
  | cons a r ih => simp [rankLt, ih]

theorem rankLt_trans {a b c : List Int} (hab : rankLt a b = true) (hbc : rankLt b c = true) :
    rankLt a c = true := by
  induction a generalizing b c with
  | nil => cases b <;> simp [rankLt] at hab
  | cons x a ih =>
    cases b with
    | nil => simp [rankLt] at hab
    | cons y b =>
      cases c with
      | nil => simp [rankLt] at hbc
      | cons z c =>
        simp only [rankLt, Bool.or_eq_true, decide_eq_true_eq, Bool.and_eq_true, beq_iff_eq]
          at hab hbc ⊢
        -- the first components decide unless they tie, and then the tails do
        rcases hab with hxy | ⟨rfl, hab⟩ <;> rcases hbc with hyz | ⟨rfl, hbc⟩
        · exact .inl (Int.lt_trans hxy hyz)
        · exact .inl hxy
        · exact .inl hyz
        · exact .inr ⟨rfl, ih hab hbc⟩

/-- Of two ranks of one length, one is below the other or they are equal. -/
theorem rankLt_total {a b : List Int} (hlen : a.length = b.length) :
    rankLt a b = true ∨ a = b ∨ rankLt b a = true := by
  induction a generalizing b with
  | nil => cases b <;> simp_all
  | cons x a ih =>
    cases b with
    | nil => simp at hlen
    | cons y b =>
      simp only [rankLt, Bool.or_eq_true, decide_eq_true_eq, Bool.and_eq_true, beq_iff_eq,
        List.cons.injEq]
      rcases Int.lt_trichotomy x y with hxy | rfl | hyx
      · exact .inl (.inl hxy)
      · rcases ih (by simpa using hlen) with h | h | h <;> simp [h]
      · exact .inr (.inr (.inl hyx))

theorem ranksBelow_irrefl (c : Candidate) : c.ranksBelow c = false := rankLt_irrefl c.rank

theorem ranksBelow_trans {a b c : Candidate} (hab : a.ranksBelow b = true)
    (hbc : b.ranksBelow c = true) : a.ranksBelow c = true :=
  rankLt_trans hab hbc

/-- Of two candidates, one ranks below the other or they have the same rank. -/
theorem ranksBelow_total (c d : Candidate) :
    c.ranksBelow d = true ∨ c.rank = d.rank ∨ d.ranksBelow c = true :=
  rankLt_total rfl

/-- When priorities tie, a candidate that ranks no lower than another is good enough for it: the
rank's order and the order of `goodEnough` differ only in priority, which the rank weighs before
the chaser checkpoint. -/
theorem goodEnough_of_not_ranksBelow {b c : Candidate}
    (hprio : c.progress.nodePriority = b.progress.nodePriority) (h : b.ranksBelow c = false) :
    goodEnough b c = true := by
  simp only [ranksBelow, rank, rankLt, Bool.or_eq_false_iff, decide_eq_false_iff_not,
    Bool.and_eq_false_imp, beq_iff_eq, Int.not_lt] at h
  -- `h` walks the rank's order measure by measure; with the priorities tied, its step on the
  -- chaser checkpoint is the last step of `goodEnough`
  simp only [goodEnough]
  grind

/-- `goodEnough` reads no priority, so a proposal that drops it is judged as the candidate. -/
theorem goodEnough_withPriority (i : Uuid) (t : SocketAddr) (q : Candidacy) (k : Int)
    (own : Candidate) :
    goodEnough ⟨i, t, { q with nodePriority := k }⟩ own = goodEnough ⟨i, t, q⟩ own := rfl

end Candidate

namespace Elections

/-- One step of the leader's choice: the next candidate replaces the best so far if it ranks
above it. -/
def pickBest (best : Option Candidate) (c : Candidate) : Option Candidate :=
  match best with
  | none => some c
  | some b => if Candidate.ranksBelow b c then some c else some b

theorem bestCandidate_of_lastElected_none {s : Elections} (h : s.lastElected = none) :
    bestCandidate s = s.prepareOks.foldl pickBest none := by
  simp only [bestCandidate, h, Option.bind_none]
  rfl

/-- `best` is the top of the candidates `cs`: none for no candidates, otherwise one of them that no
other ranks above. -/
def TopOf : Option Candidate → List Candidate → Prop
  | none, cs => cs = []
  | some b, cs => b ∈ cs ∧ ∀ c ∈ cs, b.ranksBelow c = false

theorem TopOf.pickBest {best : Option Candidate} {cs : List Candidate} (htop : TopOf best cs)
    (c : Candidate) : TopOf (pickBest best c) (cs ++ [c]) := by
  cases best with
  | none =>
    simp only [TopOf] at htop
    subst htop
    exact ⟨List.mem_singleton_self c, by simp [Candidate.ranksBelow_irrefl]⟩
  | some b =>
    obtain ⟨hb, hmax⟩ := htop
    simp only [Elections.pickBest]
    split
    next hbc =>
      -- `c` ranks above `b`, so no candidate that `b` ranked above can rank above `c`
      refine ⟨by simp, fun d hd => ?_⟩
      rcases List.mem_append.1 hd with hd | hd
      · cases hcd : c.ranksBelow d
        · rfl
        · exact absurd (Candidate.ranksBelow_trans hbc hcd) (by simp [hmax d hd])
      · simp only [List.mem_singleton] at hd
        rw [hd]
        exact Candidate.ranksBelow_irrefl c
    next hbc =>
      refine ⟨List.mem_append_left _ hb, fun d hd => ?_⟩
      rcases List.mem_append.1 hd with hd | hd
      · exact hmax d hd
      · simp only [List.mem_singleton] at hd
        rw [hd]
        simpa using hbc

/-- Folding `pickBest` over candidates keeps the top of all candidates seen. -/
theorem topOf_foldl_pickBest (oks : List Candidate) {best : Option Candidate}
    {cs : List Candidate} (htop : TopOf best cs) :
    TopOf (oks.foldl pickBest best) (cs ++ oks) := by
  induction oks generalizing best cs with
  | nil => simpa using htop
  | cons c oks ih =>
    rw [List.foldl_cons, List.append_cons]
    exact ih (htop.pickBest c)

/-- A voter that knows no live master elected last judges a proposal by itself: it takes itself or
a candidate good enough against its own. -/
theorem isLegitimate_of_no_live_master {cfg : ElectionConfig} {p : Progress} {voter : Elections}
    (hnone : ∀ srv ∈ voter.servers, srv.isAlive = true →
      voter.lastElected = some srv.instanceId → srv.state ≠ .master) (c : Candidate) :
    isLegitimate cfg p voter c =
      (c.instanceId == cfg.node.instanceId || Candidate.goodEnough c (ownCandidate cfg p)) := by
  have hfind : voter.servers.find? (fun srv =>
      srv.isAlive && voter.lastElected == some srv.instanceId && srv.state == .master) = none := by
    rw [List.find?_eq_none]
    intro srv hsrv
    simpa using hnone srv hsrv
  simp only [isLegitimate, hfind]

/-- A leader that knows no master elected last and heard from some candidates proposes one that
ranks above or level with each of them. If they all have one priority, every voter whose answer
the leader counted, and that knows no live master elected last, takes the proposal as it arrives
(with the priority dropped) as legitimate. -/
theorem bestCandidate_ranks_first_and_is_legitimate (s : Elections)
    (hlast : s.lastElected = none) (hne : s.prepareOks ≠ []) :
    ∃ b ∈ s.prepareOks, bestCandidate s = some b ∧
      (∀ c ∈ s.prepareOks, c.ranksBelow b = true ∨ c.rank = b.rank) ∧
      ((∀ c ∈ s.prepareOks, ∀ d ∈ s.prepareOks,
          c.progress.nodePriority = d.progress.nodePriority) →
        ∀ (cfg : ElectionConfig) (p : Progress) (voter : Elections),
          (∀ srv ∈ voter.servers, srv.isAlive = true →
            voter.lastElected = some srv.instanceId → srv.state ≠ .master) →
          ownCandidate cfg p ∈ s.prepareOks →
          isLegitimate cfg p voter
            ⟨b.instanceId, b.internalTcp, { b.progress with nodePriority := 0 }⟩ = true) := by
  have htop : TopOf (s.prepareOks.foldl pickBest none) ([] ++ s.prepareOks) :=
    topOf_foldl_pickBest s.prepareOks rfl
  rw [List.nil_append, ← bestCandidate_of_lastElected_none hlast] at htop
  cases hbest : bestCandidate s with
  | none =>
    rw [hbest] at htop
    exact absurd htop hne
  | some b =>
    rw [hbest] at htop
    obtain ⟨hb, hmax⟩ := htop
    refine ⟨b, hb, rfl, fun c hc => ?_, fun hprio cfg p voter hnone hown => ?_⟩
    · rcases Candidate.ranksBelow_total c b with h | h | h
      · exact .inl h
      · exact .inr h
      · simp [hmax c hc] at h
    · rw [isLegitimate_of_no_live_master hnone, Candidate.goodEnough_withPriority,
        Candidate.goodEnough_of_not_ranksBelow (hprio _ hown _ hb) (hmax _ hown), Bool.or_true]

/-- Node 1 leads, knows no master elected last, and heard from itself and from node 2, whose writer
checkpoint is further along; both have priority zero. -/
def leaderHeardTwo : Elections :=
  { init nodeOne {} 0 with
    phase := .leader
    prepareOks := [ownCandidate nodeOne {},
      ⟨⟨2⟩, SocketAddr.loopback 1002, ⟨-1, -1, ⟨0⟩, -1, 100, 0, 0⟩⟩] }

/-- Node 1, leading with the answers of itself and node 2, proposes a candidate that ranks first
and that node 1 itself, as a voter, takes as legitimate. -/
theorem best_of_two_answers_is_legitimate :
    leaderHeardTwo.lastElected = none ∧ leaderHeardTwo.prepareOks ≠ [] ∧
      ∃ b ∈ leaderHeardTwo.prepareOks, bestCandidate leaderHeardTwo = some b ∧
        (∀ c ∈ leaderHeardTwo.prepareOks, c.ranksBelow b = true ∨ c.rank = b.rank) ∧
        ((∀ c ∈ leaderHeardTwo.prepareOks, ∀ d ∈ leaderHeardTwo.prepareOks,
            c.progress.nodePriority = d.progress.nodePriority) →
          ∀ (cfg : ElectionConfig) (p : Progress) (voter : Elections),
            (∀ srv ∈ voter.servers, srv.isAlive = true →
              voter.lastElected = some srv.instanceId → srv.state ≠ .master) →
            ownCandidate cfg p ∈ leaderHeardTwo.prepareOks →
            isLegitimate cfg p voter
              ⟨b.instanceId, b.internalTcp, { b.progress with nodePriority := 0 }⟩ = true) :=
  ⟨rfl, List.cons_ne_nil _ _,
    bestCandidate_ranks_first_and_is_legitimate leaderHeardTwo rfl (List.cons_ne_nil _ _)⟩

end Elections

end EventStore
