import Mathlib.Data.List.Chain
import EventStore.Proofs.Store.ScavengedReads

/-!
# Epoch histories in the log

An epoch record names the position of the epoch before it, so the epochs of a log, read back
from the newest, form a history: oldest first, each later epoch linking back to the one before it
with a larger number at a later position, and the first linking to none (`EpochChain`). A node
caches the newest epochs of the history that ends at its newest epoch. Lookups answer from the
cache and, for older epochs, walk the links back through the log.

This module reads histories back from a laid-out log. The records of a layout stand one after
another (`Layout.records_ordered`), so an epoch is read back at its position
(`Layout.returns_readEpochAt`) and one history ends at each epoch (`EpochChain.eq_of_getLast?`).
Each walk of the epoch bookkeeping stops where the history does: following links for a number
of epochs (`returns_epochChain`), looking for a number (`returns_findEpochBack`), for the first
epoch past a number (`returns_epochAfterBack`), and scanning the log (`returns_scanEpochs`). The
walks have fuel for as many records as the log below the writer checkpoint can hold, and every
history below that checkpoint fits it (`EpochChain.length_lt_recordBound`).

Main statement: `CachesHistory.lookups`. When the cache is the newest part of a history of the
log below the writer checkpoint, the lookup of an epoch by its number, of the epoch after a
number, and of whether an epoch is known answer as that history does.
-/

namespace EventStore

open Store Record

namespace Runs

variable {σ ε δ α : Type} {m : ExceptT (Fault ε) (StateM σ) α} {s s' : σ} {v : α}

/-- A run that returns still returns once its failures are reported as failures of a wider
kind. -/
theorem wrap (f : ε → δ) (h : Runs m s v s') : Runs (ExceptT.wrap f m) s v s' := by
  unfold Runs at h ⊢
  simp only [ExceptT.wrap, ExceptT.run_adapt, StateT.run_map, h]
  rfl

theorem map {β : Type} (f : α → β) (h : Runs m s v s') : Runs (f <$> m) s (f v) s' := by
  unfold Runs at h ⊢
  simp only [ExceptT.run_map, StateT.run_map, h]
  rfl

/-- A run that starts with a read-only action goes on from the same state with the value the action
returns there. -/
theorem bind_returns {β : Type} {f : α → ExceptT (Fault ε) (StateM σ) β} {w : β} (hm : ReadOnly m)
    (hv : Returns m s v) (h : Runs (m >>= f) s w s') : Runs (f v) s w s' := by
  obtain ⟨v', s₁, h₁, h₂⟩ := h.bind_inv
  obtain ⟨hs₁, hv'⟩ := Runs.returns hm h₁
  subst s₁
  obtain rfl := hv'.unique hv
  exact h₂

end Runs

theorem Returns.pure {σ ε α : Type} (v : α) (s : σ) :
    Returns (Pure.pure v : ExceptT (Fault ε) (StateM σ) α) s v :=
  rfl

/-! ## Records of a layout -/

namespace Layout

variable {s : Store} {plan : List (List Record)}

/-- The records of a layout stand one after another, each frame ending before the next record
starts, from the start of the log on. -/
theorem records_ordered (hl : Layout s plan) :
    plan.flatten.Pairwise (fun r r' => r.logPosition + (r.framed.length : Int) ≤ r'.logPosition) ∧
      ∀ r ∈ plan.flatten, 0 ≤ r.logPosition := by
  have hstart : After s.db.config.chunkSize plan 0 plan.flatten :=
    .inr ⟨0, Nat.zero_le _, by simp, by simp⟩
  simpa using After.chain hl hstart

/-- A record of a layout stands where its chunk's frames before it end. -/
theorem position_of_mem (hl : Layout s plan) {i : Nat} {pre post : List Record} {r : Record}
    (hi : plan[i]? = some (pre ++ r :: post)) :
    r.logPosition = ((i * s.db.config.chunkSize + (frames pre).length : Nat) : Int) := by
  obtain ⟨hlt, hp⟩ := List.getElem?_eq_some_iff.1 hi
  have hh := hl.laid.holds i (hl.laid.length ▸ hlt) hlt
  rw [hp] at hh
  rw [hh.placed.split.1]
  push_cast
  rfl

/-- Two records of a layout at one position are one record. -/
theorem eq_of_logPosition (hl : Layout s plan) {r r' : Record} (hr : r ∈ plan.flatten)
    (hr' : r' ∈ plan.flatten) (h : r.logPosition = r'.logPosition) : r = r' := by
  obtain ⟨i, hi, rfl⟩ := List.mem_iff_getElem.1 hr
  obtain ⟨j, hj, rfl⟩ := List.mem_iff_getElem.1 hr'
  have hpair := List.pairwise_iff_getElem.1 hl.records_ordered.1
  -- records at two places of the log are a frame apart
  rcases Nat.lt_trichotomy i j with hij | rfl | hji
  · have := hpair i j hi hj hij
    have := length_framed_pos plan.flatten[i]
    omega
  · rfl
  · have := hpair j i hj hi hji
    have := length_framed_pos plan.flatten[j]
    omega

/-- A record of a layout is read back at its position. -/
theorem returns_readRecordAt (hl : Layout s plan) (hn : s.db.chunks.length < Nat.pow 2 32)
    {r : Record} (hr : r ∈ plan.flatten) : Returns (readRecordAt r.logPosition) s r := by
  obtain ⟨rs, hrs, hr⟩ := List.mem_flatten.1 hr
  obtain ⟨i, hi, rfl⟩ := List.mem_iff_getElem.1 hrs
  obtain ⟨pre, post, hsplit⟩ := List.append_of_mem hr
  have hget : plan[i]? = some (pre ++ r :: post) := by rw [← hsplit]; simp
  have hpos := hl.position_of_mem hget
  have hafter : After s.db.config.chunkSize plan r.logPosition
      ((r :: post) ++ (plan.drop (i + 1)).flatten) := .inl ⟨i, pre, r :: post, hget, hpos, rfl⟩
  unfold readRecordAt
  refine Returns.bind (hafter.returns_readForward hl hn) ?_
  simp only [List.cons_append, List.head?_cons, Option.map_some, Record.entry, if_pos]
  exact Runs.pure _ _

end Layout

/-! ## Epochs in the log -/

/-- The log of `plan` holds the epoch `e` at the epoch's position: a record of the log stands
there and carries `e`. -/
def Logged (plan : List (List Record)) (e : Epoch) : Prop :=
  ∃ r ∈ plan.flatten, r.logPosition = e.epochPosition ∧ r.epoch? = some e

namespace Logged

variable {plan : List (List Record)} {e e' : Epoch}

/-- A record added to a log leaves every epoch where it was. -/
theorem append (h : Logged plan e) {plan' : List (List Record)} {added : List Record}
    (hplan : plan'.flatten = plan.flatten ++ added) : Logged plan' e := by
  obtain ⟨r, hr, hpos, hep⟩ := h
  exact ⟨r, by rw [hplan]; exact List.mem_append_left _ hr, hpos, hep⟩

variable {s : Store}

/-- An epoch of a layout stands at a position of the log. -/
theorem nonneg (hl : Layout s plan) (h : Logged plan e) : 0 ≤ e.epochPosition := by
  obtain ⟨r, hr, hpos, -⟩ := h
  exact hpos ▸ hl.records_ordered.2 r hr

/-- One epoch stands at each position of a layout. -/
theorem unique (hl : Layout s plan) (h : Logged plan e) (h' : Logged plan e')
    (hpos : e.epochPosition = e'.epochPosition) : e = e' := by
  obtain ⟨r, hr, hp, he⟩ := h
  obtain ⟨r', hr', hp', he'⟩ := h'
  obtain rfl := hl.eq_of_logPosition hr hr' (by rw [hp, hp', hpos])
  exact Option.some.inj (he.symm.trans he')

/-- Epochs at two positions of a layout stand at least a frame apart. -/
theorem spaced (hl : Layout s plan) (h : Logged plan e) (h' : Logged plan e')
    (hlt : e.epochPosition < e'.epochPosition) :
    e.epochPosition + frameOverhead ≤ e'.epochPosition := by
  obtain ⟨r, hr, hp, -⟩ := h
  obtain ⟨r', hr', hp', -⟩ := h'
  obtain ⟨i, hi, rfl⟩ := List.mem_iff_getElem.1 hr
  obtain ⟨j, hj, rfl⟩ := List.mem_iff_getElem.1 hr'
  have hpair := List.pairwise_iff_getElem.1 hl.records_ordered.1
  have hfr := length_framed plan.flatten[i]
  rcases Nat.lt_or_ge i j with hij | hji
  · have := hpair i j hi hj hij
    omega
  · rcases Nat.lt_or_eq_of_le hji with hji | rfl
    · have := hpair j i hj hi hji
      have := length_framed_pos plan.flatten[j]
      omega
    · omega

/-- A logged epoch is read back at its position. -/
theorem returns_readEpochAt (hl : Layout s plan) (hn : s.db.chunks.length < Nat.pow 2 32)
    (h : Logged plan e) : Returns (readEpochAt e.epochPosition) s e := by
  obtain ⟨r, hr, hpos, hep⟩ := h
  unfold readEpochAt
  rw [← hpos]
  refine Returns.bind (Runs.wrap _ (hl.returns_readRecordAt hn hr)) ?_
  simp only [hep]
  exact Runs.pure _ _

end Logged

/-! ## Epoch histories -/

/-- `e'` comes right after `e` in an epoch history: it links back to `e`, with a larger number,
at a later position. -/
structure Epoch.Follows (e e' : Epoch) : Prop where
  link : e'.prevEpochPosition = e.epochPosition
  number : e.epochNumber < e'.epochNumber
  position : e.epochPosition < e'.epochPosition

/-- An epoch history of the log of `plan`, oldest first: every epoch of it is logged, the first
links to no earlier epoch, and each later one follows the one before it. -/
structure EpochChain (plan : List (List Record)) (es : List Epoch) : Prop where
  logged : ∀ e ∈ es, Logged plan e
  first : ∀ e ∈ es.head?, e.prevEpochPosition < 0
  linked : es.IsChain Epoch.Follows

/-- Following epoch links back from `p` reaches the history `es`: its newest epoch stands at `p`,
or it is empty and `p` is no position. -/
def Reaches (p : Int) (es : List Epoch) : Prop :=
  es.getLast?.elim (p < 0) (·.epochPosition = p)

namespace EpochChain

variable {plan : List (List Record)} {es es' rest : List Epoch} {x : Epoch}

theorem nil : EpochChain plan [] := ⟨nofun, nofun, .nil⟩

/-- The older part of a history is a history. -/
theorem of_append (h : EpochChain plan (es ++ rest)) : EpochChain plan es where
  logged e he := h.logged e (List.mem_append_left _ he)
  first e he := by
    cases es with
    | nil => cases he
    | cons a es => exact h.first e he
  linked := h.linked.left_of_append

/-- A history ending at `x` is a history before it, `x` logged, and `x` linking to none when it
stands alone, or following the newest epoch before it. -/
theorem concat_inv (h : EpochChain plan (es ++ [x])) :
    EpochChain plan es ∧ Logged plan x ∧ (es = [] → x.prevEpochPosition < 0) ∧
      ∀ l ∈ es.getLast?, Epoch.Follows l x := by
  refine ⟨h.of_append, h.logged x (by simp), fun hes => ?_, fun l hl => ?_⟩
  · subst hes
    exact h.first x rfl
  · exact (List.isChain_append.1 h.linked).2.2 l hl x rfl

/-- A history extended by an epoch of the log that follows its newest epoch, or that links to
none if the history is empty. -/
theorem concat (h : EpochChain plan es) (hx : Logged plan x) (hfirst : es = [] → x.prevEpochPosition < 0)
    (hfollows : ∀ l ∈ es.getLast?, Epoch.Follows l x) : EpochChain plan (es ++ [x]) where
  logged e he := by
    rcases List.mem_append.1 he with he | he
    · exact h.logged e he
    · obtain rfl := List.mem_singleton.1 he
      exact hx
  first e he := by
    cases es with
    | nil => exact (Option.some.inj he) ▸ hfirst rfl
    | cons a es => exact h.first e he
  linked := h.linked.append (List.isChain_singleton x) fun l hl y hy => by
    obtain rfl := Option.some.inj hy
    exact hfollows l hl

/-- Walking back from the newest epoch's link reaches the rest of the history. -/
theorem reaches_prev (h : EpochChain plan (es ++ [x])) : Reaches x.prevEpochPosition es := by
  obtain ⟨-, -, hfirst, hfollows⟩ := h.concat_inv
  induction es using List.reverseRecOn with
  | nil => exact hfirst rfl
  | append_singleton es l _ =>
    simp only [Reaches, List.getLast?_append, List.getLast?_singleton, Option.some_or,
      Option.elim_some]
    exact (hfollows l (by simp)).link.symm

/-- Numbers rise along a history. -/
theorem pairwise_number (h : EpochChain plan es) :
    es.Pairwise (fun e e' => e.epochNumber < e'.epochNumber) := by
  have hmap := List.isChain_map_of_isChain (S := (· < ·)) Epoch.epochNumber
    (fun _ _ hf => hf.number) h.linked
  exact List.pairwise_map.1 (List.isChain_iff_pairwise.1 hmap)

/-- Positions rise along a history. -/
theorem pairwise_position (h : EpochChain plan es) :
    es.Pairwise (fun e e' => e.epochPosition < e'.epochPosition) := by
  have hmap := List.isChain_map_of_isChain (S := (· < ·)) Epoch.epochPosition
    (fun _ _ hf => hf.position) h.linked
  exact List.pairwise_map.1 (List.isChain_iff_pairwise.1 hmap)

variable {s : Store}

/-- Two histories of a layout that walking back from one position reaches are one history: the
links back fix every epoch. -/
theorem eq_of_reaches (hl : Layout s plan) {p : Int} (h : EpochChain plan es)
    (h' : EpochChain plan es') (hr : Reaches p es) (hr' : Reaches p es') : es = es' := by
  -- induction on the first history from its newest end
  induction es using List.reverseRecOn generalizing p es' with
  | nil =>
    induction es' using List.reverseRecOn with
    | nil => rfl
    | append_singleton es' y _ =>
      have hy := (h'.logged y (by simp)).nonneg hl
      simp only [Reaches, List.getLast?_nil, Option.elim_none, List.getLast?_append,
        List.getLast?_singleton, Option.some_or, Option.elim_some] at hr hr'
      omega
  | append_singleton es x ih =>
    induction es' using List.reverseRecOn with
    | nil =>
      have hx := (h.logged x (by simp)).nonneg hl
      simp only [Reaches, List.getLast?_nil, Option.elim_none, List.getLast?_append,
        List.getLast?_singleton, Option.some_or, Option.elim_some] at hr hr'
      omega
    | append_singleton es' y _ =>
      simp only [Reaches, List.getLast?_append, List.getLast?_singleton, Option.some_or,
        Option.elim_some] at hr hr'
      obtain rfl := (h.logged x (by simp)).unique hl (h'.logged y (by simp)) (hr.trans hr'.symm)
      rw [ih h.concat_inv.1 h'.concat_inv.1 h.reaches_prev h'.reaches_prev]

/-- One history of a layout ends at each epoch. -/
theorem eq_of_getLast? (hl : Layout s plan) (h : EpochChain plan es) (h' : EpochChain plan es')
    (hlast : es.getLast? = es'.getLast?) : es = es' := by
  rcases hx : es.getLast? with _ | x
  · rw [hx] at hlast
    rw [List.getLast?_eq_none_iff.1 hx, List.getLast?_eq_none_iff.1 hlast.symm]
  · rw [hx] at hlast
    exact h.eq_of_reaches hl h' (p := x.epochPosition) (by simp [Reaches, hx])
      (by simp [Reaches, ← hlast])

end EpochChain

/-! ## The newest part of a list, and rising lists -/

namespace Store

variable {α : Type}

@[simp] theorem keepNewest_nil (n : Nat) : keepNewest n ([] : List α) = [] := by
  simp [keepNewest]

@[simp] theorem keepNewest_zero (l : List α) : keepNewest 0 l = [] := by
  simp [keepNewest]

theorem keepNewest_suffix (n : Nat) (l : List α) : keepNewest n l <:+ l := List.drop_suffix _ _

theorem length_keepNewest_le (n : Nat) (l : List α) : (keepNewest n l).length ≤ n := by
  simp only [keepNewest, List.length_drop]
  omega

theorem keepNewest_of_length_le {n : Nat} {l : List α} (h : l.length ≤ n) : keepNewest n l = l := by
  simp only [keepNewest, Nat.sub_eq_zero_of_le h, List.drop_zero]

/-- Keeping one more of a list with one more at its newest end keeps that one too. -/
theorem keepNewest_succ_concat (n : Nat) (l : List α) (x : α) :
    keepNewest (n + 1) (l ++ [x]) = keepNewest n l ++ [x] := by
  simp only [keepNewest, List.length_append, List.length_singleton, Nat.add_sub_add_right]
  exact List.drop_append_of_le_length (Nat.sub_le _ _)

/-- Keeping the newest `n` along the way keeps the newest `n` of the whole. -/
theorem keepNewest_keepNewest_append (n : Nat) (l m : List α) :
    keepNewest n (keepNewest n l ++ m) = keepNewest n (l ++ m) := by
  simp only [keepNewest, List.length_append, List.length_drop, List.drop_append, List.drop_drop]
  congr 2 <;> omega

end Store

variable {α : Type}

/-- A list rising by `f` is what lies below a bound followed by what does not. -/
theorem filter_append_filter_of_rising (f : α → Int) {l : List α}
    (h : l.Pairwise fun a b => f a < f b) (W : Int) :
    l = l.filter (fun a => f a < W) ++ l.filter (fun a => ¬ f a < W) := by
  induction l with
  | nil => rfl
  | cons a l ih =>
    obtain ⟨ha, hl⟩ := List.pairwise_cons.1 h
    by_cases haW : f a < W
    · simp only [List.filter_cons, haW, decide_true, decide_false, not_true_eq_false,
        if_true, Bool.false_eq_true, if_false, List.cons_append]
      exact congrArg (a :: ·) (ih hl)
    · -- everything after `a` lies past it, so past the bound
      have hpast : ∀ b ∈ a :: l, ¬ f b < W := fun b hb => by
        rcases List.mem_cons.1 hb with rfl | hb
        · exact haW
        · have := ha b hb
          omega
      rw [List.filter_eq_nil_iff.2 fun b hb => by simpa using hpast b hb,
        List.filter_eq_self.2 fun b hb => by simpa using hpast b hb, List.nil_append]

/-- A list of positions from zero on, each at least a frame after those before, holds at most
one position per frame below a bound, and one more. -/
theorem length_le_of_spaced (f : α → Int) {l : List α} {W : Int}
    (h : l.Pairwise fun a b => f a + frameOverhead ≤ f b) (hlo : ∀ a ∈ l, 0 ≤ f a)
    (hhi : ∀ a ∈ l, f a < W) : l.length ≤ W.toNat / frameOverhead + 1 := by
  simp only [frameOverhead] at h ⊢
  -- `k` positions from `b` on, each a frame after those before, need `k` frames from `b`
  have key : ∀ (l : List α) (b : Int), (l.Pairwise fun a b => f a + 8 ≤ f b) →
      (∀ a ∈ l, b ≤ f a) → (∀ a ∈ l, f a < W) → l ≠ [] → (l.length : Int) * 8 ≤ W - b + 7 := by
    intro l
    induction l with
    | nil => exact fun _ _ _ _ hne => absurd rfl hne
    | cons a l ih =>
      intro b h hlo hhi _
      obtain ⟨ha, hl⟩ := List.pairwise_cons.1 h
      have hab := hlo a (List.mem_cons_self ..)
      have haW := hhi a (List.mem_cons_self ..)
      by_cases hnil : l = []
      · subst hnil
        simp only [List.length_singleton]
        omega
      · have hrest := ih (f a + 8) hl ha (fun x hx => hhi x (List.mem_cons_of_mem _ hx)) hnil
        simp only [List.length_cons]
        push_cast
        omega
  by_cases hne : l = []
  · subst hne
    exact Nat.zero_le _
  · have hk := key l 0 h hlo hhi hne
    omega

/-- The epochs the records of the log of `plan` below position `W` carry, in log order. -/
def epochsBelow (plan : List (List Record)) (W : Int) : List Epoch :=
  (plan.flatten.filter (·.logPosition < W)).filterMap Record.epoch?

/-- Epochs numbered below `m` have none numbered `n` from `m` on. -/
theorem find?_number_eq_none {l : List Epoch} {m n : Int} (h : ∀ y ∈ l, y.epochNumber < m)
    (hmn : m ≤ n) : l.find? (·.epochNumber = n) = none :=
  List.find?_eq_none.2 fun y hy => by
    have := h y hy
    simp
    omega

/-- Epochs numbered at most `n` have none numbered above it. -/
theorem find?_above_eq_none {l : List Epoch} {n : Int} (h : ∀ y ∈ l, y.epochNumber ≤ n) :
    l.find? (n < ·.epochNumber) = none :=
  List.find?_eq_none.2 fun y hy => by simpa using h y hy

/-! ## Walks over a history -/

section Walks

variable {s : Store} {plan : List (List Record)} (hl : Layout s plan)
  (hn : s.db.chunks.length < Nat.pow 2 32)
include hl hn

/-- Following links back for `room` epochs from where a history is reached collects the newest
`room` epochs of the history. -/
theorem returns_epochChain (room : Nat) :
    ∀ {p : Int} {es acc : List Epoch}, EpochChain plan es → Reaches p es →
      Returns (epochChain p room acc) s (keepNewest room es ++ acc) := by
  induction room with
  | zero =>
    intro p es acc _ _
    rw [epochChain, keepNewest_zero, List.nil_append]
    exact Runs.pure _ _
  | succ room ih =>
    intro p es acc h hr
    rw [epochChain]
    induction es using List.reverseRecOn with
    | nil =>
      -- the links end
      rw [if_pos (show p < 0 from hr), keepNewest_nil, List.nil_append]
      exact Runs.pure _ _
    | append_singleton es x _ =>
      have hx := h.logged x (by simp)
      have hpos : x.epochPosition = p := by simpa [Reaches] using hr
      subst hpos
      rw [if_neg (Int.not_lt.2 (hx.nonneg hl)), keepNewest_succ_concat, List.append_assoc,
        List.singleton_append]
      exact Returns.bind (hx.returns_readEpochAt hl hn) (ih h.concat_inv.1 h.reaches_prev)

/-- Walking links back for the epoch numbered `n` finds the one epoch of the history with that
number, given fuel for every epoch of the history and one step more. -/
theorem returns_findEpochBack (n : Int) (fuel : Nat) :
    ∀ {p : Int} {es : List Epoch}, EpochChain plan es → Reaches p es → es.length < fuel →
      Returns (findEpochBack n fuel p) s (es.find? (·.epochNumber = n)) := by
  induction fuel with
  | zero => exact fun _ _ hfuel => absurd hfuel (Nat.not_lt_zero _)
  | succ fuel ih =>
    intro p es h hr hfuel
    rw [findEpochBack]
    induction es using List.reverseRecOn with
    | nil =>
      rw [if_pos (show p < 0 from hr)]
      exact Runs.pure _ _
    | append_singleton es x _ =>
      have hx := h.logged x (by simp)
      have hpos : x.epochPosition = p := by simpa [Reaches] using hr
      subst hpos
      rw [if_neg (Int.not_lt.2 (hx.nonneg hl))]
      refine Returns.bind (hx.returns_readEpochAt hl hn) ?_
      -- the epochs before `x` have smaller numbers
      have hbelow : ∀ y ∈ es, y.epochNumber < x.epochNumber := fun y hy =>
        (List.pairwise_append.1 h.pairwise_number).2.2 y hy x (by simp)
      simp only [List.find?_append, List.find?_singleton]
      by_cases heq : x.epochNumber = n
      · rw [if_pos heq, find?_number_eq_none hbelow (Int.le_of_eq heq)]
        simpa [heq] using Returns.pure (some x) s
      · by_cases hlt : x.epochNumber < n
        · rw [if_neg heq, if_pos hlt, find?_number_eq_none hbelow (Int.le_of_lt hlt)]
          simpa [heq] using Returns.pure (none : Option Epoch) s
        · rw [if_neg heq, if_neg hlt]
          have hrec := ih h.concat_inv.1 h.reaches_prev (by simp at hfuel; omega)
          simpa [heq] using hrec

/-- Walking links back from `after` while the epochs are numbered above `n` finds the first epoch
of the history up to `after` numbered above `n`. -/
theorem returns_epochAfterBack (n : Int) (fuel : Nat) :
    ∀ {es : List Epoch} {after : Epoch}, EpochChain plan (es ++ [after]) →
      n < after.epochNumber → es.length < fuel →
      Returns (epochAfterBack n fuel after.prevEpochPosition after) s
        (((es ++ [after]).find? (n < ·.epochNumber)).getD after) := by
  induction fuel with
  | zero => exact fun _ _ hfuel => absurd hfuel (Nat.not_lt_zero _)
  | succ fuel ih =>
    intro es after h hafter hfuel
    rw [epochAfterBack]
    have hr := h.reaches_prev
    induction es using List.reverseRecOn with
    | nil =>
      rw [if_pos (show after.prevEpochPosition < 0 from hr)]
      simpa [hafter] using Returns.pure after s
    | append_singleton es y _ =>
      have hy := h.concat_inv.1.logged y (by simp)
      have hpos : y.epochPosition = after.prevEpochPosition := by simpa [Reaches] using hr
      rw [← hpos, if_neg (Int.not_lt.2 (hy.nonneg hl))]
      refine Returns.bind (hy.returns_readEpochAt hl hn) ?_
      by_cases hle : y.epochNumber ≤ n
      · -- `after` is the first epoch past `n`: those before it are numbered at most `y`'s number
        have hbelow : ∀ z ∈ es, z.epochNumber < y.epochNumber := fun z hz =>
          (List.pairwise_append.1 h.concat_inv.1.pairwise_number).2.2 z hz y (by simp)
        have hnone : (es ++ [y]).find? (n < ·.epochNumber) = none :=
          find?_above_eq_none fun z hz => by
            rcases List.mem_append.1 hz with hz | hz
            · have := hbelow z hz
              omega
            · exact (List.mem_singleton.1 hz) ▸ hle
        rw [if_pos hle, List.find?_append, hnone]
        simpa [hafter] using Returns.pure after s
      · rw [if_neg hle]
        have hy' : n < y.epochNumber := by omega
        have hrec := ih h.concat_inv.1 hy' (by simp at hfuel; omega)
        have hfound : ((es ++ [y]).find? (n < ·.epochNumber)).isSome :=
          List.find?_isSome.2 ⟨y, by simp, by simpa using hy'⟩
        obtain ⟨z, hz⟩ := Option.isSome_iff_exists.1 hfound
        rw [hz] at hrec
        rw [List.find?_append, hz]
        exact hrec

end Walks

/-- Scanning the records `entries` below the writer, with fuel for each and one step more, keeps
the newest epochs of what it started with and the epochs of those records. -/
theorem returns_scanEpochs {s : Store} {W p : Int} {entries : List (Record × Int)}
    (h : Scans s W p entries) (size : Nat) :
    ∀ (fuel : Nat) (acc : List Epoch), entries.length < fuel → acc.length ≤ size →
      Returns (scanEpochs W size fuel p acc) s
        (keepNewest size (acc ++ (entries.map Prod.fst).filterMap Record.epoch?)) := by
  induction h with
  | last hr =>
    intro fuel acc hfuel hacc
    obtain _ | fuel := fuel
    · exact absurd hfuel (Nat.not_lt_zero _)
    rw [scanEpochs]
    refine Returns.bind (Runs.wrap _ hr) ?_
    simpa [keepNewest_of_length_le hacc] using Returns.pure acc s
  | beyond hr hlim =>
    intro fuel acc hfuel hacc
    obtain _ | fuel := fuel
    · exact absurd hfuel (Nat.not_lt_zero _)
    rw [scanEpochs]
    refine Returns.bind (Runs.wrap _ hr) ?_
    simpa [hlim, keepNewest_of_length_le hacc] using Returns.pure acc s
  | @next p q r es hr hlim _ ih =>
    intro fuel acc hfuel hacc
    obtain _ | fuel := fuel
    · exact absurd hfuel (Nat.not_lt_zero _)
    rw [scanEpochs]
    refine Returns.bind (Runs.wrap _ hr) ?_
    simp only [Int.not_le.2 hlim, if_false]
    cases hep : r.epoch? with
    | none =>
      simpa [hep] using ih fuel acc (by simp at hfuel; omega) hacc
    | some e =>
      have hrec := ih fuel (keepNewest size (acc ++ [e]))
        (by simp at hfuel; omega) (length_keepNewest_le _ _)
      rw [keepNewest_keepNewest_append, List.append_assoc, List.singleton_append] at hrec
      simpa [hep] using hrec

/-! ## Fuel for the walks -/

theorem returns_recordBound {ε : Type} (s : Store) :
    Returns (recordBound : StoreM ε Nat) s
      ((s.db.config.checkpoints.writer.read.toNat + s.db.config.chunkSize) / frameOverhead + 2) :=
  rfl

namespace EpochChain

variable {s : Store} {plan : List (List Record)} {es : List Epoch}

/-- A history below a position holds at most one epoch per frame below it, and one more: fewer
than the fuel of a walk below that position. -/
theorem length_lt_recordBound (hl : Layout s plan) (h : EpochChain plan es) {W : Int}
    (hW : ∀ e ∈ es, e.epochPosition < W) :
    es.length < (W.toNat + s.db.config.chunkSize) / frameOverhead + 2 := by
  have hspaced : es.Pairwise fun e e' => e.epochPosition + (frameOverhead : Int) ≤ e'.epochPosition :=
    h.pairwise_position.imp_of_mem fun he he' hlt =>
      (h.logged _ he).spaced hl (h.logged _ he') hlt
  have hle := length_le_of_spaced Epoch.epochPosition hspaced
    (fun e he => (h.logged e he).nonneg hl) hW
  have hdiv : W.toNat / frameOverhead ≤ (W.toNat + s.db.config.chunkSize) / frameOverhead :=
    Nat.div_le_div_right (Nat.le_add_right _ _)
  omega

end EpochChain

namespace Layout

variable {s : Store} {plan : List (List Record)}

/-- A scan of a layout from the start of the log, below a position, returns the records below
it. -/
theorem scans_below_from_start (hl : Layout s plan) (hn : s.db.chunks.length < Nat.pow 2 32)
    (W : Int) : Scans s W 0 ((plan.flatten.filter (·.logPosition < W)).map Record.entry) := by
  have hrising : plan.flatten.Pairwise fun r r' => r.logPosition < r'.logPosition :=
    hl.records_ordered.1.imp fun {r _} hle => by have := length_framed_pos r; omega
  have hstart : After s.db.config.chunkSize plan 0
      (plan.flatten.filter (·.logPosition < W) ++ plan.flatten.filter (¬ ·.logPosition < W)) := by
    rw [← filter_append_filter_of_rising Record.logPosition hrising W]
    exact .inr ⟨0, Nat.zero_le _, by simp, by simp⟩
  exact After.scans_below hl hn hstart (fun r hr => by simpa using (List.mem_filter.1 hr).2)
    fun r hr => by simpa using (List.mem_filter.1 hr).2

/-- Scanning a layout from the start of the log for epochs below the writer checkpoint keeps the
newest of the epochs below it. -/
theorem returns_scanEpochs_log (hl : Layout s plan) (hn : s.db.chunks.length < Nat.pow 2 32)
    (size : Nat) :
    Returns (scanEpochs s.db.config.checkpoints.writer.read size
        ((s.db.config.checkpoints.writer.read.toNat + s.db.config.chunkSize) / frameOverhead + 2)
        0 [])
      s (keepNewest size (epochsBelow plan s.db.config.checkpoints.writer.read)) := by
  set W := s.db.config.checkpoints.writer.read
  -- the records below the writer checkpoint are spaced a frame apart from the start of the log
  have hspaced : (plan.flatten.filter (·.logPosition < W)).Pairwise
      fun r r' => r.logPosition + (frameOverhead : Int) ≤ r'.logPosition :=
    (hl.records_ordered.1.imp fun {r _} hle => by have := length_framed r; omega).sublist
      List.filter_sublist
  have hle := length_le_of_spaced Record.logPosition hspaced
    (fun r hr => hl.records_ordered.2 r (List.mem_filter.1 hr).1)
    (fun r hr => by simpa using (List.mem_filter.1 hr).2)
  have hdiv : W.toNat / frameOverhead ≤ (W.toNat + s.db.config.chunkSize) / frameOverhead :=
    Nat.div_le_div_right (Nat.le_add_right _ _)
  have hscan := returns_scanEpochs (hl.scans_below_from_start hn W) size
    ((W.toNat + s.db.config.chunkSize) / frameOverhead + 2) []
    (by rw [List.length_map]; omega) (Nat.zero_le _)
  simpa [epochsBelow, List.map_map, Function.comp_def, Record.entry] using hscan

end Layout

/-! ## Lookups -/

/-- The epoch cache of `s` is the newest part of the history `hist` of the log of `plan`, and the
whole history lies below the writer checkpoint. -/
structure CachesHistory (s : Store) (plan : List (List Record)) (hist : List Epoch) : Prop where
  chain : EpochChain plan hist
  below : ∀ e ∈ hist, e.epochPosition < s.db.config.checkpoints.writer.read
  suffix : s.epochs.epochs <:+ hist

/-- In a list of distinct numbers, the one entry with a number carries an identifier exactly when
some entry has both. -/
theorem any_find?_number {l : List Epoch} (h : l.Pairwise fun e e' => e.epochNumber < e'.epochNumber)
    (n : Int) (id : Uuid) :
    (l.find? (·.epochNumber = n)).any (·.epochId = id) =
      l.any fun e => e.epochNumber = n ∧ e.epochId = id := by
  induction l with
  | nil => rfl
  | cons a l ih =>
    obtain ⟨ha, hl⟩ := List.pairwise_cons.1 h
    by_cases han : a.epochNumber = n
    · -- the later entries have larger numbers
      have hnone : (l.any fun e => e.epochNumber = n ∧ e.epochId = id) = false :=
        List.any_eq_false.2 fun e he => by have := ha e he; simp; omega
      rw [List.any_cons, hnone, Bool.or_false]
      simp [han]
    · simp [han, ih hl]

namespace CachesHistory

/-- The history up to the oldest cached epoch is a history, short enough for a walk back from the
oldest cached epoch with the fuel the lookups give it. -/
theorem up_to_oldest {s : Store} {plan : List (List Record)} (hl : Layout s plan)
    {older rest : List Epoch} {oldest : Epoch} (hc : CachesHistory s plan (older ++ s.epochs.epochs))
    (hhead : s.epochs.epochs = oldest :: rest) :
    EpochChain plan (older ++ [oldest]) ∧ older.length <
      (s.db.config.checkpoints.writer.read.toNat + s.db.config.chunkSize) / frameOverhead + 2 := by
  have hfuel := hc.chain.length_lt_recordBound hl hc.below
  have hchain := hc.chain
  rw [hhead] at hchain hfuel
  refine ⟨(show EpochChain plan ((older ++ [oldest]) ++ rest) by simpa using hchain).of_append, ?_⟩
  simp only [List.length_append, List.length_cons] at hfuel
  omega

variable {s : Store} {plan : List (List Record)} {hist : List Epoch} (hl : Layout s plan)
  (hn : s.db.chunks.length < Nat.pow 2 32) (hc : CachesHistory s plan hist)
  (hlast : hist.getLast? = s.epochs.epochs.getLast?)
include hl hn hc hlast

/-- The epoch numbered `n` is the one of the history: from the cache when it is there, from the
log when it is older than the cache, and none otherwise. -/
theorem returns_epochNumbered (n : Int) :
    Returns (epochNumbered n) s (hist.find? (·.epochNumber = n)) := by
  obtain ⟨older, rfl⟩ := hc.suffix
  obtain ⟨-, -, hcross⟩ := List.pairwise_append.1 hc.chain.pairwise_number
  unfold epochNumbered
  refine Returns.bind (Returns.pure s.epochs.epochs s) ?_
  rw [List.find?_append]
  rcases hfind : s.epochs.epochs.find? (·.epochNumber = n) with _ | e
  · simp only [hfind, Option.or_none]
    rcases hhead : s.epochs.epochs with _ | ⟨oldest, rest⟩
    · -- nothing is cached, and the history is empty
      rw [hhead, List.append_nil] at hlast
      rw [List.getLast?_eq_none_iff.1 hlast]
      exact Returns.pure _ _
    · by_cases hlt : n < oldest.epochNumber
      · -- older than the cache: the walk from the oldest cached epoch finds it
        obtain ⟨hchain, hfuel⟩ := hc.up_to_oldest hl hhead
        simp only [List.head?_cons, if_pos hlt]
        refine Returns.bind (returns_recordBound s) ?_
        exact returns_findEpochBack hl hn n _ hchain.of_append hchain.reaches_prev hfuel
      · -- no older epoch has a number as large as the oldest cached one
        have hnone := find?_number_eq_none (fun y hy => hcross y hy oldest (by simp [hhead]))
          (Int.not_lt.1 hlt)
        simp only [List.head?_cons, if_neg hlt, hnone]
        exact Returns.pure _ _
  · -- found in the cache: the older epochs have smaller numbers
    have hen : e.epochNumber = n := by simpa using List.find?_some hfind
    have hnone := find?_number_eq_none
      (fun y hy => hcross y hy e (List.mem_of_find?_eq_some hfind)) (Int.le_of_eq hen)
    simp only [hfind, hnone, Option.none_or]
    exact Returns.pure _ _

/-- The epoch after number `n` is the first of the history numbered above `n`: from the cache when
the oldest cached epoch is not above `n`, and otherwise by walking back from it. -/
theorem returns_epochAfter (n : Int) :
    Returns (epochAfter n) s (hist.find? (n < ·.epochNumber)) := by
  obtain ⟨older, rfl⟩ := hc.suffix
  obtain ⟨-, -, hcross⟩ := List.pairwise_append.1 hc.chain.pairwise_number
  unfold epochAfter
  refine Returns.bind (Returns.pure s.epochs.epochs s) ?_
  rw [List.find?_append]
  rcases hhead : s.epochs.epochs with _ | ⟨oldest, rest⟩
  · -- nothing is cached, and the history is empty
    rw [hhead, List.append_nil] at hlast
    rw [List.getLast?_eq_none_iff.1 hlast]
    exact Returns.pure _ _
  · dsimp only
    simp only [List.head?_cons, Option.all_some]
    by_cases hlt : n < oldest.epochNumber
    · -- the oldest cached epoch is past `n`: the walk back from it finds the first one
      obtain ⟨hchain, hfuel⟩ := hc.up_to_oldest hl hhead
      have hwalk := returns_epochAfterBack hl hn n
        ((s.db.config.checkpoints.writer.read.toNat + s.db.config.chunkSize) / frameOverhead + 2)
        hchain hlt hfuel
      have hfound : (oldest :: rest).find? (n < ·.epochNumber) = some oldest := by simp [hlt]
      have hfirst : (older.find? (n < ·.epochNumber)).or (some oldest) =
          some (((older ++ [oldest]).find? (n < ·.epochNumber)).getD oldest) := by
        rw [List.find?_append]
        cases older.find? (n < ·.epochNumber) <;> simp [hlt]
      simp only [hfound, Int.not_le.2 hlt, decide_false, Bool.false_eq_true, if_false, if_pos hlt,
        hfirst]
      exact Returns.bind (returns_recordBound s) (Runs.map some hwalk)
    · -- the older epochs are numbered below the oldest cached one, so at most `n`
      have hnone : older.find? (n < ·.epochNumber) = none := find?_above_eq_none fun y hy => by
        have := hcross y hy oldest (by simp [hhead])
        omega
      rcases hfind : (oldest :: rest).find? (n < ·.epochNumber) with _ | e
      · simp only [hfind, hnone, if_neg hlt, Option.or_none]
        exact Returns.pure _ _
      · simp only [hfind, Int.not_lt.1 hlt, decide_true, if_true, hnone, Option.none_or]
        exact Returns.pure _ _

/-- Whether an epoch is known is whether the history has one with that number and
identifier. -/
theorem returns_isKnownEpoch (n : Int) (id : Uuid) :
    Returns (isKnownEpoch n id) s (hist.any fun e => e.epochNumber = n ∧ e.epochId = id) := by
  unfold isKnownEpoch
  rw [← any_find?_number hc.chain.pairwise_number]
  exact Returns.bind (returns_epochNumbered hl hn hc hlast n) (Returns.pure _ _)

/-- Lookups agree with the history the cache is the newest part of. The epoch numbered `n`, the
first epoch numbered above `n`, and whether an epoch with number `n` and identifier `id` is known
are answered as the history answers them, whether the answer lies in the cache, at its oldest
entry or only in the log before it. -/
theorem lookups (n : Int) :
    Returns (epochNumbered n) s (hist.find? (·.epochNumber = n)) ∧
      Returns (epochAfter n) s (hist.find? (n < ·.epochNumber)) ∧
      ∀ id, Returns (isKnownEpoch n id) s (hist.any fun e => e.epochNumber = n ∧ e.epochId = id) :=
  ⟨hc.returns_epochNumbered hl hn hlast n, hc.returns_epochAfter hl hn hlast n,
    hc.returns_isKnownEpoch hl hn hlast n⟩

end CachesHistory

end EventStore
