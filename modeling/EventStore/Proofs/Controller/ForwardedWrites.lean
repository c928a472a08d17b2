import EventStore.Proofs.Controller.ForwardingTable

/-!
# Forwarded writes are answered once

The completion and the timeout of a forwarded write arrive in any order, any number of times and
in every state of the controller; completions and timeouts of identifiers never handed out may
arrive too. Whichever of a write's completion and timeout is handled first answers it; the table
then no longer holds the write, so every later one finds nothing and answers nothing.

Along a run, the table holds exactly the writes registered and not settled since (`Waiting`,
kept by `TableFollows.step` from the steps of `ForwardingTable`), each under an identifier of its
own, and the identifiers of registrations never repeat (`registrations_distinct`), since they
are counted up from the world. `forwarded_writes_answered_once` puts these together for every
run of a controller from construction.
-/

namespace EventStore

namespace Controller

/-! ## Writes waiting along a run -/

/-- The write forwarded under `x` with envelope `e` waits after the handled messages `pre`: one
of them registered it, and none after that settled it. -/
def Waiting (pre : List Handled) (x : Uuid) (e : Envelope) : Prop :=
  ∃ pre₁ g mid, pre = pre₁ ++ g :: mid ∧ g.registration? = some (x, e) ∧
    ∀ k ∈ mid, k.message.settles x = false

theorem not_waiting_nil (x : Uuid) (e : Envelope) : ¬ Waiting [] x e := by
  rintro ⟨pre₁, g, mid, h, -⟩
  simp at h

/-- A write waits after one more message when that message registered it, or when it waited
before and the message does not settle it. -/
theorem waiting_append_singleton {pre : List Handled} {g : Handled} {x : Uuid} {e : Envelope} :
    Waiting (pre ++ [g]) x e ↔
      g.registration? = some (x, e) ∨ (Waiting pre x e ∧ g.message.settles x = false) := by
  constructor
  · rintro ⟨pre₁, h, mid, heq, hreg, hmid⟩
    rcases List.eq_nil_or_concat mid with rfl | ⟨mid', k, rfl⟩
    · -- the registering message is the last one
      obtain ⟨-, rfl⟩ := List.append_singleton_inj.1 heq
      exact .inl hreg
    · rw [List.concat_eq_append] at hmid heq
      have heq' : pre ++ [g] = (pre₁ ++ h :: mid') ++ [k] := by simpa using heq
      obtain ⟨rfl, rfl⟩ := List.append_singleton_inj.1 heq'
      exact .inr ⟨⟨pre₁, h, mid', rfl, hreg, fun k hk => hmid k (by simp [hk])⟩,
        hmid _ (by simp)⟩
  · rintro (hreg | ⟨⟨pre₁, h, mid, rfl, hreg, hmid⟩, hg⟩)
    · exact ⟨pre, g, [], by simp, hreg, by simp⟩
    · refine ⟨pre₁, h, mid ++ [g], by simp, hreg, fun k hk => ?_⟩
      rcases List.mem_append.1 hk with hk | hk
      · exact hmid k hk
      · rw [List.mem_singleton.1 hk]
        exact hg

/-- A write that waits after a message settling it was registered again after that message. -/
theorem Waiting.registered_after {A B : List Handled} {k : Handled} {x : Uuid} {e : Envelope}
    (hw : Waiting (A ++ k :: B) x e) (hk : k.message.settles x = true) :
    ∃ g ∈ B, g.registration? = some (x, e) := by
  obtain ⟨pre₁, g, mid, heq, hreg, hmid⟩ := hw
  have hkg : k ≠ g := fun hkg => by
    rw [hkg, g.settles_of_registration hreg] at hk
    cases hk
  rcases List.append_eq_append_iff.1 heq with ⟨as, -, h⟩ | ⟨bs, -, h⟩
  · -- the registration is at `k` or after it
    rcases List.cons_eq_append_iff.1 h with ⟨-, h⟩ | ⟨as', -, rfl⟩
    · exact absurd (List.cons.inj h).1.symm hkg
    · exact ⟨g, by simp, hreg⟩
  · -- the registration is before `k`, which then settles it
    rcases List.cons_eq_append_iff.1 h with ⟨-, h⟩ | ⟨bs', -, rfl⟩
    · exact absurd (List.cons.inj h).1 hkg
    · rw [hmid k (by simp)] at hk
      cases hk

/-- The forwarding table `p`, with `f` identifiers made, follows the handled messages `pre`: it
holds exactly the writes waiting after them, each under an identifier of its own, and every
identifier they registered is below the next one to be made. -/
structure TableFollows (pre : List Handled) (p : ForwardingProxy) (f : Nat) : Prop where
  mem_iff : ∀ x e, (x, e) ∈ p.pending ↔ Waiting pre x e
  nodup : (p.pending.map (·.1)).Nodup
  below : ∀ g ∈ pre, ∀ x e, g.registration? = some (x, e) → x.value < freshIdBase + f

theorem TableFollows.empty {p : ForwardingProxy} (hp : p.pending = []) (f : Nat) :
    TableFollows [] p f where
  mem_iff x e := by simp [hp, not_waiting_nil]
  nodup := by simp [hp]
  below := by simp

/-- Every message keeps the table following the messages handled. -/
theorem TableFollows.step {pre : List Handled} {p p' : ForwardingProxy} {f f' : Nat} {g : Handled}
    (h : TableFollows pre p f) (hs : TableStep p f g p' f') : TableFollows (pre ++ [g]) p' f' := by
  cases hs with
  | register e hreg hsent =>
    -- the new identifier is above every one registered before, so the table does not hold it
    have hfresh : ∀ e', (⟨freshIdBase + f⟩, e') ∉ p.pending := by
      intro e' hm
      obtain ⟨pre₁, g₀, mid, rfl, hg₀, -⟩ := (h.mem_iff _ _).1 hm
      have := h.below g₀ (by simp) _ _ hg₀
      exact Nat.lt_irrefl _ this
    refine ⟨fun y e' => ?_, ?_, ?_⟩
    · rw [waiting_append_singleton, List.mem_append, List.mem_singleton, h.mem_iff,
        g.settles_of_registration hreg, hreg]
      simp only [Option.some.injEq, and_true]
      rw [@eq_comm _ (y, e')]
      exact Or.comm
    · rw [List.map_append, List.nodup_append]
      refine ⟨h.nodup, by simp, ?_⟩
      intro a ha b hb hab
      obtain ⟨⟨y, e'⟩, hm, rfl⟩ := List.mem_map.1 ha
      rw [List.map_singleton, List.mem_singleton] at hb
      have hy : y = ⟨freshIdBase + f⟩ := hab.trans hb
      rw [hy] at hm
      exact hfresh e' hm
    · intro g₀ hg₀ y e' hy
      rcases List.mem_append.1 hg₀ with hg₀ | hg₀
      · exact Nat.lt_succ_of_lt (h.below g₀ hg₀ y e' hy)
      · rw [List.mem_singleton.1 hg₀, hreg] at hy
        cases hy
        exact Nat.lt_succ_self _
  | settle x resp hset hsent =>
    refine ⟨fun y e' => ?_, ?_, ?_⟩
    · rw [waiting_append_singleton, Handled.registration_of_settlement hset,
        Message.settles_eq_false_iff hset, ← h.mem_iff]
      simp [ForwardingProxy.settle]
    · exact h.nodup.sublist (List.filter_sublist.map _)
    · intro g₀ hg₀ y e' hy
      rcases List.mem_append.1 hg₀ with hg₀ | hg₀
      · exact h.below g₀ hg₀ y e' hy
      · rw [List.mem_singleton.1 hg₀, Handled.registration_of_settlement hset] at hy
        cases hy
  | other hset hreg hf hsent =>
    refine ⟨fun y e' => ?_, h.nodup, ?_⟩
    · rw [waiting_append_singleton, hreg, Message.settles_of_settlement_none hset, ← h.mem_iff]
      simp
    · intro g₀ hg₀ y e' hy
      rcases List.mem_append.1 hg₀ with hg₀ | hg₀
      · exact Nat.lt_of_lt_of_le (h.below g₀ hg₀ y e' hy) (Nat.add_le_add_left hf _)
      · rw [List.mem_singleton.1 hg₀, hreg] at hy
        cases hy

/-- In a table whose identifiers are all different, an identifier has one envelope. -/
theorem eq_of_mem_of_nodup {P : List (Uuid × Envelope)} (hnd : (P.map (·.1)).Nodup) {x : Uuid}
    {e e' : Envelope} (hm : (x, e) ∈ P) (hm' : (x, e') ∈ P) : e = e' := by
  induction P with
  | nil => cases hm
  | cons a P ih =>
    rw [List.map_cons, List.nodup_cons] at hnd
    rcases List.mem_cons.1 hm with rfl | hm <;> rcases List.mem_cons.1 hm' with hm' | hm'
    · cases hm'
      rfl
    · exact absurd (List.mem_map.2 ⟨_, hm', rfl⟩) hnd.1
    · rw [← hm'] at hnd
      exact absurd (List.mem_map.2 ⟨_, hm, rfl⟩) hnd.1
    · exact ih hnd.2 hm hm'

/-- Two waiting writes under one identifier have one envelope. -/
theorem TableFollows.waiting_unique {pre : List Handled} {p : ForwardingProxy} {f : Nat}
    (h : TableFollows pre p f) {x : Uuid} {e e' : Envelope} (hw : Waiting pre x e)
    (hw' : Waiting pre x e') : e = e' :=
  eq_of_mem_of_nodup h.nodup ((h.mem_iff x e).2 hw) ((h.mem_iff x e').2 hw')

/-- Replying to `x` from a table that follows the trace reaches the one write waiting under
`x`, or nobody. -/
theorem TableFollows.replyTo_eq {pre : List Handled} {p : ForwardingProxy} {f : Nat}
    (h : TableFollows pre p f) (x : Uuid) (r : ClientResponse) :
    (∃ e, Waiting pre x e ∧ p.replyTo x r = e.replyTraffic r) ∨
      ((∀ e, ¬ Waiting pre x e) ∧ p.replyTo x r = []) := by
  unfold ForwardingProxy.replyTo
  cases hl : p.pending.lookup x with
  | some e =>
    obtain ⟨l₁, l₂, hp, -⟩ := List.lookup_eq_some_iff.1 hl
    exact .inl ⟨e, (h.mem_iff x e).1 (by rw [hp]; simp), rfl⟩
  | none =>
    refine .inr ⟨fun e hw => ?_, rfl⟩
    have hne := List.lookup_eq_none_iff.1 hl _ ((h.mem_iff x e).2 hw)
    simp at hne

/-- A message settling `x` sends the reply it calls for to the write waiting under `x`, or
nothing if none waits. -/
theorem TableFollows.settlement_sent {pre : List Handled} {p p' : ForwardingProxy} {f f' : Nat}
    {g : Handled} (h : TableFollows pre p f) (hs : TableStep p f g p' f') {x : Uuid}
    {resp : ClientResponse} (hset : g.message.settlement? = some (x, resp)) :
    (∃ e, Waiting pre x e ∧ g.sent = e.replyTraffic resp) ∨
      ((∀ e, ¬ Waiting pre x e) ∧ g.sent = []) := by
  cases hs with
  | register e hreg _ =>
    rw [g.registration_of_settlement hset] at hreg
    cases hreg
  | settle x' resp' hs' hsent =>
    rw [hset] at hs'
    cases hs'
    rw [hsent]
    exact h.replyTo_eq x resp
  | other hs' => rw [hset] at hs'; cases hs'

/-! ## Along a run -/

/-- Along every run the table follows the messages handled, when it followed those before. -/
theorem TableFollows.run {pre : List Handled} {c : Controller} {w : World} (ms : List Message)
    (h : TableFollows pre c.forwarding w.fresh) :
    TableFollows (pre ++ trace c w ms) (handleAll c w ms).1.forwarding
      (handleAll c w ms).2.fresh := by
  induction ms generalizing pre c w with
  | nil => simpa using h
  | cons m ms ih =>
    have h₁ := h.step (handle_tableStep c w m)
    rw [Controller.trace, ← List.singleton_append, ← List.append_assoc]
    exact ih h₁

/-- Every write a run registers gets an identifier counted from where the run began. -/
theorem registration_ge {c : Controller} {w : World} {ms : List Message} {g : Handled} {x : Uuid}
    {e : Envelope} (hg : g ∈ trace c w ms) (hreg : g.registration? = some (x, e)) :
    freshIdBase + w.fresh ≤ x.value := by
  induction ms generalizing c w with
  | nil => cases hg
  | cons m ms ih =>
    have hs := handle_tableStep c w m
    rcases List.mem_cons.1 hg with rfl | hg
    · have hx := hs.registration_eq hreg
      subst hx
      exact Nat.le_refl _
    · exact Nat.le_trans (Nat.add_le_add_left hs.fresh_le _) (ih hg)

/-- An entry of a trace from an empty table is one step from a table that follows the entries
before it. -/
theorem exists_tableStep_of_eq {c : Controller} {w : World} {ms : List Message}
    {pre post : List Handled} {g : Handled} (h₀ : c.forwarding.pending = [])
    (ht : trace c w ms = pre ++ g :: post) :
    ∃ p f p' f', TableFollows pre p f ∧ TableStep p f g p' f' := by
  obtain ⟨ms₁, m, ms₂, -, rfl, rfl, -⟩ := trace_eq_append_cons ht
  have h := TableFollows.run ms₁ (TableFollows.empty h₀ w.fresh)
  rw [List.nil_append] at h
  exact ⟨_, _, _, _, h, handle_tableStep _ _ m⟩

/-- No identifier is registered twice along a run from an empty table. -/
theorem registrations_distinct {c : Controller} {w : World} {ms : List Message}
    {a b : List Handled} {g : Handled} {x : Uuid} {e : Envelope} (h₀ : c.forwarding.pending = [])
    (ht : trace c w ms = a ++ g :: b) (hreg : g.registration? = some (x, e)) :
    ∀ k ∈ b, ∀ e', k.registration? ≠ some (x, e') := by
  obtain ⟨ms₁, m, ms₂, -, -, rfl, rfl⟩ := trace_eq_append_cons ht
  intro k hk e' hk'
  -- `g` got an identifier below the count after it, every later one is at or above that count
  have hbelow := (TableFollows.run (ms₁ ++ [m]) (TableFollows.empty h₀ w.fresh)).below _
    (by simp [trace_append_singleton]) x e hreg
  exact Nat.lt_irrefl _ (Nat.lt_of_lt_of_le hbelow (registration_ge hk hk'))

/-- Once a registered write is settled, a later message settling it again sends nothing. -/
theorem sent_of_settled_again {c : Controller} {w : World} {ms : List Message}
    {pre A B C : List Handled} {h k j : Handled} {x : Uuid} {e : Envelope}
    (h₀ : c.forwarding.pending = []) (ht : trace c w ms = pre ++ h :: (A ++ k :: B ++ j :: C))
    (hreg : h.registration? = some (x, e)) (hk : k.message.settles x = true)
    (hj : j.message.settles x = true) : j.sent = [] := by
  obtain ⟨resp, hset⟩ := Message.settlement_of_settles hj
  have ht' : trace c w ms = (pre ++ h :: A ++ k :: B) ++ j :: C := by simp [ht]
  obtain ⟨p, f, p', f', hf, hs⟩ := exists_tableStep_of_eq h₀ ht'
  rcases hf.settlement_sent hs hset with ⟨e', hw, -⟩ | ⟨-, hsent⟩
  · -- waiting still after `k` settled it takes a second registration of `x` after `h`
    obtain ⟨g, hg, hreg'⟩ := Waiting.registered_after hw hk
    exact absurd hreg' (registrations_distinct h₀ ht hreg g (by simp [hg]) e')
  · exact hsent

/-- A registered write that a later message settles is answered exactly once: by the first
message settling it, with the reply that message calls for. -/
theorem answered_once_of_settled {c : Controller} {w : World} {ms : List Message}
    {pre rest : List Handled} {h : Handled} {x : Uuid} {e : Envelope}
    (h₀ : c.forwarding.pending = []) (ht : trace c w ms = pre ++ h :: rest)
    (hreg : h.registration? = some (x, e)) (hk : ∃ k ∈ rest, k.message.settles x = true) :
    ∃ resp, (rest.find? (·.message.settles x)).bind (·.message.settlement?) = some (x, resp) ∧
      (rest.filter (·.message.settles x)).flatMap (·.sent) = e.replyTraffic resp ∧
      (e.replyTraffic resp).length = 1 := by
  obtain ⟨k, hfind⟩ := Option.isSome_iff_exists.1 (List.find?_isSome.2 hk)
  obtain ⟨hk, mid, post, hrest, hmid⟩ := List.find?_eq_some_iff_append.1 hfind
  obtain ⟨resp, hset⟩ := Message.settlement_of_settles hk
  refine ⟨resp, by rw [hfind, Option.bind_some, hset], ?_,
    Message.length_replyTraffic_of_settlement hset e⟩
  -- the first message settling `x` finds `h`'s write waiting and answers it
  have hw : Waiting (pre ++ h :: mid) x e :=
    ⟨pre, h, mid, rfl, hreg, fun j hj => by simpa using hmid j hj⟩
  have ht' : trace c w ms = (pre ++ h :: mid) ++ k :: post := by simp [ht, hrest]
  obtain ⟨p, f, p', f', hf, hs⟩ := exists_tableStep_of_eq h₀ ht'
  have hsent : k.sent = e.replyTraffic resp := by
    rcases hf.settlement_sent hs hset with ⟨e', hw', hsent⟩ | ⟨hnw, -⟩
    · rw [hsent, hf.waiting_unique hw' hw]
    · exact absurd hw (hnw e)
  -- every later message settling it finds nothing
  have hlater : ∀ j ∈ post.filter (·.message.settles x), j.sent = [] := by
    intro j hj
    rw [List.mem_filter] at hj
    obtain ⟨B, C, rfl⟩ := List.append_of_mem hj.1
    have htj : trace c w ms = pre ++ h :: (mid ++ k :: B ++ j :: C) := by simp [ht, hrest]
    exact sent_of_settled_again h₀ htj hreg hk hj.2
  have hnone : mid.filter (·.message.settles x) = [] :=
    List.filter_eq_nil_iff.2 fun j hj => by simpa using hmid j hj
  rw [hrest, List.filter_append, hnone, List.filter_cons_of_pos (p := fun j : Handled => j.message.settles x) hk,
    List.nil_append,
    List.flatMap_cons, hsent, List.flatMap_eq_nil_iff.2 hlater, List.append_nil]

/-- Forwarded writes are answered exactly once. Along every run of a controller from
construction, with identifiers drawn fresh from the world:
* a client write gets at most one answer from the controller itself, and none when it is
  forwarded;
* a completion or a timeout of `x` answers the write waiting under `x` with the reply it calls
  for, and sends nothing if none waits;
* a forwarded write whose timeout is handled later is answered exactly once, by the first
  completion or timeout carrying its identifier, with the reply that one calls for;
* every other message sends nothing. -/
theorem forwarded_writes_answered_once (info : NodeInfo) (timeouts : ControllerTimeouts)
    (w : World) (ms : List Message) :
    (∀ g ∈ trace { info, timeouts } w ms, ∀ cid rm evs e,
        g.message = .client (.writeEvents cid rm evs e) →
        g.sent = [] ∨ g.registration? = none ∧ ∃ resp, g.sent = e.replyTraffic resp) ∧
    (∀ pre g post x resp, trace { info, timeouts } w ms = pre ++ g :: post →
        g.message.settlement? = some (x, resp) →
        (∃ e, Waiting pre x e ∧ g.sent = e.replyTraffic resp) ∨
          ((∀ e, ¬ Waiting pre x e) ∧ g.sent = [])) ∧
    (∀ pre h rest x e, trace { info, timeouts } w ms = pre ++ h :: rest →
        h.registration? = some (x, e) →
        Message.client (.forwardingTimeout x) ∈ rest.map (·.message) →
        ∃ resp, (rest.find? (·.message.settles x)).bind (·.message.settlement?) = some (x, resp) ∧
          (rest.filter (·.message.settles x)).flatMap (·.sent) = e.replyTraffic resp ∧
          (e.replyTraffic resp).length = 1) ∧
    (∀ g ∈ trace { info, timeouts } w ms, g.message.settlement? = none →
        (∀ cid rm evs e, g.message ≠ .client (.writeEvents cid rm evs e)) → g.sent = []) := by
  have h₀ : ({ info, timeouts } : Controller).forwarding.pending = [] := rfl
  refine ⟨fun g hg cid rm evs e hm => ?_, fun pre g post x resp ht hset => ?_,
    fun pre h rest x e ht hreg hto => ?_, fun g hg hset hw => ?_⟩
  · obtain ⟨pre, post, ht⟩ := List.append_of_mem hg
    obtain ⟨p, f, p', f', -, hs⟩ := exists_tableStep_of_eq h₀ ht
    exact hs.writeEvents_sent hm
  · obtain ⟨p, f, p', f', hf, hs⟩ := exists_tableStep_of_eq h₀ ht
    exact hf.settlement_sent hs hset
  · -- the timeout of `x` is a message after the registration settling it
    obtain ⟨k, hk, hkm⟩ := List.mem_map.1 hto
    have hks : k.message.settles x = true := by
      simp [hkm, Message.settles, Message.settlement?]
    exact answered_once_of_settled h₀ ht hreg ⟨k, hk, hks⟩
  · obtain ⟨pre, post, ht⟩ := List.append_of_mem hg
    obtain ⟨p, f, p', f', -, hs⟩ := exists_tableStep_of_eq h₀ ht
    exact hs.sent_of_other hset hw

/-- A write forwarded by a replica and timed out twice: the first timeout answers it, the second
finds nothing. -/
example : (trace { info := default } {} [.system .systemInit,
    .system (.serviceInitialized "StorageWriter"), .system (.serviceInitialized "StorageChaser"),
    .election (.electionsDone 0 { (default : Member) with instanceId := ⟨3⟩ }),
    .client (.writeEvents ⟨7⟩ false [] (.client 1)), .client (.forwardingTimeout ⟨freshIdBase + 3⟩),
    .client (.forwardingTimeout ⟨freshIdBase + 3⟩)]).map (·.sent.length) = [0, 0, 0, 0, 0, 1, 0] := by
  decide

end Controller

end EventStore
