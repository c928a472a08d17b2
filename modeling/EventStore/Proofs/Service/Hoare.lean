import EventStore.Proofs.Service.Writer

/-!
# Hoare triples for service actions

A service action (`ActorM`) runs on the node's store, the service's own state and its outbox, and
may fail; a failure keeps the changes made before it. `Actor.Spec P x Q F` says what an action does
to the service's own state: started where `P` holds, it returns `v` in a state where `Q v` holds,
or fails in a state where `F` holds. Store and world are left free, so a triple holds whatever the
node's other services did to them between steps.

There is one rule per primitive action, one for binding, one for loops over lists and one each for
catching and re-wrapping failures; the specification of a compound action is assembled from those
of the actions it calls. `Actor.Keeps P x` is the frame case, where `P` holds throughout.
-/

namespace EventStore

namespace Actor

variable {σ ε δ α β γ : Type}

/-- How a run ended: with a value in a state where `Q` holds of it, or with a failure in a state
where `F` holds. -/
def Ends (Q : α → σ → Prop) (F : σ → Prop) : Except (Fault ε) α × Actor σ → Prop
  | (.ok v, a) => Q v a.self
  | (.error _, a) => F a.self

/-- From a service state where `P` holds, `x` returns `v` in a state where `Q v` holds or fails in
a state where `F` holds. -/
def Spec (P : σ → Prop) (x : ActorM σ ε α) (Q : α → σ → Prop) (F : σ → Prop) : Prop :=
  ∀ a : Actor σ, P a.self → Ends Q F (x.run.run a)

/-- `x` keeps `P` of the service's state, whether it returns or fails. -/
def Keeps (P : σ → Prop) (x : ActorM σ ε α) : Prop := Spec P x (fun _ => P) P

/-- A store action that cannot fail. -/
def Total (m : StoreM ε α) : Prop := ∀ st, ∃ v st', (ExceptT.run m).run st = (.ok v, st')

/-- Running a store action in a service: the store moves, the service's state stays. -/
theorem onStore_run (m : StoreM ε α) (a : Actor σ) :
    (onStore m : ActorM σ ε α).run.run a =
      (((ExceptT.run m).run a.store).1, { a with store := ((ExceptT.run m).run a.store).2 }) :=
  rfl

theorem tryCatch_run (x : ActorM σ ε α) (h : Fault ε → ActorM σ ε α) (a : Actor σ) :
    (MonadExcept.tryCatch x h : ActorM σ ε α).run.run a =
      match x.run.run a with
      | (.ok v, a') => (.ok v, a')
      | (.error e, a') => (h e).run.run a' := by
  show (ExceptT.tryCatch x h).run.run a = _
  simp only [ExceptT.tryCatch, ExceptT.run_mk, StateT.run_bind]
  rcases hr : x.run.run a with ⟨_ | v, a'⟩
  · rw [show StateT.run x a = _ from hr]; rfl
  · rw [show StateT.run x a = _ from hr]; rfl

theorem wrap_run (f : ε → δ) (x : ActorM σ ε α) (a : Actor σ) :
    (ExceptT.wrap f x).run.run a =
      match x.run.run a with
      | (.ok v, a') => (.ok v, a')
      | (.error e, a') => (.error (e.map f), a') := by
  simp only [ExceptT.wrap, ExceptT.run_adapt, StateT.run_map]
  rcases x.run.run a with ⟨_ | v, a'⟩
  · rfl
  · rfl

namespace Spec

variable {P P' R : σ → Prop} {Q Q' : α → σ → Prop} {F F' : σ → Prop}

theorem mono {x : ActorM σ ε α} (h : Spec P x Q F) (hP : ∀ s, P' s → P s)
    (hQ : ∀ v s, Q v s → Q' v s) (hF : ∀ s, F s → F' s) : Spec P' x Q' F' := by
  intro a ha
  have h₁ := h a (hP _ ha)
  rcases hx : x.run.run a with ⟨_ | v, a'⟩ <;> rw [hx] at h₁
  · exact hF _ h₁
  · exact hQ _ _ h₁

theorem pure {v : α} (h : ∀ s, P s → Q v s) : Spec P (Pure.pure v : ActorM σ ε α) Q F :=
  fun a ha => h a.self ha

theorem bind {R : α → σ → Prop} {x : ActorM σ ε α} {f : α → ActorM σ ε β} {Q : β → σ → Prop}
    (hx : Spec P x R F) (hf : ∀ v, Spec (R v) (f v) Q F) : Spec P (x >>= f) Q F := by
  intro a ha
  have h₁ := hx a ha
  rw [run_bind]
  rcases hr : x.run.run a with ⟨_ | v, a'⟩ <;> rw [hr] at h₁
  · exact h₁
  · exact hf v a' h₁

/-- A precondition may be traded for the very state that meets it. -/
theorem ghost {x : ActorM σ ε α} (h : ∀ s₀, P s₀ → Spec (· = s₀) x Q F) : Spec P x Q F :=
  fun a ha => h a.self ha a rfl

/-- A fact of the precondition that no state decides may be assumed. -/
theorem assume {p : Prop} {x : ActorM σ ε α} (h : p → Spec P x Q F) :
    Spec (fun s => P s ∧ p) x Q F :=
  fun a ha => h ha.2 a ha.1

/-- Reading the state ties the value read to the state. -/
theorem me_bind {f : σ → ActorM σ ε β} {Q : β → σ → Prop}
    (h : ∀ s₀, Spec (fun s => P s ∧ s = s₀) (f s₀) Q F) : Spec P (me >>= f) Q F := by
  intro a ha
  rw [me_bind_run]
  exact h a.self a ⟨ha, rfl⟩

/-- Reading a state known exactly gives that state. -/
theorem me_bind_eq {s₀ : σ} {f : σ → ActorM σ ε β} {Q : β → σ → Prop}
    (h : Spec (· = s₀) (f s₀) Q F) : Spec (· = s₀) (me >>= f) Q F :=
  me_bind fun _ a ⟨ha, h₁⟩ => by
    subst ha h₁
    exact h a rfl

theorem modifyMe {g : σ → σ} {Q : Unit → σ → Prop} (hg : ∀ s, P s → Q () (g s)) :
    Spec P (Actor.modifyMe g : ActorM σ ε Unit) Q F :=
  fun a ha => hg a.self ha

/-- An update followed by more: `R` is what the update establishes. -/
theorem modifyMe_bind (R : σ → Prop) {g : σ → σ} {f : Unit → ActorM σ ε β} {Q : β → σ → Prop}
    (hg : ∀ s, P s → R (g s)) (hf : Spec R (f ()) Q F) :
    Spec P (Actor.modifyMe g >>= f) Q F :=
  fun a ha => hf { a with self := g a.self } (hg _ ha)

theorem publish {m : Message} {Q : Unit → σ → Prop} (h : ∀ s, P s → Q () s) :
    Spec P (Actor.publish m : ActorM σ ε Unit) Q F :=
  fun a ha => h a.self ha

theorem throw {e : Fault ε} (h : ∀ s, P s → F s) : Spec P (MonadExcept.throw e : ActorM σ ε α) Q F :=
  fun a ha => h a.self ha

/-- A store action leaves the service's state alone, whether it returns or fails. -/
theorem onStore {m : StoreM ε α} (hQ : ∀ v s, P s → Q v s) (hF : ∀ s, P s → F s) :
    Spec P (Actor.onStore m) Q F := by
  intro a ha
  rw [onStore_run]
  rcases (ExceptT.run m).run a.store with ⟨_ | v, st⟩
  · exact hF _ ha
  · exact hQ _ _ ha

/-- A store action that cannot fail asks nothing of the failure predicate. -/
theorem onStore_total {m : StoreM ε α} (hm : Total m) (hQ : ∀ v s, P s → Q v s) :
    Spec P (Actor.onStore m) Q F := by
  intro a ha
  obtain ⟨v, st, hv⟩ := hm a.store
  rw [onStore_run, hv]
  exact hQ _ _ ha

theorem ite {p : Prop} [Decidable p] {x y : ActorM σ ε α} (hx : p → Spec P x Q F)
    (hy : ¬p → Spec P y Q F) : Spec P (if p then x else y) Q F := by
  split
  · exact hx ‹_›
  · exact hy ‹_›

/-- A loop over a list, with an invariant `I` of what is left of the list and the value carried:
each element's step, taken from the invariant at that element, ends in the invariant at the rest,
or, when the step leaves the loop, at the empty rest. -/
theorem forIn {l : List γ} {b : β} {f : γ → β → ActorM σ ε (ForInStep β)}
    (I : List γ → β → σ → Prop)
    (hf : ∀ x rest b, Spec (I (x :: rest) b) (f x b)
      (fun r s => match r with
        | .yield b' => I rest b' s
        | .done b' => I [] b' s) F) :
    Spec (I l b) (ForIn.forIn l b f) (fun b' => I [] b') F := by
  induction l generalizing b with
  | nil => exact pure fun _ h => h
  | cons x rest ih =>
    rw [List.forIn_cons]
    refine bind (hf x rest b) fun r => ?_
    cases r with
    | done b' => exact pure fun _ h => h
    | yield b' => exact ih

/-- A failure caught: the handler starts where the action failed. -/
theorem tryCatch {G : σ → Prop} {x : ActorM σ ε α} {h : Fault ε → ActorM σ ε α}
    (hx : Spec P x Q G) (hh : ∀ e, Spec G (h e) Q F) :
    Spec P (MonadExcept.tryCatch x h) Q F := by
  intro a ha
  have h₁ := hx a ha
  rw [tryCatch_run]
  rcases hr : x.run.run a with ⟨_ | v, a'⟩ <;> rw [hr] at h₁
  · exact hh _ a' h₁
  · exact h₁

/-- Reporting failures as failures of a wider kind changes nothing in the state. -/
theorem wrap {f : ε → δ} {x : ActorM σ ε α} (h : Spec P x Q F) :
    Spec P (ExceptT.wrap f x) Q F := by
  intro a ha
  have h₁ := h a ha
  rw [wrap_run]
  rcases hr : x.run.run a with ⟨_ | v, a'⟩ <;> rw [hr] at h₁
  · exact h₁
  · exact h₁

end Spec

/-! ## Store and world actions that cannot fail -/

theorem Total.pure (v : α) : Total (Pure.pure v : StoreM ε α) := fun st => ⟨v, st, rfl⟩

theorem Total.writerCheckpoint : Total (Store.writerCheckpoint : StoreM ε Int) :=
  fun st => ⟨_, st, rfl⟩

theorem Total.raiseCommit (p : Int) : Total (Store.raiseCommit p : StoreM ε Unit) :=
  fun _ => ⟨(), _, rfl⟩

theorem Total.emit (t : Traffic) : Total (Store.onWorld (World.emit t) : StoreM ε Unit) :=
  fun _ => ⟨(), _, rfl⟩

theorem Total.reply (e : Envelope) (r : ClientResponse) :
    Total (Store.onWorld (e.reply r) : StoreM ε Unit) := by
  intro st
  unfold Envelope.reply
  split
  · exact ⟨(), _, rfl⟩
  · exact ⟨(), _, rfl⟩
  · exact ⟨(), _, rfl⟩

namespace Keeps

variable {P : σ → Prop}

theorem bind {x : ActorM σ ε α} {f : α → ActorM σ ε β} (hx : Keeps P x) (hf : ∀ v, Keeps P (f v)) :
    Keeps P (x >>= f) :=
  Spec.bind hx hf

theorem pure (v : α) : Keeps P (Pure.pure v : ActorM σ ε α) := Spec.pure fun _ h => h

theorem me_bind {f : σ → ActorM σ ε β} (hf : ∀ s, Keeps P (f s)) : Keeps P (me >>= f) :=
  Spec.me_bind fun s₀ => (hf s₀).mono (fun _ h => h.1) (fun _ _ h => h) (fun _ h => h)

theorem modifyMe {g : σ → σ} (hg : ∀ s, P s → P (g s)) :
    Keeps P (Actor.modifyMe g : ActorM σ ε Unit) :=
  Spec.modifyMe hg

theorem onStore (m : StoreM ε α) : Keeps P (Actor.onStore m) :=
  Spec.onStore (fun _ _ h => h) fun _ h => h

theorem onWorld (m : WorldM ε α) : Keeps P (Actor.onWorld m : ActorM σ ε α) := onStore _

theorem publish (m : Message) : Keeps P (Actor.publish m : ActorM σ ε Unit) :=
  Spec.publish fun _ h => h

theorem throw (e : Fault ε) : Keeps P (MonadExcept.throw e : ActorM σ ε α) :=
  Spec.throw fun _ h => h

theorem ite {p : Prop} [Decidable p] {x y : ActorM σ ε α} (hx : Keeps P x) (hy : Keeps P y) :
    Keeps P (if p then x else y) :=
  Spec.ite (fun _ => hx) fun _ => hy

theorem forIn {l : List γ} {b : β} {f : γ → β → ActorM σ ε (ForInStep β)}
    (hf : ∀ x b, Keeps P (f x b)) : Keeps P (ForIn.forIn l b f) :=
  Spec.forIn (fun _ _ => P) fun x _ b => (hf x b).mono (fun _ h => h)
    (fun r _ h => by cases r <;> exact h) (fun _ h => h)

theorem tryCatch {x : ActorM σ ε α} {h : Fault ε → ActorM σ ε α} (hx : Keeps P x)
    (hh : ∀ e, Keeps P (h e)) : Keeps P (MonadExcept.tryCatch x h) :=
  Spec.tryCatch hx hh

theorem wrap {f : ε → δ} {x : ActorM σ ε α} (h : Keeps P x) : Keeps P (ExceptT.wrap f x) :=
  Spec.wrap h

/-- A run from a state where `P` holds ends in one, whether it returns or fails. -/
theorem run {x : ActorM σ ε α} (h : Keeps P x) {a : Actor σ} (ha : P a.self) :
    P (x.run.run a).2.self := by
  have h₁ := h a ha
  rcases hr : x.run.run a with ⟨_ | v, a'⟩ <;> rw [hr] at h₁
  · exact h₁
  · exact h₁

end Keeps

end Actor

end EventStore
