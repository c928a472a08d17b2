import EventStore.Proofs.Store.Runs

/-!
# How an action can fail

A store or world action ends in one of three ways: it returns, it reports a failure, or it stops
on a broken internal rule. Three predicates sort them. `Avoids P m` says that no run of `m`
reports a failure `P` holds of: the failures a caller must be ready for are the others. `Total m`
says that `m` returns from every state, and `FailsWith f m s` that `m` run from `s` ends with the
fault `f`.

Each is built along the steps of a `do` block: `Avoids` and `Total` hold of a bind when they hold
of its two sides, and an action fails with `f` when a step it reaches fails with `f`. The
primitive steps get their lemmas here; the actions of the store get theirs where they are used.
-/

namespace EventStore

section Calculus

variable {σ ε α β : Type}

/-- No run of `m` from `s` fails with an error that `P` holds of. -/
def AvoidsAt (P : ε → Prop) (m : ExceptT (Fault ε) (StateM σ) α) (s : σ) : Prop :=
  ∀ e, ((ExceptT.run m).run s).1 = .error (.error e) → ¬ P e

/-- No run of `m` fails with an error that `P` holds of. -/
def Avoids (P : ε → Prop) (m : ExceptT (Fault ε) (StateM σ) α) : Prop := ∀ s, AvoidsAt P m s

variable {P : ε → Prop}

theorem AvoidsAt.bind {m : ExceptT (Fault ε) (StateM σ) α} {f : α → ExceptT (Fault ε) (StateM σ) β}
    {s : σ} (hm : AvoidsAt P m s) (hf : ∀ v s', Runs m s v s' → AvoidsAt P (f v) s') :
    AvoidsAt P (m >>= f) s := by
  intro e he
  simp only [ExceptT.run_bind, StateT.run_bind] at he
  rcases hr : (ExceptT.run m).run s with ⟨_ | v, s'⟩ <;> rw [show StateT.run _ s = _ from hr] at he
  · -- the action failed, and the bind with it
    rename_i a
    have he' : (Except.error a : Except (Fault ε) β) = .error (.error e) := he
    cases he'
    exact hm e (by rw [hr])
  · exact hf v s' hr e he

theorem Avoids.bind {m : ExceptT (Fault ε) (StateM σ) α} {f : α → ExceptT (Fault ε) (StateM σ) β}
    (hm : Avoids P m) (hf : ∀ v, Avoids P (f v)) : Avoids P (m >>= f) :=
  fun s => (hm s).bind fun v s' _ => hf v s'

theorem Avoids.pure (v : α) : Avoids P (Pure.pure v : ExceptT (Fault ε) (StateM σ) α) :=
  fun _ _ he => by cases he

theorem Avoids.stop : Avoids P (stop : ExceptT (Fault ε) (StateM σ) α) :=
  fun _ _ he => by cases he

theorem Avoids.fail {e₀ : ε} (h : ¬ P e₀) : Avoids P (fail e₀ : ExceptT (Fault ε) (StateM σ) α) :=
  fun _ e he => by
    cases he
    exact h

theorem Avoids.get : Avoids P (MonadState.get : ExceptT (Fault ε) (StateM σ) σ) :=
  fun _ _ he => by cases he

theorem Avoids.set (t : σ) : Avoids P (set t : ExceptT (Fault ε) (StateM σ) PUnit) :=
  fun _ _ he => by cases he

theorem Avoids.modify (g : σ → σ) : Avoids P (modify g : ExceptT (Fault ε) (StateM σ) PUnit) :=
  fun _ _ he => by cases he

theorem Avoids.modifyGet (g : σ → α × σ) : Avoids P (modifyGet g : ExceptT (Fault ε) (StateM σ) α) :=
  fun _ _ he => by cases he

theorem Avoids.ite {c : Prop} [Decidable c] {m₁ m₂ : ExceptT (Fault ε) (StateM σ) α}
    (h₁ : c → Avoids P m₁) (h₂ : ¬ c → Avoids P m₂) : Avoids P (if c then m₁ else m₂) := by
  split
  · exact h₁ ‹_›
  · exact h₂ ‹_›

theorem Avoids.map {m : ExceptT (Fault ε) (StateM σ) α} (g : α → β) (h : Avoids P m) :
    Avoids P (g <$> m) := by
  rw [map_eq_pure_bind]
  exact h.bind fun v => Avoids.pure _

/-- A failure reported as one of a wider kind is one the action raised. -/
theorem AvoidsAt.wrap {δ : Type} {Q : δ → Prop} {f : ε → δ} {m : ExceptT (Fault ε) (StateM σ) α}
    {s : σ} (h : AvoidsAt P m s) (hf : ∀ e, Q (f e) → P e) : AvoidsAt Q (ExceptT.wrap f m) s := by
  intro e he
  simp only [ExceptT.wrap, ExceptT.run_adapt, StateT.run_map] at he
  rcases hm : (ExceptT.run m).run s with ⟨_ | v, t⟩ <;> rw [hm] at he
  · rename_i x
    cases x with
    | error e' =>
      cases he
      exact fun hq => h e' (by rw [hm]) (hf e' hq)
    | panic => cases he
  · cases he

theorem Avoids.wrap {δ : Type} {Q : δ → Prop} {f : ε → δ} {m : ExceptT (Fault ε) (StateM σ) α}
    (h : Avoids P m) (hf : ∀ e, Q (f e) → P e) : Avoids Q (ExceptT.wrap f m) :=
  fun s => (h s).wrap hf

/-- `m` returns from every state. -/
def Total (m : ExceptT (Fault ε) (StateM σ) α) : Prop := ∀ s, ∃ v s', Runs m s v s'

namespace Total

theorem bind {m : ExceptT (Fault ε) (StateM σ) α} {f : α → ExceptT (Fault ε) (StateM σ) β}
    (hm : Total m) (hf : ∀ v, Total (f v)) : Total (m >>= f) := fun s => by
  obtain ⟨v, s₁, h₁⟩ := hm s
  obtain ⟨w, s₂, h₂⟩ := hf v s₁
  exact ⟨w, s₂, h₁.bind h₂⟩

theorem pure (v : α) : Total (Pure.pure v : ExceptT (Fault ε) (StateM σ) α) :=
  fun s => ⟨v, s, Runs.pure v s⟩

theorem get : Total (MonadState.get : ExceptT (Fault ε) (StateM σ) σ) := fun s => ⟨s, s, rfl⟩

theorem modify (g : σ → σ) : Total (modify g : ExceptT (Fault ε) (StateM σ) PUnit) :=
  fun s => ⟨_, _, Runs.modify g s⟩

theorem ite {c : Prop} [Decidable c] {m₁ m₂ : ExceptT (Fault ε) (StateM σ) α} (h₁ : Total m₁)
    (h₂ : Total m₂) : Total (if c then m₁ else m₂) := by
  split
  · exact h₁
  · exact h₂

/-- A loop whose every step returns returns. -/
theorem forIn {γ β : Type} {f : γ → β → ExceptT (Fault ε) (StateM σ) (ForInStep β)}
    (hf : ∀ x b, Total (f x b)) : ∀ {l : List γ} {b : β}, Total (ForIn.forIn l b f)
  | [], b => pure b
  | x :: l, b => by
    rw [List.forIn_cons]
    refine bind (hf x b) fun step => ?_
    cases step with
    | done b' => exact pure b'
    | yield b' => exact forIn hf

end Total

/-- `m` run from `s` ends with the fault `f`: a reported failure, or a stop. -/
def FailsWith (f : Fault ε) (m : ExceptT (Fault ε) (StateM σ) α) (s : σ) : Prop :=
  ((ExceptT.run m).run s).1 = .error f

namespace FailsWith

variable {f : Fault ε} {m : ExceptT (Fault ε) (StateM σ) α} {s : σ}

theorem fail {e : ε} : FailsWith (.error e) (EventStore.fail e : ExceptT (Fault ε) (StateM σ) α) s :=
  rfl

theorem stop : FailsWith .panic (EventStore.stop : ExceptT (Fault ε) (StateM σ) α) s := rfl

/-- An action that fails makes every bind after it fail. -/
theorem bind_left {g : α → ExceptT (Fault ε) (StateM σ) β} (h : FailsWith f m s) :
    FailsWith f (m >>= g) s := by
  unfold FailsWith at *
  simp only [ExceptT.run_bind, StateT.run_bind]
  rcases hm : (ExceptT.run m).run s with ⟨r, t⟩
  rw [hm] at h
  cases h
  rfl

/-- An action that returns and then fails fails. -/
theorem bind {g : α → ExceptT (Fault ε) (StateM σ) β} {v : α} {s' : σ} (hm : Runs m s v s')
    (hg : FailsWith f (g v) s') : FailsWith f (m >>= g) s := by
  unfold FailsWith Runs at *
  simp only [ExceptT.run_bind, StateT.run_bind]
  rw [show StateT.run _ s = _ from hm]
  exact hg

theorem wrap {δ : Type} (g : ε → δ) (h : FailsWith f m s) :
    FailsWith (f.map g) (ExceptT.wrap g m) s := by
  unfold FailsWith at *
  simp only [ExceptT.wrap, ExceptT.run_adapt, StateT.run_map]
  rcases hm : (ExceptT.run m).run s with ⟨r, t⟩
  rw [hm] at h
  cases h
  rfl

end FailsWith

end Calculus

theorem Avoids.onWorld {ε α : Type} {P : ε → Prop} {m : WorldM ε α} (h : Avoids P m) :
    Avoids P (Store.onWorld m) := by
  intro s e he
  rcases hw : (ExceptT.run m).run s.world with ⟨r, w⟩
  simp only [StateT.run] at hw
  simp only [Store.onWorld, ExceptT.focus, ExceptT.run_mk, StateT.run, hw] at he
  exact h s.world e (by simp only [StateT.run, hw]; exact he)

/-- A stop inside an action holding the chunk list stays a stop; its reported failures are its
action's. -/
theorem Avoids.holdingChunks {ε α : Type} {P : ε → Prop} {m : StoreM ε α} (h : Avoids P m) :
    Avoids P (Store.holdingChunks m) := by
  intro s e he
  unfold Store.holdingChunks at he
  rw [ExceptT.run_tryCatch, StateT.run_bind] at he
  rcases hm : (ExceptT.run m).run s with ⟨_ | v, t⟩ <;> rw [show StateT.run _ s = _ from hm] at he
  · rename_i x
    cases x with
    | error e' =>
      have he' : (Except.error (.error e') : Except (Fault ε) α) = .error (.error e) := he
      cases he'
      exact h s e (by rw [hm])
    | panic => cases he
  · cases he

end EventStore
