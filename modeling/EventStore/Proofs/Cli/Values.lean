import EventStore.Cli.Options

/-!
# What a parse of the command line reads

A parse reads the arguments one after the other into a parse state. Every value the state holds
was accepted by the reader of the option it is filed under, and an option waiting for its value
is one of the node's options: this is `ParseState.Sound`, which the empty state has and every
argument keeps (`Sound.readArg`), so every state a parse ends in has it (`Sound.readArgs`).

A parameter of a successful parse is then its default or a value its option's reader accepted;
for the chunk size, that is a size below `2 ^ 32` bytes (`chunkSize_lt_of_parse`), zero included.
-/

namespace EventStore

namespace Cli

/-- A read chained after another succeeds only when the first one does. -/
theorem bind_eq_ok {ε α β : Type} {x : Except ε α} {f : α → Except ε β} {b : β}
    (h : (x >>= f) = .ok b) : ∃ a, x = .ok a ∧ f a = .ok b := by
  cases x with
  | error e => cases h
  | ok a => exact ⟨a, rfl, h⟩

/-- Every value of a list read by one reader is a value that reader accepts. -/
theorem exists_of_mapM_eq_ok {ε α β : Type} {f : α → Except ε β} :
    ∀ {l : List α} {vs : List β}, l.mapM f = .ok vs → ∀ v ∈ vs, ∃ a, f a = .ok v
  | [], vs, h => by
    cases h
    simp
  | a :: l, vs, h => by
    rw [List.mapM_cons] at h
    obtain ⟨b, hb, h⟩ := bind_eq_ok h
    obtain ⟨bs, hbs, h⟩ := bind_eq_ok h
    cases h
    intro v hv
    rcases List.mem_cons.1 hv with rfl | hv
    · exact ⟨a, hb⟩
    · exact exists_of_mapM_eq_ok hbs v hv

/-- A parse state whose every value was read by the reader of an option of the node's, the one
it is filed under, and whose waiting options are options of the node's. -/
structure ParseState.Sound (st : ParseState) : Prop where
  values : ∀ kv ∈ st.values, ∀ v ∈ kv.2,
    ∃ o ∈ optionSpecs, o.long = kv.1 ∧ ∃ raw, parseValue o raw = .ok v
  pending : ∀ o raw, st.pending = some (o, raw) → o ∈ optionSpecs
  expecting : ∀ o, st.expecting = some o → o ∈ optionSpecs

namespace ParseState.Sound

theorem empty : ParseState.Sound {} := ⟨by simp, nofun, nofun⟩

variable {st st' : ParseState}

/-- Completing an option of the node's files only values its reader accepts. -/
theorem complete {o : OptionSpec} {raw : List String} (hs : st.Sound) (ho : o ∈ optionSpecs)
    (h : Cli.complete st o raw = .ok st') : st'.Sound := by
  unfold Cli.complete at h
  dsimp only at h
  -- an empty option and a repeated one are refused before anything is read
  split at h
  · cases h
  split at h
  · cases h
  obtain ⟨vals, hvals, h⟩ := bind_eq_ok h
  cases h
  have hnew : ∀ v ∈ vals, ∃ o' ∈ optionSpecs, o'.long = o.long ∧ ∃ raw, parseValue o' raw = .ok v :=
    fun v hv => ⟨o, ho, rfl, exists_of_mapM_eq_ok hvals v hv⟩
  refine ⟨?_, hs.pending, hs.expecting⟩
  -- the values join the option's entry if it has one, or a new entry at the end
  split
  · intro kv hkv v hv
    obtain ⟨⟨k, vs⟩, hmem, rfl⟩ := List.mem_map.1 hkv
    by_cases hk : (k == o.long) = true
    · rw [if_pos hk] at hv ⊢
      rcases List.mem_append.1 hv with hv | hv
      · exact hs.values _ hmem v hv
      · rw [beq_iff_eq.1 hk]
        exact hnew v hv
    · rw [if_neg hk] at hv ⊢
      exact hs.values _ hmem v hv
  · intro kv hkv v hv
    rcases List.mem_append.1 hkv with hkv | hkv
    · exact hs.values kv hkv v hv
    · rw [List.mem_singleton.1 hkv] at hv ⊢
      exact hnew v hv

/-- Completing the waiting option files only values its reader accepts. -/
theorem resolvePending (hs : st.Sound) (h : Cli.resolvePending st = .ok st') : st'.Sound := by
  unfold Cli.resolvePending at h
  split at h
  · rename_i o raw hp
    have hs' : ParseState.Sound { st with pending := none } :=
      ⟨hs.values, fun _ _ h => (by cases h), hs.expecting⟩
    exact complete hs' (hs.pending o raw hp) h
  · cases h
    exact hs

/-- Reading one argument keeps a parse state sound. -/
theorem readArg {arg : String} (hs : st.Sound) (h : Cli.readArg st arg = .ok st') : st'.Sound := by
  unfold Cli.readArg at h
  split at h
  · cases h
  split at h
  · cases h
    exact ⟨hs.values, hs.pending, hs.expecting⟩
  split at h
  · dsimp only at h
    -- the three ways of reading the name and attached value lead to one and the same reading
    split at h <;> dsimp only at h
    all_goals
      split at h
      · cases h
      split at h
      · -- an option of the node's, with its value attached or expecting it next
        rename_i o ho
        have hso : o ∈ optionSpecs := List.mem_of_find?_eq_some ho
        obtain ⟨s₁, h₁, h⟩ := bind_eq_ok h
        have hs₁ := hs.resolvePending h₁
        first
          | cases h
            exact ⟨hs₁.values, fun _ _ hp => by cases hp; exact hso, fun _ he => by cases he; exact hso⟩
          | obtain ⟨s₂, h₂, h⟩ := bind_eq_ok h
            cases h
            have hs₂ := hs₁.complete hso h₂
            exact ⟨hs₂.values, hs₂.pending, fun _ he => by cases he⟩
      · split at h
        · -- the flag that turns hash verification off
          first
            | cases h
            | obtain ⟨s₁, h₁, h⟩ := bind_eq_ok h
              have hs₁ := hs.resolvePending h₁
              split at h
              · cases h
              · cases h
                exact ⟨hs₁.values, hs₁.pending, fun _ he => by cases he⟩
        -- help and version end the parse, and any other name is refused
        split at h
        · first | cases h | (obtain ⟨_, -, h⟩ := bind_eq_ok h; cases h)
        split at h
        · first | cases h | (obtain ⟨_, -, h⟩ := bind_eq_ok h; cases h)
        · cases h
  split at h
  · -- short options only end the parse or are refused
    split at h <;> first | cases h | (obtain ⟨_, -, h⟩ := bind_eq_ok h; cases h)
  · -- a value for the option that expects one
    split at h
    · rename_i o he
      cases h
      exact ⟨hs.values, fun _ _ hp => by cases hp; exact hs.expecting o he, fun _ hx => by cases hx⟩
    · cases h

/-- Every state a parse ends in from a sound state is sound. -/
theorem readArgs : ∀ {args : List String} {st st' : ParseState}, st.Sound →
    Cli.readArgs args st = .ok st' → st'.Sound
  | [], _, _, hs, h => hs.resolvePending h
  | _ :: _, _, _, hs, h => by
    obtain ⟨st₁, h₁, h⟩ := bind_eq_ok h
    exact readArgs (hs.readArg h₁) h

/-- The value a sound state holds for an option was read by the reader of an option of that
name. -/
theorem valueOf {k : String} {v : CliValue} (hs : st.Sound) (h : valueOf? st k = some v) :
    ∃ o ∈ optionSpecs, o.long = k ∧ ∃ raw, parseValue o raw = .ok v := by
  obtain ⟨kv, hkv, hv⟩ := Option.bind_eq_some_iff.1 h
  obtain ⟨k', vs⟩ := kv
  have hk : k' = k := beq_iff_eq.1 (List.find?_some (p := fun x : String × List CliValue => x.fst == k) hkv)
  subst hk
  exact hs.values _ (List.mem_of_find?_eq_some hkv) v (List.mem_of_mem_head? hv)


end ParseState.Sound

theorem lt_of_ite_eq_ok {m b n : Nat} {e : String}
    (h : (if m < b then .ok m else .error e : Except String Nat) = .ok n) : n < b := by
  split at h
  · cases h
    assumption
  · cases h

/-- A size the size reader accepts is below `2 ^ 32`. -/
theorem parseByteSize_lt {raw : String} {n : Nat} (h : parseByteSize raw = .ok n) :
    n < Nat.pow 2 32 := by
  unfold parseByteSize at h
  dsimp only at h
  split at h
  · cases h
  · exact lt_of_ite_eq_ok h

/-- A value of an option that reads sizes is a size the size reader accepted. -/
theorem parseValue_of_byteSize {o : OptionSpec} {raw : String} {v : CliValue}
    (hk : o.kind = .byteSize) (h : parseValue o raw = .ok v) :
    ∃ m, parseByteSize raw = .ok m ∧ v = .num m := by
  unfold parseValue at h
  rw [hk] at h
  dsimp only at h
  split at h
  · rename_i m hm
    cases h
    exact ⟨m, hm, rfl⟩
  · cases h

/-- The only option named so reads sizes. -/
theorem kind_of_chunkSize : ∀ o ∈ optionSpecs, o.long = "chunk-size" → o.kind = .byteSize := by
  decide

/-- The chunk size of a successful parse is the default or a size the size reader accepted. -/
theorem chunkSize_of_parse {args : List String} {p : NodeParams} (hp : parse args = .ok p) :
    p.chunkSize = 256 * 1024 * 1024 ∨ ∃ raw, parseByteSize raw = .ok p.chunkSize := by
  unfold parse at hp
  obtain ⟨st, hst, hp⟩ : ∃ st, readArgs args {} = .ok st ∧ toParams st = p := by
    cases h : readArgs args {} with
    | error e => rw [h] at hp; cases hp
    | ok st => rw [h] at hp; cases hp; exact ⟨st, rfl, rfl⟩
  subst hp
  have hs := ParseState.Sound.empty.readArgs hst
  simp only [toParams, numOf]
  split
  · rename_i n hn
    obtain ⟨o, ho, hlong, raw, hraw⟩ := hs.valueOf hn
    obtain ⟨m, hm, hnm⟩ := parseValue_of_byteSize (kind_of_chunkSize o ho hlong) hraw
    cases hnm
    exact Or.inr ⟨raw, hm⟩
  · exact Or.inl rfl

example : (parse []).map NodeParams.chunkSize = .ok (256 * 1024 * 1024) := rfl

/-- Every chunk size a parse gives is below `2 ^ 32`. -/
theorem chunkSize_lt_of_parse {args : List String} {p : NodeParams} (hp : parse args = .ok p) :
    p.chunkSize < Nat.pow 2 32 := by
  rcases chunkSize_of_parse hp with h | ⟨raw, h⟩
  · rw [h]
    decide
  · exact parseByteSize_lt h

end Cli

end EventStore
