import EventStore.Proofs.Store.Scavenged

/-!
# Reading a scavenged log

After scavenging chunks `start` to `finish` of a layout, a read forward from any place where a
read could start before returns the first record after it that survived: every record outside
the range, and within it the system records and those the predicate kept
(`Scavenged.returns_readForward`). The records keep their log positions, so a scan of the log
returns the old log's surviving records in their order, and a scan of the range its kept records
(`scavenge_keeps_selected_records`).

A read walks the chunk list. Through the chunks the writer laid it goes chunk by chunk
(`Scavenged.readsFrom_laid`), through the merged chunk by its position map
(`Scavenged.readsFrom_merged`); past the last chunk it finds nothing. The places where a read can
start are those of the layout before scavenging (`After`), and after each record read the read
goes on from such a place, so the scans follow from the reads (`Scans.of_places`).
-/

namespace EventStore

open Store Record

/-- Where the read from each place `p` with records `rs` after it returns the first of them, and
the end of that record is again such a place with the rest after it, a scan from such a place
returns the records after it, below a limit they all stand below. -/
theorem Scans.of_places {s : Store} {limit : Int} {P : Int → List Record → Prop}
    (hread : ∀ p rs, P p rs → Returns (readForward p) s (rs.head?.map Record.entry))
    (hnext : ∀ p r rs, P p (r :: rs) → P (r.logPosition + r.framed.length) rs) :
    ∀ {p : Int} {rs : List Record}, P p rs → (∀ r ∈ rs, r.logPosition < limit) →
      Scans s limit p (rs.map Record.entry) := by
  intro p rs
  induction rs generalizing p with
  | nil => exact fun hp _ => .last (hread p [] hp)
  | cons r rs ih =>
    intro hp hlim
    exact .next (hread p (r :: rs) hp) (hlim r (List.mem_cons_self ..))
      (ih (hnext p r rs hp) fun r' h => hlim r' (List.mem_cons_of_mem _ h))

/-- A read's answer for records one list after another is that for the first list, or else that
for the second. -/
theorem head?_map_entry_append (l l' : List Record) :
    (l ++ l').head?.map Record.entry = (l.head?.map Record.entry).or (l'.head?.map Record.entry) := by
  rw [List.head?_append, Option.map_or]

/-- The records of `n + 1` chunks from chunk `i` are those of chunk `i` and of the `n` after it. -/
theorem flatten_take_drop_succ {plan : List (List Record)} {i : Nat} (n : Nat)
    (hi : i < plan.length) :
    ((plan.drop i).take (n + 1)).flatten = plan[i] ++ ((plan.drop (i + 1)).take n).flatten := by
  rw [List.drop_eq_getElem_cons hi, List.take_succ_cons, List.flatten_cons]

theorem length_framed_pos (r : Record) : 0 < r.framed.length := by
  rw [length_framed]
  unfold frameOverhead
  omega

/-- The records of the chunks from `a` on are those of the chunks `a` to `b - 1` and then those
from `b` on. -/
theorem flatten_drop_eq_take_append {plan : List (List Record)} {a b : Nat} (hab : a ≤ b) :
    (plan.drop a).flatten = ((plan.drop a).take (b - a)).flatten ++ (plan.drop b).flatten := by
  rw [← List.flatten_append]
  conv_lhs => rw [← List.take_append_drop (b - a) (plan.drop a)]
  rw [List.drop_drop, show a + (b - a) = b by omega]

/-- The records of chunks `a` to `b` are those of the chunks before chunk `i`, of chunk `i` and of
the chunks after it, for `i` among them. -/
theorem flatten_range_split {plan : List (List Record)} {a i b : Nat} (hai : a ≤ i) (hib : i ≤ b)
    (hb : b < plan.length) :
    ((plan.drop a).take (b + 1 - a)).flatten = ((plan.drop a).take (i - a)).flatten ++
      (plan[i] ++ ((plan.drop (i + 1)).take (b - i)).flatten) := by
  rw [show b + 1 - a = (i - a) + ((b - i) + 1) by omega, List.take_add, List.flatten_append,
    List.drop_drop, show a + (i - a) = i by omega, flatten_take_drop_succ _ (by omega)]

/-- Records placed one after another from `base` as `pre ++ post`: those of `pre` end where the
frames of `pre` end, and those of `post` start there or later. -/
theorem Record.Placed.bounds {base : Int} {pre post : List Record} (h : Placed base (pre ++ post)) :
    (∀ r ∈ pre, r.logPosition + r.framed.length ≤ base + (frames pre).length) ∧
      ∀ r ∈ post, base + (frames pre).length ≤ r.logPosition := by
  constructor
  · intro r hr
    obtain ⟨a, b, rfl⟩ := List.append_of_mem hr
    have hat := (show Placed base (a ++ r :: (b ++ post)) by simpa using h).split.1
    rw [hat, frames_append, frames_cons, List.length_append, List.length_append]
    omega
  · intro r hr
    obtain ⟨a, b, rfl⟩ := List.append_of_mem hr
    have hat := (show Placed base ((pre ++ a) ++ r :: b) by simpa using h).split.1
    rw [hat, frames_append, List.length_append]
    omega

namespace Layout

variable {s : Store} {plan : List (List Record)}

/-- The frames of a chunk of a layout fit the chunk. -/
theorem frames_le (hl : Layout s plan) {j : Nat} {rs : List Record} (hj : plan[j]? = some rs) :
    (frames rs).length ≤ s.db.config.chunkSize := by
  obtain ⟨hlt, hp⟩ := List.getElem?_eq_some_iff.1 hj
  have hh := hl.laid.holds j (hl.laid.length ▸ hlt) hlt
  rw [hp] at hh
  exact hh.dataSize ▸ hh.room

/-- In chunk `j` laid as `pre ++ post`, the records of `pre` end where the frames of `pre` end,
and those of `post` start there or later. -/
theorem chunk_bounds (hl : Layout s plan) {j : Nat} {pre post : List Record}
    (hj : plan[j]? = some (pre ++ post)) :
    (∀ r ∈ pre, r.logPosition + r.framed.length ≤
        ((j * s.db.config.chunkSize + (frames pre).length : Nat) : Int)) ∧
      ∀ r ∈ post, ((j * s.db.config.chunkSize + (frames pre).length : Nat) : Int) ≤ r.logPosition := by
  obtain ⟨hlt, hp⟩ := List.getElem?_eq_some_iff.1 hj
  have hh := hl.laid.holds j (hl.laid.length ▸ hlt) hlt
  rw [hp] at hh
  push_cast
  exact hh.placed.bounds

/-- The records of the chunks `a` to `a + k - 1` stand within their positions, frames and all. -/
theorem chunks_within (hl : Layout s plan) {a k : Nat} {r : Record}
    (hr : r ∈ ((plan.drop a).take k).flatten) :
    ((a * s.db.config.chunkSize : Nat) : Int) ≤ r.logPosition ∧
      r.logPosition + r.framed.length ≤ (((a + k) * s.db.config.chunkSize : Nat) : Int) := by
  obtain ⟨j, rs, hj₁, hj₂, hget, hrs⟩ := mem_flatten_take_drop hr
  obtain ⟨h₁, h₂⟩ := hl.record_within hget hrs
  have hlo : a * s.db.config.chunkSize ≤ j * s.db.config.chunkSize := Nat.mul_le_mul_right _ hj₁
  have hhi : (j + 1) * s.db.config.chunkSize ≤ (a + k) * s.db.config.chunkSize :=
    Nat.mul_le_mul_right _ hj₂
  omega

/-- Every record of a layout stands below the first position past its last chunk. -/
theorem record_lt_end (hl : Layout s plan) {a : Nat} {r : Record} (hr : r ∈ (plan.drop a).flatten) :
    r.logPosition < ((plan.length * s.db.config.chunkSize : Nat) : Int) := by
  obtain ⟨rs, hrs, hr⟩ := List.mem_flatten.1 hr
  obtain ⟨j, hj, rfl⟩ := List.mem_iff_getElem.1 (List.mem_of_mem_drop hrs)
  have := (hl.record_within (List.getElem?_eq_getElem hj) hr).2
  have hmul : (j + 1) * s.db.config.chunkSize ≤ plan.length * s.db.config.chunkSize :=
    Nat.mul_le_mul_right _ hj
  have := length_framed_pos r
  omega

/-- The records of chunks `a` to `b` stand at their positions. -/
theorem range_inside (hl : Layout s plan) {a b : Nat} (hab : a ≤ b) {r : Record}
    (hr : r ∈ ((plan.drop a).take (b + 1 - a)).flatten) :
    ((a * s.db.config.chunkSize : Nat) : Int) ≤ r.logPosition ∧
      r.logPosition < (((b + 1) * s.db.config.chunkSize : Nat) : Int) := by
  have := hl.range_within hab hr
  have := length_framed_pos r
  omega

end Layout

/-! ## Which records survive -/

/-- A record survives scavenging the log positions from `lo` to before `hi` with selection `sel`
when it stands outside them or is selected. -/
def Survives (lo hi : Int) (sel : Record → Bool) (r : Record) : Bool :=
  decide (r.logPosition < lo) || decide (hi ≤ r.logPosition) || sel r

section Survives

variable {lo hi : Int} {sel : Record → Bool} {rs : List Record}

theorem filter_survives_of_outside (h : ∀ r ∈ rs, r.logPosition < lo ∨ hi ≤ r.logPosition) :
    rs.filter (Survives lo hi sel) = rs :=
  List.filter_eq_self.2 fun r hr => by
    rcases h r hr with h | h <;> simp [Survives, h]

theorem filter_survives_of_inside (h : ∀ r ∈ rs, lo ≤ r.logPosition ∧ r.logPosition < hi) :
    rs.filter (Survives lo hi sel) = rs.filter sel :=
  List.filter_congr fun r hr => by
    obtain ⟨h₁, h₂⟩ := h r hr
    simp [Survives, Int.not_lt.2 h₁, Int.not_le.2 h₂]

end Survives

/-- A place where a read can start lies within some chunk `i`, past its records `pre`, or just
past the last chunk with nothing after it. -/
theorem After.at_chunk {cs : Nat} {plan : List (List Record)} {p : Int} {rs : List Record}
    (h : After cs plan p rs) :
    (∃ i pre post, plan[i]? = some (pre ++ post) ∧
      p = ((i * cs + (frames pre).length : Nat) : Int) ∧ post ++ (plan.drop (i + 1)).flatten = rs) ∨
    (p = ((plan.length * cs : Nat) : Int) ∧ rs = []) := by
  rcases h with h | ⟨i, hi, rfl, rfl⟩
  · exact .inl h
  · rcases Nat.lt_or_ge i plan.length with hlt | hge
    · refine .inl ⟨i, [], plan[i], by simp [hlt], by simp, ?_⟩
      rw [← List.flatten_cons, ← List.drop_eq_getElem_cons hlt]
    · obtain rfl : i = plan.length := by omega
      exact .inr ⟨rfl, by simp⟩

/-- Where the first record after a place that a filter lets through ends, a read can start
again, with records after it that the filter takes to the rest. -/
theorem After.filter_next {s : Store} {plan : List (List Record)} (hl : Layout s plan)
    {f : Record → Bool} {r : Record} {rs' : List Record} :
    ∀ {p : Int} {rs : List Record}, After s.db.config.chunkSize plan p rs →
      rs.filter f = r :: rs' →
      ∃ rest, After s.db.config.chunkSize plan (r.logPosition + r.framed.length) rest ∧
        rest.filter f = rs' := by
  intro p rs
  induction rs generalizing p with
  | nil => nofun
  | cons x xs ih =>
    intro h hf
    have hnext := (h.next hl).1
    by_cases hx : f x = true
    · -- the first record is let through: the read goes on after it
      rw [List.filter_cons_of_pos hx] at hf
      obtain ⟨rfl, rfl⟩ := List.cons_eq_cons.1 hf
      exact ⟨xs, hnext, rfl⟩
    · rw [List.filter_cons_of_neg hx] at hf
      exact ih hnext hf

namespace Scavenged

variable {s s' : Store} {plan : List (List Record)} {start finish : Nat} {kept : List Record}

theorem usable (hl : Layout s plan) (hsc : Scavenged s plan start finish kept s') : s'.Usable :=
  ⟨hsc.config ▸ hl.laid.chunkSize_pos, hsc.config ▸ hl.laid.chunkSize_lt, hsc.sound⟩

/-- Through chunks `j` to `k - 1` the writer laid, past the records `pre` of chunk `i`, a read
returns the next record of those chunks, or what a read at the start of chunk `k` returns: the
records `rest`. Nothing follows the layout's last chunk. -/
theorem readsFrom_laid (hl : Layout s plan) (hsc : Scavenged s plan start finish kept s')
    {j k need : Nat} {rest : List Record} (hout : ∀ i, j ≤ i → i < k → i < start ∨ finish < i)
    (hk : k ≤ plan.length) (hend : k = plan.length → rest = [])
    (hcont : ReadsFrom s' need ((k * s.db.config.chunkSize : Nat) : Int)
      (rest.head?.map Record.entry)) :
    ∀ {i : Nat} {pre post : List Record}, j ≤ i → i < k → plan[i]? = some (pre ++ post) →
      ReadsFrom s' (need + (k - i))
        ((i * s.db.config.chunkSize + (Record.frames pre).length : Nat) : Int)
        ((post ++ ((plan.drop (i + 1)).take (k - (i + 1))).flatten ++ rest).head?.map
          Record.entry) := by
  have hu := hsc.usable hl
  have hcs : s'.db.config.chunkSize = s.db.config.chunkSize := by rw [hsc.config]
  rw [← hcs] at hcont ⊢
  intro i pre post hj hi hrs
  -- induction on the number of chunks after chunk `i` and before chunk `k`
  obtain ⟨d, hd⟩ : ∃ d, k = i + 1 + d := ⟨k - (i + 1), by omega⟩
  induction d generalizing i pre post with
  | zero =>
    obtain rfl : k = i + 1 := hd
    obtain ⟨c, hlaid, hfull⟩ := hsc.laid i (by omega) (hout i hj hi)
    rw [(List.getElem?_eq_some_iff.1 hrs).2] at hlaid
    have hread := hlaid.readsFrom_within hu hcont fun hpost hc hsize => by
      -- an active chunk short of full is the layout's last, and nothing follows it
      by_cases hlast : i + 1 < plan.length
      · rcases hfull hlast with h | h
        · simp [hc] at h
        · omega
      · rw [hend (by omega)]
        rfl
    rw [show need + (i + 1 - i) = need + 1 by omega, Nat.sub_self, List.take_zero,
      List.flatten_nil, List.append_nil, head?_map_entry_append]
    exact hread
  | succ d ih =>
    obtain ⟨c, hlaid, hfull⟩ := hsc.laid i (by omega) (hout i hj hi)
    rw [(List.getElem?_eq_some_iff.1 hrs).2] at hlaid
    have hi₁ : i + 1 < plan.length := by omega
    have hnext := @ih (i + 1) [] plan[i + 1] (by omega) (by omega) (by simp) (by omega)
    simp only [frames_nil, List.length_nil, Nat.add_zero] at hnext
    have hread := hlaid.readsFrom_within hu hnext fun hpost hc hsize => by
      rcases hfull (by omega) with h | h
      · simp [hc] at h
      · omega
    rw [show need + (k - i) = need + (k - (i + 1)) + 1 by omega,
      show (plan.drop (i + 1)).take (k - (i + 1)) = (plan.drop (i + 1)).take (k - (i + 1 + 1) + 1)
        by congr 1; omega,
      flatten_take_drop_succ _ (by omega), List.append_assoc, head?_map_entry_append]
    exact hread

/-- Past the range, within chunk `i` after its records `pre`, a read returns the next record the
writer laid. -/
theorem readsFrom_past (hl : Layout s plan) (hsc : Scavenged s plan start finish kept s')
    {i : Nat} {pre post : List Record} (hi : finish < i) (hrs : plan[i]? = some (pre ++ post)) :
    ReadsFrom s' (plan.length - i)
      ((i * s.db.config.chunkSize + (frames pre).length : Nat) : Int)
      ((post ++ (plan.drop (i + 1)).flatten).head?.map Record.entry) := by
  have hlt := (List.getElem?_eq_some_iff.1 hrs).1
  -- nothing follows the last chunk
  have hend : ReadsFrom s' 0 ((plan.length * s.db.config.chunkSize : Nat) : Int)
      (([] : List Record).head?.map Record.entry) := by
    have h := readsFrom_unfound (hsc.usable hl) hsc.number (hsc.beyond _ (Nat.le_refl _))
    rwa [hsc.config] at h
  have h := hsc.readsFrom_laid hl (j := finish + 1) (fun _ hi' _ => .inr hi')
    (Nat.le_refl _) (fun _ => rfl) hend hi hlt hrs
  rwa [List.take_of_length_le (by simp), List.append_nil, Nat.zero_add] at h

/-- Past the range, at the first position of chunk `k`, a read returns the first record the
writer laid from that chunk on. -/
theorem readsFrom_past_start (hl : Layout s plan) (hsc : Scavenged s plan start finish kept s')
    {k : Nat} (hk : finish < k) (hkL : k ≤ plan.length) :
    ReadsFrom s' (plan.length - k) ((k * s.db.config.chunkSize : Nat) : Int)
      ((plan.drop k).flatten.head?.map Record.entry) := by
  rcases Nat.lt_or_ge k plan.length with hlt | hge
  · have h := hsc.readsFrom_past hl hk (show plan[k]? = some ([] ++ plan[k]) by simp [hlt])
    simp only [frames_nil, List.length_nil, Nat.add_zero] at h
    rwa [← List.flatten_cons, ← List.drop_eq_getElem_cons hlt] at h
  · obtain rfl : k = plan.length := by omega
    have h := readsFrom_unfound (hsc.usable hl) hsc.number (hsc.beyond _ (Nat.le_refl _))
    rw [hsc.config] at h
    simpa using h

/-- Within the range, a read returns the first kept record at or after its position, and past
them the first record after the range. -/
theorem readsFrom_range (hl : Layout s plan) (hsc : Scavenged s plan start finish kept s')
    {us vs : List Record} (hkept : kept = us ++ vs) {m : Nat}
    (hlo : start * s.db.config.chunkSize ≤ m) (hhi : m < (finish + 1) * s.db.config.chunkSize)
    (hus : ∀ r ∈ us, r.logPosition < (m : Int)) (hvs : ∀ r ∈ vs, (m : Int) ≤ r.logPosition) :
    ReadsFrom s' (plan.length - finish) (m : Int)
      ((vs ++ (plan.drop (finish + 1)).flatten).head?.map Record.entry) := by
  obtain ⟨c, hc⟩ := hsc.merged
  rw [hkept] at hc
  have hcs : s'.db.config.chunkSize = s.db.config.chunkSize := by rw [hsc.config]
  have hnext := hsc.readsFrom_past_start hl (Nat.lt_succ_self finish) hsc.within
  rw [← hcs] at hlo hhi hnext
  have h := hc.readsFrom (hsc.usable hl) hlo hhi hus hvs hnext
  rw [show plan.length - finish = plan.length - (finish + 1) + 1 by have := hsc.within; omega,
    head?_map_entry_append]
  exact h

section Selected

variable {sel : Record → Bool}

/-- Before the range, within chunk `i` after its records `pre`, a read returns the next record
that survived: the next one the writer laid before the range, or else the first kept one. -/
theorem readsFrom_before (hl : Layout s plan)
    (hsc : Scavenged s plan start finish
      ((((plan.drop start).take (finish + 1 - start)).flatten).filter sel) s')
    {i : Nat} {pre post : List Record} (hi : i < start) (hrs : plan[i]? = some (pre ++ post)) :
    ReadsFrom s' (plan.length - finish + start)
      ((i * s.db.config.chunkSize + (frames pre).length : Nat) : Int)
      (((post ++ (plan.drop (i + 1)).flatten).filter
        (Survives ((start * s.db.config.chunkSize : Nat) : Int)
          (((finish + 1) * s.db.config.chunkSize : Nat) : Int) sel)).head?.map Record.entry) := by
  have hfin := hsc.within
  have hord := hsc.ordered
  have hpos := hl.laid.chunkSize_pos
  -- a read at the range's start returns the first kept record, or the first one after the range
  have hcont := hsc.readsFrom_range hl (List.nil_append _).symm (Nat.le_refl _)
    (Nat.mul_lt_mul_of_pos_right (by omega) hpos) nofun
    fun r hr => (hl.range_within hord (List.mem_filter.1 hr).1).1
  have h := hsc.readsFrom_laid hl (j := i) (k := start) (fun _ _ hi' => .inl hi') (by omega)
    (fun h => absurd h (by omega)) hcont (Nat.le_refl _) hi hrs
  -- the records before the range survive, and after it too; of the range the selected ones
  have hbelow : ∀ r ∈ post ++ ((plan.drop (i + 1)).take (start - (i + 1))).flatten,
      r.logPosition < ((start * s.db.config.chunkSize : Nat) : Int) := by
    intro r hr
    have hlen := length_framed_pos r
    rcases List.mem_append.1 hr with hr | hr
    · have := (hl.record_within hrs (List.mem_append_right _ hr)).2
      have hmul : (i + 1) * s.db.config.chunkSize ≤ start * s.db.config.chunkSize :=
        Nat.mul_le_mul_right _ hi
      omega
    · have := (hl.chunks_within hr).2
      rw [show i + 1 + (start - (i + 1)) = start by omega] at this
      omega
  have hsurv : (post ++ (plan.drop (i + 1)).flatten).filter
      (Survives ((start * s.db.config.chunkSize : Nat) : Int)
        (((finish + 1) * s.db.config.chunkSize : Nat) : Int) sel) =
      post ++ ((plan.drop (i + 1)).take (start - (i + 1))).flatten ++
        ((((plan.drop start).take (finish + 1 - start)).flatten).filter sel ++
          (plan.drop (finish + 1)).flatten) := by
    rw [flatten_drop_eq_take_append (show i + 1 ≤ start by omega),
      flatten_drop_eq_take_append (a := start) (b := finish + 1) (by omega), List.filter_append,
      List.filter_append, List.filter_append,
      filter_survives_of_outside fun r (hr : r ∈ post) =>
        .inl (hbelow r (List.mem_append_left _ hr)),
      filter_survives_of_outside fun r (hr : r ∈ ((plan.drop (i + 1)).take (start - (i + 1))).flatten) =>
        .inl (hbelow r (List.mem_append_right _ hr)),
      filter_survives_of_inside fun r hr => hl.range_inside hord hr,
      filter_survives_of_outside fun r hr => .inr (hl.past_range hr), List.append_assoc]
  rw [hsurv]
  exact h.mono (by omega)

/-- Within the range, in chunk `i` after its records `pre`, a read returns the first kept record
at or after its position, or else the first record after the range. -/
theorem readsFrom_inside (hl : Layout s plan)
    (hsc : Scavenged s plan start finish
      ((((plan.drop start).take (finish + 1 - start)).flatten).filter sel) s')
    {i : Nat} {pre post : List Record} (hi₁ : start ≤ i) (hi₂ : i ≤ finish)
    (hrs : plan[i]? = some (pre ++ post)) :
    ReadsFrom s' (plan.length - finish + start)
      ((i * s.db.config.chunkSize + (frames pre).length : Nat) : Int)
      (((post ++ (plan.drop (i + 1)).flatten).filter
        (Survives ((start * s.db.config.chunkSize : Nat) : Int)
          (((finish + 1) * s.db.config.chunkSize : Nat) : Int) sel)).head?.map Record.entry) := by
  have hfin := hsc.within
  have hpos := hl.laid.chunkSize_pos
  have hroom := hl.frames_le hrs
  obtain ⟨hpre, hpost⟩ := hl.chunk_bounds hrs
  rw [frames_append, List.length_append] at hroom
  have hsucc : (i + 1) * s.db.config.chunkSize = i * s.db.config.chunkSize + s.db.config.chunkSize :=
    Nat.succ_mul i s.db.config.chunkSize
  have hdrop : (plan.drop (i + 1)).flatten =
      ((plan.drop (i + 1)).take (finish - i)).flatten ++ (plan.drop (finish + 1)).flatten := by
    rw [flatten_drop_eq_take_append (show i + 1 ≤ finish + 1 by omega),
      show finish + 1 - (i + 1) = finish - i by omega]
  have hrange : ((plan.drop start).take (finish + 1 - start)).flatten =
      ((plan.drop start).take (i - start)).flatten ++
        (pre ++ post ++ ((plan.drop (i + 1)).take (finish - i)).flatten) := by
    rw [flatten_range_split hi₁ hi₂ hfin, (List.getElem?_eq_some_iff.1 hrs).2]
  -- the records after the read's position that the range holds stand at or after it
  have hlater : ∀ r ∈ post ++ ((plan.drop (i + 1)).take (finish - i)).flatten,
      ((i * s.db.config.chunkSize + (frames pre).length : Nat) : Int) ≤ r.logPosition := by
    intro r hr
    rcases List.mem_append.1 hr with hr | hr
    · exact hpost r hr
    · have := (hl.chunks_within hr).1
      omega
  rcases Nat.lt_or_ge (i * s.db.config.chunkSize + (frames pre).length)
    ((finish + 1) * s.db.config.chunkSize) with hhi | hhi
  · -- the position lies in the merged chunk
    have hlo : start * s.db.config.chunkSize ≤ i * s.db.config.chunkSize :=
      Nat.mul_le_mul_right _ hi₁
    have hkept : (((plan.drop start).take (finish + 1 - start)).flatten).filter sel =
        (((plan.drop start).take (i - start)).flatten ++ pre).filter sel ++
          (post ++ ((plan.drop (i + 1)).take (finish - i)).flatten).filter sel := by
      rw [hrange]
      simp only [List.filter_append, List.append_assoc]
    have h := hsc.readsFrom_range hl hkept (by omega) hhi (fun r hr => ?_)
      (fun r hr => hlater r (List.mem_filter.1 hr).1)
    · have hsurv : (post ++ (plan.drop (i + 1)).flatten).filter
          (Survives ((start * s.db.config.chunkSize : Nat) : Int)
            (((finish + 1) * s.db.config.chunkSize : Nat) : Int) sel) =
          (post ++ ((plan.drop (i + 1)).take (finish - i)).flatten).filter sel ++
            (plan.drop (finish + 1)).flatten := by
        rw [hdrop, ← List.append_assoc, List.filter_append,
          filter_survives_of_inside fun r hr => hl.range_inside hsc.ordered (by
            rw [hrange, List.append_assoc pre]
            exact List.mem_append_right _ (List.mem_append_right _ hr)),
          filter_survives_of_outside fun r hr => .inr (hl.past_range hr)]
      rw [hsurv]
      exact h.mono (by omega)
    · -- the kept records before the position end by it
      have hlen := length_framed_pos r
      rcases List.mem_append.1 (List.mem_filter.1 hr).1 with hr | hr
      · have := (hl.chunks_within hr).2
        rw [show start + (i - start) = i by omega] at this
        omega
      · have := hpre r hr
        omega
  · -- the position is the end of the range: the last chunk of the range is full
    obtain rfl : i = finish := by
      have := Nat.le_of_mul_le_mul_right
        (show (finish + 1) * s.db.config.chunkSize ≤ (i + 1) * s.db.config.chunkSize by omega) hpos
      omega
    have hfull : (frames pre).length = s.db.config.chunkSize := by
      rw [Nat.succ_mul] at hhi
      omega
    obtain rfl : post = [] := by
      have hnil := length_mul_le_frames post
      unfold frameOverhead at hnil
      exact List.eq_nil_of_length_eq_zero (by omega)
    have h := hsc.readsFrom_past_start hl (Nat.lt_succ_self i) hfin
    rw [List.nil_append, filter_survives_of_outside fun r hr => .inr (hl.past_range hr), hfull,
      ← hsucc]
    exact h.mono (by omega)

/-- From every place where a read could start before scavenging, a read returns the first record
after it that survived. -/
theorem readsFrom_after (hl : Layout s plan)
    (hsc : Scavenged s plan start finish
      ((((plan.drop start).take (finish + 1 - start)).flatten).filter sel) s')
    {p : Int} {rs : List Record} (h : After s.db.config.chunkSize plan p rs) :
    ReadsFrom s' (plan.length - finish + start) p
      ((rs.filter (Survives ((start * s.db.config.chunkSize : Nat) : Int)
        (((finish + 1) * s.db.config.chunkSize : Nat) : Int) sel)).head?.map Record.entry) := by
  have hafter := (h.chain hl).2
  have hfin := hsc.within
  rcases h.at_chunk with ⟨i, pre, post, hi, rfl, rfl⟩ | ⟨rfl, rfl⟩
  · rcases Nat.lt_or_ge finish i with hpast | hle
    · -- past the range every record survives
      have hmul : (finish + 1) * s.db.config.chunkSize ≤ i * s.db.config.chunkSize :=
        Nat.mul_le_mul_right _ hpast
      rw [filter_survives_of_outside fun r hr => .inr (by have := hafter r hr; omega)]
      exact (hsc.readsFrom_past hl hpast hi).mono (by omega)
    · rcases Nat.lt_or_ge i start with hbefore | hin
      · exact hsc.readsFrom_before hl hbefore hi
      · exact hsc.readsFrom_inside hl hin hle hi
  · -- past the last chunk nothing is found
    have h := readsFrom_unfound (hsc.usable hl) hsc.number (hsc.beyond _ (Nat.le_refl _))
    rw [hsc.config] at h
    exact h.mono (Nat.zero_le _)

/-- A read from a place where a read could start before scavenging returns the first record
after it that survived. -/
theorem returns_readForward (hl : Layout s plan)
    (hsc : Scavenged s plan start finish
      ((((plan.drop start).take (finish + 1 - start)).flatten).filter sel) s')
    {p : Int} {rs : List Record} (h : After s.db.config.chunkSize plan p rs) :
    Returns (readForward p) s'
      ((rs.filter (Survives ((start * s.db.config.chunkSize : Nat) : Int)
        (((finish + 1) * s.db.config.chunkSize : Nat) : Int) sel)).head?.map Record.entry) := by
  have := hsc.length
  have := hsc.ordered
  have := hsc.within
  exact (hsc.readsFrom_after hl h).returns_readForward (hsc.usable hl) (by omega)

/-- A scan from a place where a read could start before scavenging, below a limit the surviving
records after it stand below, returns them. -/
theorem scans (hl : Layout s plan)
    (hsc : Scavenged s plan start finish
      ((((plan.drop start).take (finish + 1 - start)).flatten).filter sel) s')
    {p limit : Int} {rs : List Record} (h : After s.db.config.chunkSize plan p rs)
    (hlim : ∀ r ∈ rs.filter (Survives ((start * s.db.config.chunkSize : Nat) : Int)
      (((finish + 1) * s.db.config.chunkSize : Nat) : Int) sel), r.logPosition < limit) :
    Scans s' limit p ((rs.filter (Survives ((start * s.db.config.chunkSize : Nat) : Int)
      (((finish + 1) * s.db.config.chunkSize : Nat) : Int) sel)).map Record.entry) :=
  Scans.of_places (P := fun p rs' => ∃ rs, After s.db.config.chunkSize plan p rs ∧
      rs.filter (Survives ((start * s.db.config.chunkSize : Nat) : Int)
        (((finish + 1) * s.db.config.chunkSize : Nat) : Int) sel) = rs')
    (fun _ _ ⟨_, h, hrs⟩ => hrs ▸ hsc.returns_readForward hl h)
    (fun _ _ _ ⟨_, h, hrs⟩ => After.filter_next hl h hrs) ⟨rs, h, rfl⟩ hlim

/-- A scan of the whole log returns the records before the range, the kept records of the range
and the records after it, in their order. -/
theorem scans_log (hl : Layout s plan)
    (hsc : Scavenged s plan start finish
      ((((plan.drop start).take (finish + 1 - start)).flatten).filter sel) s') :
    Scans s' ((plan.length * s.db.config.chunkSize : Nat) : Int) 0
      (((plan.take start).flatten ++
        (((plan.drop start).take (finish + 1 - start)).flatten).filter sel ++
          (plan.drop (finish + 1)).flatten).map Record.entry) := by
  have hord := hsc.ordered
  have hzero : After s.db.config.chunkSize plan 0 plan.flatten :=
    .inr ⟨0, Nat.zero_le _, by simp, by simp⟩
  have hsplit : plan.flatten = (plan.take start).flatten ++
      ((((plan.drop start).take (finish + 1 - start)).flatten) ++
        (plan.drop (finish + 1)).flatten) := by
    have h := @flatten_drop_eq_take_append plan _ _ (Nat.zero_le start)
    rw [List.drop_zero, Nat.sub_zero] at h
    rw [h, flatten_drop_eq_take_append (show start ≤ finish + 1 by omega)]
  -- before the range and after it every record survives, and of the range the selected ones
  have hbefore : ∀ r ∈ (plan.take start).flatten,
      r.logPosition < ((start * s.db.config.chunkSize : Nat) : Int) := by
    intro r hr
    have h := (hl.chunks_within (a := 0) (by rwa [List.drop_zero])).2
    rw [Nat.zero_add] at h
    have := length_framed_pos r
    omega
  have hsurv : plan.flatten.filter
      (Survives ((start * s.db.config.chunkSize : Nat) : Int)
        (((finish + 1) * s.db.config.chunkSize : Nat) : Int) sel) =
      (plan.take start).flatten ++ (((plan.drop start).take (finish + 1 - start)).flatten).filter sel ++
        (plan.drop (finish + 1)).flatten := by
    rw [hsplit, List.filter_append, List.filter_append,
      filter_survives_of_outside fun r hr => .inl (hbefore r hr),
      filter_survives_of_inside fun r hr => hl.range_inside hord hr,
      filter_survives_of_outside fun r hr => .inr (hl.past_range hr), List.append_assoc]
  have hscan := hsc.scans hl hzero fun r hr =>
    hl.record_lt_end (a := 0) (by rw [List.drop_zero]; exact (List.mem_filter.1 hr).1)
  rwa [hsurv] at hscan

end Selected

end Scavenged

end EventStore
