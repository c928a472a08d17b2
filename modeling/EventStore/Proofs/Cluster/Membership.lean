import EventStore.Cluster.Gossip

/-!
# The members table and the snapshots heard

A node takes in member snapshots from gossip, skipping those of itself (its instance identifier or
its internal endpoint), and keeps its table ordered by instance identifier. One merge takes a
snapshot in when it is newer than the entry of its member, and then also drops the older entries
of other identifiers at the snapshot's endpoint (`members_merge`). Every message keeps the table
ordered and free of the node itself (`Table.handleAll`).

That replacement rule makes the table depend on the order of arrival: a node restarted under a
new identifier replaces its old self only when its snapshot comes after the old one's
(`merge_restart_order`). When the snapshots are coherent, that is two members heard of are at
different internal endpoints and time stamps tell the snapshots of one member apart (`Coherent`),
the table is a function of the set of snapshots heard: it holds exactly the newest snapshot of
each member (`Newest`), whatever the order, grouping or repetition of the messages that carry
them. The argument carries `Summary`, the table of a list of snapshots, through each merge, and
closes with the uniqueness of an ordered table with given entries.

Main statement: `handleAll_members_of_snapshots`.
-/

namespace EventStore

namespace Message

/-- The member snapshots a message carries from gossip. -/
def snapshots : Message → List Member
  | .gossip (.gossipReceived _ members) => members
  | _ => []

end Message

namespace GossipService

/-- Handles messages one after another, each at the time it comes with. -/
def handleAll (g : GossipService) (msgs : List (Message × Nat)) : GossipService :=
  msgs.foldl (fun g msg => g.handle msg.1 msg.2) g

/-- The member snapshots a sequence of messages carries. -/
def snapshots (msgs : List (Message × Nat)) : List Member :=
  msgs.flatMap (·.1.snapshots)

/-- A snapshot the node takes in from gossip: one of another node, at another endpoint. -/
def Heard (info : NodeInfo) (m : Member) : Prop :=
  m.instanceId ≠ info.instanceId ∧ m.internalTcp ≠ info.internalTcp

instance (info : NodeInfo) (m : Member) : Decidable (Heard info m) :=
  inferInstanceAs (Decidable (_ ∧ _))

/-- Members ordered by instance identifier, so each identifier at most once. -/
def Ordered (t : List Member) : Prop :=
  t.Pairwise fun a b => a.instanceId.value < b.instanceId.value

/-- The shape of every members table: ordered, and free of the node itself. -/
structure Table (info : NodeInfo) (t : List Member) : Prop where
  ordered : Ordered t
  heard : ∀ m ∈ t, Heard info m

/-- A snapshot of `S` the node takes in, and no older than any other of its member in `S`. -/
def Newest (info : NodeInfo) (S : List Member) (m : Member) : Prop :=
  m ∈ S ∧ Heard info m ∧
    ∀ m' ∈ S, Heard info m' → m'.instanceId = m.instanceId → m'.timeStamp ≤ m.timeStamp

/-- Snapshots that no order of arrival tells apart: two members heard of are at different
internal endpoints, and two snapshots of one member with one time stamp are the same. -/
def Coherent (info : NodeInfo) (S : List Member) : Prop :=
  ∀ a ∈ S, ∀ b ∈ S, Heard info a → Heard info b →
    (a.internalTcp = b.internalTcp → a.instanceId = b.instanceId) ∧
      (a.instanceId = b.instanceId → a.timeStamp = b.timeStamp → a = b)

/-- `t` is the table of the snapshots `S`: ordered, holding exactly the newest snapshot of each
member heard of, and an entry for each such member. -/
structure Summary (info : NodeInfo) (S t : List Member) : Prop where
  ordered : Ordered t
  mem_iff : ∀ m, m ∈ t ↔ Newest info S m
  covers : ∀ m ∈ S, Heard info m → ∃ k ∈ t, k.instanceId = m.instanceId

/-- What a merge of `m` keeps of a table: the entries of other members, less those that `m` shows
restarted under its identifier at its endpoint. -/
def keptFor (m : Member) (t : List Member) : List Member :=
  t.filter fun k =>
    !(k.internalTcp = m.internalTcp ∧ k.instanceId ≠ m.instanceId ∧ k.timeStamp < m.timeStamp) &&
      k.instanceId != m.instanceId

/-! ### One merge -/

theorem Uuid.eq_of_value_eq {a b : Uuid} (h : a.value = b.value) : a = b := by
  cases a
  cases h
  rfl

@[simp] theorem info_merge (g : GossipService) (m : Member) : (g.merge m).info = g.info := by
  unfold merge
  split
  · rfl
  · dsimp only
    split <;> split <;> rfl

/-- A merge takes the snapshot in exactly when the node hears it and it is newer than the entry
of its member, if any. -/
theorem members_merge (g : GossipService) (m : Member) :
    (g.merge m).members =
      if Heard g.info m ∧
          (g.members.find? fun k => k.instanceId = m.instanceId).all (·.timeStamp < m.timeStamp)
      then insertMember m (keptFor m g.members) else g.members := by
  unfold merge Heard
  by_cases hskip : m.instanceId = g.info.instanceId ∨ m.internalTcp = g.info.internalTcp
  · rw [if_pos hskip, if_neg fun ⟨⟨h₁, h₂⟩, _⟩ => hskip.elim h₁ h₂]
  · rw [if_neg hskip]
    have hheard := not_or.mp hskip
    rcases hf : g.members.find? (·.instanceId = m.instanceId) with _ | k
    · simp only [hf, Option.all_none, and_true, if_pos hheard]
      rfl
    · by_cases hts : k.timeStamp < m.timeStamp
      · simp only [hf, Option.all_some, hts, decide_true, and_true, if_pos hheard]
        rfl
      · simp only [hf, Option.all_some, hts, decide_false, Bool.not_false, Bool.false_eq_true,
          and_false, ↓reduceIte]

theorem mem_keptFor {m x : Member} {t : List Member} :
    x ∈ keptFor m t ↔ x ∈ t ∧
      ¬(x.internalTcp = m.internalTcp ∧ x.instanceId ≠ m.instanceId ∧ x.timeStamp < m.timeStamp) ∧
        x.instanceId ≠ m.instanceId := by
  simp only [keptFor, List.mem_filter, Bool.and_eq_true, Bool.not_eq_true', decide_eq_false_iff_not,
    bne_iff_ne]

/-- Where no other member shares the endpoint of `m`, a merge keeps every entry of another
member. -/
theorem mem_keptFor_of_sep {m x : Member} {t : List Member}
    (hsep : ∀ k ∈ t, k.internalTcp = m.internalTcp → k.instanceId = m.instanceId) :
    x ∈ keptFor m t ↔ x ∈ t ∧ x.instanceId ≠ m.instanceId := by
  rw [mem_keptFor]
  constructor
  · rintro ⟨hx, -, hne⟩
    exact ⟨hx, hne⟩
  · rintro ⟨hx, hne⟩
    exact ⟨hx, fun ⟨htcp, _⟩ => hne (hsep x hx htcp), hne⟩

@[simp] theorem mem_insertMember {m x : Member} {t : List Member} :
    x ∈ insertMember m t ↔ x = m ∨ x ∈ t := by
  induction t with
  | nil => simp [insertMember]
  | cons y t ih =>
    simp only [insertMember]
    split <;> simp [ih, or_left_comm]

theorem Ordered.insertMember {m : Member} {t : List Member} (ht : Ordered t)
    (hm : ∀ k ∈ t, k.instanceId ≠ m.instanceId) : Ordered (insertMember m t) := by
  induction t with
  | nil => simp [GossipService.insertMember, Ordered]
  | cons y t ih =>
    obtain ⟨hy, ht⟩ := List.pairwise_cons.mp ht
    simp only [GossipService.insertMember]
    split
    · rename_i hlt
      refine List.Pairwise.cons (fun k hk => ?_) (List.Pairwise.cons hy ht)
      rcases List.mem_cons.mp hk with rfl | hk
      · exact hlt
      · exact Nat.lt_trans hlt (hy k hk)
    · -- the identifiers differ, so `m` goes after `y`
      have hne : y.instanceId.value ≠ m.instanceId.value := fun h =>
        hm y (List.mem_cons_self ..) (Uuid.eq_of_value_eq h)
      refine List.Pairwise.cons (fun k hk => ?_) (ih ht fun k hk => hm k (List.mem_cons_of_mem _ hk))
      rcases mem_insertMember.mp hk with rfl | hk
      · omega
      · exact hy k hk

/-- In an ordered table an instance identifier names one entry. -/
theorem Ordered.eq_of_instanceId_eq {t : List Member} (ht : Ordered t) {a b : Member} (ha : a ∈ t)
    (hb : b ∈ t) (h : a.instanceId = b.instanceId) : a = b := by
  induction t with
  | nil => cases ha
  | cons y t ih =>
    obtain ⟨hy, ht⟩ := List.pairwise_cons.mp ht
    simp only [List.mem_cons] at ha hb
    rcases ha with rfl | ha
    · rcases hb with rfl | hb
      · rfl
      · exact absurd (h ▸ hy b hb) (Nat.lt_irrefl _)
    · rcases hb with rfl | hb
      · exact absurd (h ▸ hy a ha) (Nat.lt_irrefl _)
      · exact ih ht ha hb

theorem Ordered.nodup {t : List Member} (ht : Ordered t) : t.Nodup :=
  ht.imp fun hab heq => by
    subst heq
    exact Nat.lt_irrefl _ hab

/-- A merge keeps a table ordered and free of the node itself. -/
theorem Table.merge {g : GossipService} (ht : Table g.info g.members) (m : Member) :
    Table g.info (g.merge m).members := by
  rw [members_merge]
  split
  · rename_i hm
    refine ⟨Ordered.insertMember (ht.ordered.filter _) fun k hk => (mem_keptFor.mp hk).2.2, ?_⟩
    intro k hk
    rcases mem_insertMember.mp hk with rfl | hk
    · exact hm.1
    · exact ht.heard k (mem_keptFor.mp hk).1
  · exact ht

/-! ### The newest snapshots, one more heard -/

section Newest

variable {info : NodeInfo} {S : List Member} {m : Member}

theorem Newest.congr {S' : List Member} (hS : ∀ x, x ∈ S ↔ x ∈ S') {x : Member}
    (hx : Newest info S x) : Newest info S' x :=
  ⟨(hS x).mp hx.1, hx.2.1, fun y hy => hx.2.2 y ((hS y).mpr hy)⟩

theorem Coherent.mono {S' : List Member} (hc : Coherent info S) (hS : ∀ x ∈ S', x ∈ S) :
    Coherent info S' :=
  fun a ha b hb => hc a (hS a ha) b (hS b hb)

/-- A snapshot the node skips changes no newest snapshot. -/
theorem newest_append_of_not_heard (hm : ¬Heard info m) (x : Member) :
    Newest info (S ++ [m]) x ↔ Newest info S x := by
  constructor
  · rintro ⟨hx, hxh, hmax⟩
    rcases List.mem_append.mp hx with hx | hx
    · exact ⟨hx, hxh, fun y hy => hmax y (List.mem_append_left _ hy)⟩
    · exact absurd (List.mem_singleton.mp hx ▸ hxh) hm
  · intro hx
    refine ⟨List.mem_append_left _ hx.1, hx.2.1, fun y hy hyh => ?_⟩
    rcases List.mem_append.mp hy with hy | hy
    · exact hx.2.2 y hy hyh
    · exact absurd (List.mem_singleton.mp hy ▸ hyh) hm

/-- A snapshot no newer than the newest of its member changes no newest snapshot: one as new is
that snapshot. -/
theorem newest_append_of_stale {k : Member} (hk : Newest info S k)
    (hid : k.instanceId = m.instanceId) (hts : m.timeStamp ≤ k.timeStamp)
    (hc : Coherent info (S ++ [m])) (x : Member) :
    Newest info (S ++ [m]) x ↔ Newest info S x := by
  have hmS : m ∈ S ++ [m] := List.mem_append_right _ (List.mem_singleton_self _)
  have hkS : k ∈ S ++ [m] := List.mem_append_left _ hk.1
  constructor
  · rintro ⟨hx, hxh, hmax⟩
    refine ⟨?_, hxh, fun y hy => hmax y (List.mem_append_left _ hy)⟩
    rcases List.mem_append.mp hx with hx | hx
    · exact hx
    · -- `m` is newest only when as new as `k`, and then it is `k`
      rw [List.mem_singleton] at hx
      subst hx
      have hle := hmax k hkS hk.2.1 hid
      have hxk : x = k := (hc x hmS k hkS hxh hk.2.1).2 hid.symm (by omega)
      exact hxk ▸ hk.1
  · intro hx
    refine ⟨List.mem_append_left _ hx.1, hx.2.1, fun y hy hyh hyid => ?_⟩
    rcases List.mem_append.mp hy with hy | hy
    · exact hx.2.2 y hy hyh hyid
    · rw [List.mem_singleton] at hy
      subst hy
      have := hx.2.2 k hk.1 hk.2.1 (hid.trans hyid)
      omega

/-- A snapshot newer than every other of its member in `S` becomes the newest of its member and
leaves the others' newest snapshots as they are. -/
theorem newest_append_of_fresh (hm : Heard info m)
    (hfresh : ∀ y ∈ S, Heard info y → y.instanceId = m.instanceId → y.timeStamp < m.timeStamp)
    (x : Member) :
    Newest info (S ++ [m]) x ↔ x = m ∨ (Newest info S x ∧ x.instanceId ≠ m.instanceId) := by
  have hmS : m ∈ S ++ [m] := List.mem_append_right _ (List.mem_singleton_self _)
  constructor
  · rintro ⟨hx, hxh, hmax⟩
    rcases List.mem_append.mp hx with hx | hx
    · -- a snapshot of `S` stays newest only for another member
      have hne : x.instanceId ≠ m.instanceId := fun hid =>
        absurd (hmax m hmS hm hid.symm) (Int.not_le.mpr (hfresh x hx hxh hid))
      exact .inr ⟨⟨hx, hxh, fun y hy => hmax y (List.mem_append_left _ hy)⟩, hne⟩
    · exact .inl (List.mem_singleton.mp hx)
  · rintro (rfl | ⟨hx, hne⟩)
    · refine ⟨hmS, hm, fun y hy hyh hyid => ?_⟩
      rcases List.mem_append.mp hy with hy | hy
      · exact Int.le_of_lt (hfresh y hy hyh hyid)
      · exact Int.le_of_eq (congrArg Member.timeStamp (List.mem_singleton.mp hy))
    · refine ⟨List.mem_append_left _ hx.1, hx.2.1, fun y hy hyh hyid => ?_⟩
      rcases List.mem_append.mp hy with hy | hy
      · exact hx.2.2 y hy hyh hyid
      · rw [List.mem_singleton] at hy
        subst hy
        exact absurd hyid.symm hne

end Newest

/-! ### The table of the snapshots heard -/

section Summary

variable {info : NodeInfo} {S : List Member}

/-- An ordered table free of the node itself is the table of its own entries. -/
theorem Summary.ofTable {t : List Member} (ht : Table info t) : Summary info t t where
  ordered := ht.ordered
  mem_iff m := by
    refine ⟨fun hm => ⟨hm, ht.heard m hm, fun m' hm' _ hid => ?_⟩, fun hm => hm.1⟩
    exact Int.le_of_eq (congrArg Member.timeStamp (ht.ordered.eq_of_instanceId_eq hm' hm hid))
  covers m hm _ := ⟨m, hm, rfl⟩

/-- Two tables of the same set of snapshots are equal. -/
theorem Summary.unique {S' t t' : List Member} (h : Summary info S t) (h' : Summary info S' t')
    (hS : ∀ x, x ∈ S ↔ x ∈ S') : t = t' := by
  have hmem : ∀ x, x ∈ t ↔ x ∈ t' := fun x =>
    (h.mem_iff x).trans ⟨Newest.congr hS, Newest.congr fun y => (hS y).symm⟩ |>.trans
      (h'.mem_iff x).symm
  have hperm : t.Perm t' := (List.perm_ext_iff_of_nodup h.ordered.nodup h'.ordered.nodup).mpr hmem
  exact hperm.eq_of_pairwise (fun a b _ _ hab hba => absurd (Nat.lt_trans hab hba) (Nat.lt_irrefl _))
    h.ordered h'.ordered

/-- A snapshot newer than every one heard of its member replaces the member's entry, and drops
older entries at its endpoint. -/
theorem Summary.append_fresh {t : List Member} {m : Member} (hs : Summary info S t)
    (hc : Coherent info (S ++ [m])) (hm : Heard info m)
    (hfresh : ∀ y ∈ S, Heard info y → y.instanceId = m.instanceId → y.timeStamp < m.timeStamp) :
    Summary info (S ++ [m]) (insertMember m (keptFor m t)) := by
  have hmS : m ∈ S ++ [m] := List.mem_append_right _ (List.mem_singleton_self _)
  have hentry : ∀ k ∈ t, Newest info S k := fun k hk => (hs.mem_iff k).mp hk
  -- no other member's entry shares the endpoint of `m`
  have hsep : ∀ k ∈ t, k.internalTcp = m.internalTcp → k.instanceId = m.instanceId :=
    fun k hk => (hc k (List.mem_append_left _ (hentry k hk).1) m hmS (hentry k hk).2.1 hm).1
  refine ⟨Ordered.insertMember (hs.ordered.filter _) fun k hk =>
    ((mem_keptFor_of_sep hsep).mp hk).2, fun x => ?_, fun y hy hyh => ?_⟩
  · rw [newest_append_of_fresh hm hfresh, mem_insertMember, mem_keptFor_of_sep hsep, hs.mem_iff]
  · rcases List.mem_append.mp hy with hy | hy
    · obtain ⟨k, hk, hkid⟩ := hs.covers y hy hyh
      by_cases hkm : k.instanceId = m.instanceId
      · exact ⟨m, mem_insertMember.mpr (.inl rfl), hkm.symm.trans hkid⟩
      · exact ⟨k, mem_insertMember.mpr (.inr ((mem_keptFor_of_sep hsep).mpr ⟨hk, hkm⟩)), hkid⟩
    · exact ⟨m, mem_insertMember.mpr (.inl rfl), by rw [List.mem_singleton.mp hy]⟩

/-- A snapshot no newer than its member's entry changes nothing. -/
theorem Summary.append_stale {t : List Member} {m k : Member} (hs : Summary info S t)
    (hc : Coherent info (S ++ [m])) (hk : k ∈ t) (hkid : k.instanceId = m.instanceId)
    (hts : m.timeStamp ≤ k.timeStamp) : Summary info (S ++ [m]) t := by
  refine ⟨hs.ordered, fun x => ?_, fun y hy hyh => ?_⟩
  · rw [hs.mem_iff, newest_append_of_stale ((hs.mem_iff k).mp hk) hkid hts hc]
  · rcases List.mem_append.mp hy with hy | hy
    · exact hs.covers y hy hyh
    · exact ⟨k, hk, by rw [hkid, List.mem_singleton.mp hy]⟩

/-- A snapshot of the node itself, or of a member at its endpoint, changes nothing. -/
theorem Summary.append_not_heard {t : List Member} {m : Member} (hs : Summary info S t)
    (hm : ¬Heard info m) : Summary info (S ++ [m]) t := by
  refine ⟨hs.ordered, fun x => ?_, fun y hy hyh => ?_⟩
  · rw [hs.mem_iff, newest_append_of_not_heard hm]
  · rcases List.mem_append.mp hy with hy | hy
    · exact hs.covers y hy hyh
    · exact absurd (List.mem_singleton.mp hy ▸ hyh) hm

/-- One merge of a coherent snapshot turns the table of `S` into the table of `S` and the
snapshot. -/
theorem Summary.merge {g : GossipService} {m : Member} (hi : g.info = info)
    (hs : Summary info S g.members) (hc : Coherent info (S ++ [m])) :
    Summary info (S ++ [m]) (g.merge m).members := by
  -- the entry found for the member of `m` is its newest snapshot in `S`
  have hfound : ∀ k, g.members.find? (·.instanceId = m.instanceId) = some k →
      Newest info S k ∧ k.instanceId = m.instanceId := fun k hf =>
    ⟨(hs.mem_iff k).mp (List.mem_of_find?_eq_some hf), by simpa using List.find?_some hf⟩
  rw [members_merge, hi]
  split
  · rename_i hnew
    obtain ⟨hm, hnewer⟩ := hnew
    -- every snapshot of the member in `S` is older than `m`
    refine hs.append_fresh hc hm fun y hy hyh hyid => ?_
    obtain ⟨k, hk, hkid⟩ := hs.covers y hy hyh
    rcases hf : g.members.find? (·.instanceId = m.instanceId) with _ | k'
    · exact absurd (hkid.trans hyid) (by simpa using List.find?_eq_none.mp hf k hk)
    · obtain ⟨hk', hk'id⟩ := hfound k' hf
      have hle := hk'.2.2 y hy hyh (hyid.trans hk'id.symm)
      have hlt : k'.timeStamp < m.timeStamp := by simpa [hf] using hnewer
      omega
  · rename_i hold
    by_cases hm : Heard info m
    · -- the entry of the member is as new as `m`
      rcases hf : g.members.find? (·.instanceId = m.instanceId) with _ | k
      · simp [hm, hf] at hold
      · have hts : m.timeStamp ≤ k.timeStamp := by simpa [hm, hf] using hold
        exact hs.append_stale hc (List.mem_of_find?_eq_some hf) (hfound k hf).2 hts
    · exact hs.append_not_heard hm

/-- Merging coherent snapshots one after another keeps the table of everything heard. -/
theorem Summary.foldl_merge (L : List Member) {g : GossipService} (hi : g.info = info)
    (hs : Summary info S g.members) (hc : Coherent info (S ++ L)) :
    Summary info (S ++ L) (L.foldl GossipService.merge g).members ∧
      (L.foldl GossipService.merge g).info = info := by
  induction L generalizing g S with
  | nil => simpa using ⟨hs, hi⟩
  | cons m L ih =>
    have hc' : Coherent info (S ++ [m] ++ L) := by simpa using hc
    have hm : Coherent info (S ++ [m]) := hc'.mono fun x hx => List.mem_append_left _ hx
    simpa using ih ((info_merge g m).trans hi) (hs.merge hi hm) hc'

end Summary

/-! ### Messages -/

/-- A message is gossip received, handled by merging its snapshots, or leaves the table and the
node's identity alone. -/
theorem handle_cases (g : GossipService) (msg : Message) (now : Nat) :
    (∃ sender members, msg = .gossip (.gossipReceived sender members) ∧
        g.handle msg now = g.received sender members now) ∨
      (msg.snapshots = [] ∧ (g.handle msg now).members = g.members ∧
        (g.handle msg now).info = g.info) := by
  unfold handle
  split
  · exact .inl ⟨_, _, rfl, rfl⟩
  · exact .inr ⟨rfl, rfl, rfl⟩
  · exact .inr ⟨rfl, rfl, rfl⟩
  · refine .inr ⟨rfl, ?_⟩
    split <;> exact ⟨rfl, rfl⟩
  · rename_i hrecv _ _ _
    refine .inr ⟨?_, rfl, rfl⟩
    unfold Message.snapshots
    split
    · exact absurd rfl (hrecv _ _)
    · rfl

theorem Table.foldl_merge (L : List Member) {g : GossipService} (ht : Table g.info g.members) :
    Table (L.foldl GossipService.merge g).info (L.foldl GossipService.merge g).members := by
  induction L generalizing g with
  | nil => exact ht
  | cons m L ih =>
    refine ih ?_
    rw [info_merge]
    exact ht.merge m

/-- Every message keeps the table ordered and free of the node itself. -/
theorem Table.handle {g : GossipService} (ht : Table g.info g.members) (msg : Message)
    (now : Nat) : Table (g.handle msg now).info (g.handle msg now).members := by
  rcases handle_cases g msg now with ⟨sender, members, -, heq⟩ | ⟨-, hm, hi⟩
  · -- the merges see the table as it was: only the contact times changed
    rw [heq]
    exact Table.foldl_merge members ht
  · rw [hm, hi]
    exact ht

theorem Table.handleAll {g : GossipService} (ht : Table g.info g.members)
    (msgs : List (Message × Nat)) : Table (g.handleAll msgs).info (g.handleAll msgs).members := by
  induction msgs generalizing g with
  | nil => exact ht
  | cons msg msgs ih => exact ih (ht.handle msg.1 msg.2)

section Summary

variable {info : NodeInfo} {S : List Member}

theorem Summary.handle {g : GossipService} (hi : g.info = info) (hs : Summary info S g.members)
    (msg : Message) (now : Nat) (hc : Coherent info (S ++ msg.snapshots)) :
    Summary info (S ++ msg.snapshots) (g.handle msg now).members ∧
      (g.handle msg now).info = info := by
  rcases handle_cases g msg now with ⟨sender, members, rfl, heq⟩ | ⟨hnil, hm, hinfo⟩
  · rw [heq]
    exact Summary.foldl_merge members hi hs hc
  · rw [hnil, List.append_nil, hm, hinfo]
    exact ⟨hs, hi⟩

/-- Handling coherent gossip, mixed with any other messages, keeps the table of everything
heard. -/
theorem Summary.handleAll (msgs : List (Message × Nat)) {g : GossipService} (hi : g.info = info)
    (hs : Summary info S g.members) (hc : Coherent info (S ++ snapshots msgs)) :
    Summary info (S ++ snapshots msgs) (g.handleAll msgs).members ∧
      (g.handleAll msgs).info = info := by
  induction msgs generalizing g S with
  | nil => simpa [snapshots, handleAll] using ⟨hs, hi⟩
  | cons msg msgs ih =>
    have hc' : Coherent info (S ++ msg.1.snapshots ++ snapshots msgs) := by
      simpa [snapshots] using hc
    obtain ⟨hs', hi'⟩ :=
      Summary.handle hi hs msg.1 msg.2 (hc'.mono fun x hx => List.mem_append_left _ hx)
    simpa [snapshots, handleAll] using ih hi' hs' hc'

end Summary

/-- Members the table has no entry for, heard for the first time, are taken in. -/
theorem members_merge_of_absent {g : GossipService} {m : Member} (hm : Heard g.info m)
    (habsent : ∀ k ∈ g.members, k.instanceId ≠ m.instanceId) :
    (g.merge m).members = insertMember m (keptFor m g.members) := by
  have hnone : g.members.find? (·.instanceId = m.instanceId) = none :=
    List.find?_eq_none.mpr fun k hk => by simpa using habsent k hk
  rw [members_merge, if_pos ⟨hm, by rw [hnone]; rfl⟩]

/-- Merging a member absent from the table leaves absent every other identifier that was. -/
theorem absent_merge {g : GossipService} {m : Member} {x : Uuid} (hm : Heard g.info m)
    (habsent : ∀ k ∈ g.members, k.instanceId ≠ m.instanceId)
    (hx : ∀ k ∈ g.members, k.instanceId ≠ x) (hmx : m.instanceId ≠ x) :
    ∀ k ∈ (g.merge m).members, k.instanceId ≠ x := by
  intro k hk
  rw [members_merge_of_absent hm habsent, mem_insertMember] at hk
  rcases hk with rfl | hk
  · exact hmx
  · exact hx k (mem_keptFor.mp hk).1

/-- The order of arrival matters when a node restarts under a new identifier at its old
endpoint: the new snapshot replaces the old entry when it comes second, but the old snapshot is
taken in beside the new entry when it comes second. -/
theorem merge_restart_order {g : GossipService} {old new : Member} (hold : Heard g.info old)
    (hnew : Heard g.info new) (htcp : old.internalTcp = new.internalTcp)
    (hid : old.instanceId ≠ new.instanceId) (hts : old.timeStamp < new.timeStamp)
    (habsent : ∀ k ∈ g.members, k.instanceId ≠ old.instanceId ∧ k.instanceId ≠ new.instanceId) :
    new ∈ ((g.merge old).merge new).members ∧ old ∉ ((g.merge old).merge new).members ∧
      old ∈ ((g.merge new).merge old).members ∧ new ∈ ((g.merge new).merge old).members := by
  have hold' := members_merge_of_absent hold fun k hk => (habsent k hk).1
  have hnew' := members_merge_of_absent hnew fun k hk => (habsent k hk).2
  -- neither first merge gives the other identifier an entry
  have hsecond : ((g.merge old).merge new).members =
      insertMember new (keptFor new (g.merge old).members) :=
    members_merge_of_absent (by rwa [info_merge])
      (absent_merge hold (fun k hk => (habsent k hk).1) (fun k hk => (habsent k hk).2) hid)
  have hsecond' : ((g.merge new).merge old).members =
      insertMember old (keptFor old (g.merge new).members) :=
    members_merge_of_absent (by rwa [info_merge])
      (absent_merge hnew (fun k hk => (habsent k hk).2) (fun k hk => (habsent k hk).1)
        (Ne.symm hid))
  refine ⟨?_, ?_, ?_, ?_⟩
  · rw [hsecond, mem_insertMember]
    exact .inl rfl
  · -- the old entry is older, of another identifier, at the same endpoint: dropped
    rw [hsecond, mem_insertMember, mem_keptFor]
    rintro (heq | ⟨-, hkept, -⟩)
    · exact hid (congrArg Member.instanceId heq)
    · exact hkept ⟨htcp, hid, hts⟩
  · rw [hsecond', mem_insertMember]
    exact .inl rfl
  · -- the new entry is newer than the old snapshot: kept
    rw [hsecond', mem_insertMember, mem_keptFor, hnew', mem_insertMember]
    refine .inr ⟨.inl rfl, fun ⟨_, _, hlt⟩ => ?_, Ne.symm hid⟩
    exact absurd hlt (Int.not_lt.mpr (Int.le_of_lt hts))

/-- Coherent gossip builds one table whatever the order of arrival. Handled from any table
ordered and free of the node itself, two sequences of messages carrying the same snapshots, in
any order, grouping or number of copies and among any other messages, leave the same table; and
that table holds exactly the newest snapshot of each member heard of, in identifier order, and
never the node itself. -/
theorem handleAll_members_eq_of_snapshots {g : GossipService} (hg : Table g.info g.members)
    {msgs msgs' : List (Message × Nat)}
    (hsame : snapshots msgs ⊆ snapshots msgs' ∧ snapshots msgs' ⊆ snapshots msgs)
    (hc : Coherent g.info (g.members ++ snapshots msgs)) :
    (g.handleAll msgs).members = (g.handleAll msgs').members ∧
      Summary g.info (g.members ++ snapshots msgs) (g.handleAll msgs).members := by
  have hS : ∀ x, x ∈ g.members ++ snapshots msgs ↔ x ∈ g.members ++ snapshots msgs' := by
    intro x
    simp only [List.mem_append]
    exact or_congr_right ⟨fun hx => hsame.1 hx, fun hx => hsame.2 hx⟩
  have hc' : Coherent g.info (g.members ++ snapshots msgs') :=
    hc.mono fun x hx => (hS x).mpr hx
  have h := (Summary.handleAll msgs rfl (Summary.ofTable hg) hc).1
  have h' := (Summary.handleAll msgs' rfl (Summary.ofTable hg) hc').1
  exact ⟨h.unique h' hS, h⟩

/-- A node at port 1001 that has heard of nobody. -/
def quietNode : GossipService :=
  { info := ⟨⟨1⟩, ⟨.v4 1, 1001⟩, none, ⟨.v4 1, 0⟩, none, ⟨.v4 1, 0⟩, 0⟩
    progress := {}
    seeds := []
    timeoutMs := 1000 }

/-- A snapshot of member `id`, at port `port`, taken at `ts`. -/
def snapshotAt (id port : Nat) (ts : Int) : Member :=
  { instanceId := ⟨id⟩, timeStamp := ts, state := .unknown, isAlive := false,
    internalTcp := ⟨.v4 1, port⟩, internalSecureTcp := none, externalTcp := ⟨.v4 1, 0⟩,
    externalSecureTcp := none, externalHttp := ⟨.v4 1, 0⟩, lastCommitPosition := -1,
    writerCheckpoint := 0, chaserCheckpoint := 0, epochPosition := -1, epochNumber := -1,
    epochId := .nil, nodePriority := 0 }

/-- Two snapshots of member 2 and one of member 3, in two messages. -/
def gossipInOrder : List (Message × Nat) :=
  [(.gossip (.gossipReceived ⟨.v4 1, 1002⟩ [snapshotAt 2 1002 10]), 5),
    (.gossip (.gossipReceived ⟨.v4 1, 1003⟩ [snapshotAt 2 1002 20, snapshotAt 3 1003 7]), 6)]

/-- The same messages the other way round, with a state change between them. -/
def gossipReordered : List (Message × Nat) :=
  [(.gossip (.gossipReceived ⟨.v4 1, 1003⟩ [snapshotAt 2 1002 20, snapshotAt 3 1003 7]), 5),
    (.system (.becomeUnknown ⟨9⟩), 6),
    (.gossip (.gossipReceived ⟨.v4 1, 1002⟩ [snapshotAt 2 1002 10]), 7)]

theorem two_gossip_orders_agree :
    Table quietNode.info quietNode.members ∧
      (snapshots gossipInOrder ⊆ snapshots gossipReordered ∧
        snapshots gossipReordered ⊆ snapshots gossipInOrder) ∧
      Coherent quietNode.info (quietNode.members ++ snapshots gossipInOrder) ∧
      ((quietNode.handleAll gossipInOrder).members = (quietNode.handleAll gossipReordered).members ∧
        Summary quietNode.info (quietNode.members ++ snapshots gossipInOrder)
          (quietNode.handleAll gossipInOrder).members) := by
  have hg : Table quietNode.info quietNode.members := ⟨List.Pairwise.nil, fun _ h => nomatch h⟩
  have hsame : snapshots gossipInOrder ⊆ snapshots gossipReordered ∧
      snapshots gossipReordered ⊆ snapshots gossipInOrder := by
    decide
  have hc : Coherent quietNode.info (quietNode.members ++ snapshots gossipInOrder) := by
    unfold Coherent
    decide
  exact ⟨hg, hsame, hc, handleAll_members_eq_of_snapshots hg hsame hc⟩

end GossipService

end EventStore
