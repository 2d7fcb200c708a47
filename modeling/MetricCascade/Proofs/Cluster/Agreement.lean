/-
Members that share a directory agree. Whoever has registered sees the addresses that anybody has
registered, in one order that only depends on which they are; so all find one owner of an indicator,
and the same one for every window that it rolls up to.
-/
import MetricCascade.Cluster.Directory
import Mathlib.Data.Finset.Sort
import Mathlib.Data.String.Basic
import Mathlib.Logic.Relation

namespace MetricCascade

namespace Address

/-! ## The order of addresses -/

/-- By host and then by number, strictly. -/
def Before (a b : Address) : Prop := a.host < b.host ∨ a.host = b.host ∧ a.portNumber < b.portNumber

theorem precedes_iff {a b : Address} : a.precedes b = true ↔ a.Before b ∨ a = b := by
  obtain ⟨host, number⟩ := a
  obtain ⟨host', number'⟩ := b
  simp only [precedes, Before, Bool.or_eq_true, Bool.and_eq_true, decide_eq_true_eq, Address.mk.injEq, or_assoc,
    ← and_or_left, le_iff_lt_or_eq]

theorem Before.trans {a b c : Address} (hab : a.Before b) (hbc : b.Before c) : a.Before c := by
  rcases hab with hab | ⟨hab, hnumber⟩ <;> rcases hbc with hbc | ⟨hbc, hnumber'⟩
  · exact .inl (hab.trans hbc)
  · exact .inl (hbc ▸ hab)
  · exact .inl (hab ▸ hbc)
  · exact .inr ⟨hab.trans hbc, hnumber.trans hnumber'⟩

theorem Before.irrefl (a : Address) : ¬ a.Before a := by
  rintro (h | ⟨-, h⟩)
  · exact lt_irrefl _ h
  · exact lt_irrefl _ h

theorem before_or_eq_or_before (a b : Address) : a.Before b ∨ a = b ∨ b.Before a := by
  obtain ⟨host, number⟩ := a
  obtain ⟨host', number'⟩ := b
  rcases lt_trichotomy host host' with h | rfl | h
  · exact .inl (.inl h)
  · rcases lt_trichotomy number number' with h | rfl | h
    · exact .inl (.inr ⟨rfl, h⟩)
    · exact .inr (.inl rfl)
    · exact .inr (.inr (.inr ⟨rfl, h⟩))
  · exact .inr (.inr (.inl h))

/-- Comes first, or is the same. -/
def Precedes (a b : Address) : Prop := a.precedes b = true

instance : DecidableRel Precedes := fun a b => inferInstanceAs (Decidable (a.precedes b = true))

instance : IsTrans Address Precedes where
  trans a b c hab hbc := by
    rcases precedes_iff.1 hab with hab | rfl
    · rcases precedes_iff.1 hbc with hbc | rfl
      · exact precedes_iff.2 (.inl (hab.trans hbc))
      · exact precedes_iff.2 (.inl hab)
    · exact hbc

instance : Std.Antisymm Precedes where
  antisymm a b hab hba := by
    rcases precedes_iff.1 hab with hab | rfl
    · rcases precedes_iff.1 hba with hba | rfl
      · exact absurd (hab.trans hba) (Before.irrefl a)
      · rfl
    · rfl

instance : Std.Total Precedes where
  total a b := by
    rcases before_or_eq_or_before a b with h | rfl | h
    · exact .inl (precedes_iff.2 (.inl h))
    · exact .inl (precedes_iff.2 (.inr rfl))
    · exact .inr (precedes_iff.2 (.inl h))

/-- Some addresses in their order. -/
def inOrder (s : Finset Address) : List Address := s.sort Precedes

theorem mem_inOrder {s : Finset Address} {a : Address} : a ∈ inOrder s ↔ a ∈ s := Finset.mem_sort Precedes

theorem inOrder_pairwise (s : Finset Address) : (inOrder s).Pairwise Before := by
  have hsorted : (inOrder s).Pairwise Precedes := Finset.pairwise_sort s Precedes
  have hnodup : (inOrder s).Nodup := Finset.sort_nodup s Precedes
  refine (hsorted.and hnodup).imp ?_
  rintro a b ⟨hab, hne⟩
  exact (precedes_iff.1 hab).resolve_right hne

/-- Sorting what has no repetition puts its addresses in order. -/
theorem mergeSort_eq_inOrder {l : List Address} (h : l.Nodup) : l.mergeSort precedes = inOrder l.toFinset := by
  have hperm : (l.mergeSort precedes).Perm l := List.mergeSort_perm l precedes
  have hsorted : (l.mergeSort precedes).Pairwise Precedes :=
    List.pairwise_mergeSort (IsTrans.trans (r := Precedes))
      (fun a b => Bool.or_eq_true_iff.2 (Std.Total.total (r := Precedes) a b)) l
  have hset : (l.mergeSort precedes).toFinset = l.toFinset := List.toFinset_eq_of_perm _ _ hperm
  rw [← hset]
  exact ((List.toFinset_sort Precedes (hperm.nodup_iff.2 h)).2 hsorted).symm

end Address

/-! ## Directories -/

/-- The addresses of a directory. -/
def Directory.addresses (d : Directory) : List Address := d.map (·.address)

namespace Directory

variable {d : Directory} {p : Peer}

theorem any_same_iff : d.any p.same = true ↔ p.address ∈ d.addresses := by
  unfold addresses
  rw [List.any_eq_true, List.mem_map]
  constructor
  · rintro ⟨q, hq, hsame⟩
    exact ⟨q, hq, (beq_iff_eq.1 hsame).symm⟩
  · rintro ⟨q, hq, haddress⟩
    exact ⟨q, hq, beq_iff_eq.2 haddress.symm⟩

/-- A new address goes to the end. -/
theorem addresses_add :
    (d.add p).addresses = if p.address ∈ d.addresses then d.addresses else d.addresses ++ [p.address] := by
  unfold add
  split
  · rename_i h
    rw [if_pos (any_same_iff.1 h)]
  · rename_i h
    rw [if_neg fun hmem => h (any_same_iff.2 hmem)]
    simp [addresses]

theorem nodup_add (h : d.addresses.Nodup) : (d.add p).addresses.Nodup := by
  rw [addresses_add]
  split
  · exact h
  · rename_i hnot
    refine List.nodup_append.2 ⟨h, List.nodup_singleton _, ?_⟩
    rintro a ha b hb rfl
    exact hnot (List.mem_singleton.1 hb ▸ ha)

theorem toFinset_add : (d.add p).addresses.toFinset = insert p.address d.addresses.toFinset := by
  rw [addresses_add]
  split
  · rename_i h
    exact (Finset.insert_eq_of_mem (List.mem_toFinset.2 h)).symm
  · rw [List.toFinset_append, Finset.union_comm]
    rfl

/-- What a peer sees of a directory. -/
theorem sorted_seenBy (h : d.addresses.Nodup) (self : Peer) :
    (d.map (·.seenBy self)).mergeSort Peer.precedes =
      (Address.inOrder d.addresses.toFinset).map fun a => ⟨a, a == self.address⟩ := by
  have hmap : d.map (·.seenBy self) = d.addresses.map fun a => ⟨a, a == self.address⟩ := by
    simp [addresses, Peer.seenBy, Peer.same]
  rw [hmap, ← Address.mergeSort_eq_inOrder h]
  -- the mark has no part in the order
  have horder : ∀ a ∈ d.addresses, ∀ b ∈ d.addresses,
      a.precedes b = Peer.precedes ⟨a, a == self.address⟩ ⟨b, b == self.address⟩ := fun _ _ _ _ => rfl
  exact (List.map_mergeSort horder).symm

end Directory

/-! ## Owners -/

/-- `y` is the same aggregate in a window of some level. -/
def Indicator.RollsUpTo (x y : Indicator) : Prop := ∃ level, x.rollup level = .ok y

theorem Indicator.rollsUpTo_routingHash {x y : Indicator} (h : x.RollsUpTo y) : y.routingHash = x.routingHash := by
  obtain ⟨level, hroll⟩ := h
  unfold Indicator.rollup at hroll
  split at hroll
  · cases hroll
    rfl
  · cases hroll

theorem Indicator.routingHash_of_rollups {x y : Indicator} (h : Relation.ReflTransGen Indicator.RollsUpTo x y) :
    y.routingHash = x.routingHash := by
  induction h with
  | refl => rfl
  | tail _ hstep ih => exact (Indicator.rollsUpTo_routingHash hstep).trans ih

theorem route?_map {α β : Type} (f : α → β) (nodes : List α) (hash : UInt64) :
    route? (nodes.map f) hash = (route? nodes hash).map f := by
  unfold route?
  rw [List.length_map, List.getElem?_map]

theorem exists_route? {α : Type} {nodes : List α} (h : nodes ≠ []) (hash : UInt64) :
    ∃ a ∈ nodes, route? nodes hash = some a := by
  have hlt : hash.toNat % nodes.length < nodes.length := Nat.mod_lt _ (List.length_pos_iff.2 h)
  exact ⟨nodes[hash.toNat % nodes.length], List.getElem_mem hlt, List.getElem?_eq_getElem hlt⟩

namespace Cluster

/-! ## Registrations -/

variable {n : Nat}

/-- The cluster of so many members with one directory, after registrations by them. -/
def after (calls : List (Fin n × Peer)) : Cluster :=
  calls.foldl (fun c call => (c.register call.1 call.2).2) (.shared n)

/-- The usable ones of the addresses that were registered. -/
def registered (calls : List (Fin n × Peer)) : Finset Address :=
  ((calls.map (·.2.address)).filter (·.isUsable)).toFinset

/-- The last peer with a usable address that a member has registered. -/
def latest? (calls : List (Fin n × Peer)) (m : Fin n) : Option Peer :=
  (calls.filter fun call => call.1 = m ∧ call.2.address.isUsable).getLast?.map (·.2)

variable {calls : List (Fin n × Peer)} {c : Cluster} {m : Fin n} {p : Peer}

theorem mem_registered {a : Address} :
    a ∈ registered calls ↔ ∃ call ∈ calls, call.2.address = a ∧ a.isUsable = true := by
  simp only [registered, List.mem_toFinset, List.mem_filter, List.mem_map]
  constructor
  · rintro ⟨⟨call, hcall, ha⟩, husable⟩
    exact ⟨call, hcall, ha, husable⟩
  · rintro ⟨call, hcall, ha, husable⟩
    exact ⟨⟨call, hcall, ha⟩, husable⟩

theorem registered_append (calls : List (Fin n × Peer)) (call : Fin n × Peer) :
    registered (calls ++ [call]) =
      if call.2.address.isUsable then insert call.2.address (registered calls) else registered calls := by
  ext a
  split
  · rename_i husable
    simp only [mem_registered, Finset.mem_insert, List.mem_append, List.mem_singleton]
    grind
  · rename_i husable
    simp only [mem_registered, List.mem_append, List.mem_singleton]
    grind

theorem latest?_append (calls : List (Fin n × Peer)) (call : Fin n × Peer) (m : Fin n) :
    latest? (calls ++ [call]) m =
      if call.1 = m ∧ call.2.address.isUsable = true then some call.2 else latest? calls m := by
  unfold latest?
  rw [List.filter_append]
  split
  · rename_i h
    simp [h]
  · rename_i h
    simp [h]

theorem mem_of_latest? (h : latest? calls m = some p) : p.address ∈ registered calls := by
  obtain ⟨call, hcall, rfl⟩ := Option.map_eq_some_iff.1 h
  obtain ⟨hmem, hboth⟩ := List.mem_filter.1 (List.mem_of_getLast? hcall)
  exact mem_registered.2 ⟨call, hmem, rfl, (of_decide_eq_true hboth).2⟩

theorem register_unusable (h : p.address.isUsable = false) (c : Cluster) (m : Nat) :
    c.register m p = (.error (.unusable p.address), c) := by
  unfold register
  rw [h]
  rfl

theorem register_usable (h : p.address.isUsable = true) (c : Cluster) {m i : Nat} {before : Option Peer}
    (hm : c.members[m]? = some (i, before)) :
    c.register m p = (.ok (), ⟨c.directories.modify i (·.add p), c.members.set m (i, some p)⟩) := by
  unfold register
  rw [h, hm]
  rfl

/-! ## Sharing a directory -/

/-- The members share one directory of what was registered, and each keeps the last that it has registered. -/
structure Sharing (calls : List (Fin n × Peer)) (c : Cluster) : Prop where
  directory : ∃ d : Directory, c.directories = [d] ∧ d.addresses.Nodup ∧ d.addresses.toFinset = registered calls
  members : ∀ m : Fin n, c.members[m.1]? = some (0, latest? calls m)

theorem sharing_nil : Sharing (n := n) [] (.shared n) where
  directory := ⟨[], rfl, .nil, rfl⟩
  members m := by
    unfold shared
    simp [latest?]

/-- A registration adds its address and its member's choice if it is usable, and nothing if not. -/
theorem Sharing.register (h : Sharing calls c) (call : Fin n × Peer) :
    Sharing (calls ++ [call]) (c.register call.1 call.2).2 := by
  cases husable : call.2.address.isUsable with
  | false =>
    rw [register_unusable husable]
    refine ⟨?_, fun m => ?_⟩
    · rw [registered_append, husable, if_neg Bool.false_ne_true]
      exact h.directory
    · rw [latest?_append, husable, if_neg fun h => Bool.false_ne_true h.2]
      exact h.members m
  | true =>
    obtain ⟨d, hd, hnodup, hset⟩ := h.directory
    rw [register_usable husable c (h.members call.1)]
    refine ⟨⟨d.add call.2, ?_, Directory.nodup_add hnodup, ?_⟩, fun m => ?_⟩
    · rw [hd]
      rfl
    · rw [Directory.toFinset_add, hset, registered_append, husable, if_pos rfl]
    · rw [latest?_append, husable, List.getElem?_set, h.members m]
      have hlt : call.1.1 < c.members.length := (List.getElem?_eq_some_iff.1 (h.members call.1)).1
      by_cases hm : call.1 = m
      · subst hm
        simp [hlt]
      · simp [hm, Fin.val_inj]

theorem sharing_after (calls : List (Fin n × Peer)) : Sharing calls (after calls) := by
  induction calls using List.reverseRecOn with
  | nil => exact sharing_nil
  | append_singleton calls call ih =>
    unfold after
    rw [List.foldl_append]
    exact ih.register call

theorem Sharing.peers_of_none (h : Sharing calls c) (hm : latest? calls m = none) :
    c.peers m = .error .notRegistered := by
  unfold peers
  rw [h.members m, hm]

/-- A member that has registered sees every address in its order, its own one marked. -/
theorem Sharing.peers_of_some (h : Sharing calls c) (hm : latest? calls m = some p) :
    c.peers m = .ok ((Address.inOrder (registered calls)).map fun a => ⟨a, a == p.address⟩) := by
  obtain ⟨d, hd, hnodup, hset⟩ := h.directory
  unfold peers
  rw [h.members m, hm, hd, ← hset]
  exact congrArg Except.ok (Directory.sorted_seenBy hnodup p)

variable {ps : List Peer}

/-- Who sees peers at all has registered. -/
theorem latest?_of_peers (h : (after calls).peers m = .ok ps) : ∃ self, latest? calls m = some self := by
  cases hlatest : latest? calls m with
  | none =>
    rw [(sharing_after calls).peers_of_none hlatest] at h
    cases h
  | some self => exact ⟨self, rfl⟩

theorem addresses_of_peers (h : (after calls).peers m = .ok ps) :
    ps.map (·.address) = Address.inOrder (registered calls) := by
  obtain ⟨self, hself⟩ := latest?_of_peers h
  rw [(sharing_after calls).peers_of_some hself] at h
  cases h
  rw [List.map_map]
  exact List.map_id _

/-- The owner of an indicator among those that a member sees only depends on what was registered. -/
theorem ownerOf?_of_peers (h : (after calls).peers m = .ok ps) {x y : Indicator}
    (hxy : Relation.ReflTransGen Indicator.RollsUpTo x y) :
    (ownerOf? ps y).map (·.address) = ownerOf? (Address.inOrder (registered calls)) x := by
  unfold ownerOf?
  rw [← route?_map, addresses_of_peers h, Indicator.routingHash_of_rollups hxy]

theorem own_of_peers {self : Peer} (hself : latest? calls m = some self) (h : (after calls).peers m = .ok ps) :
    ps.filter (·.own) = [⟨self.address, true⟩] := by
  rw [(sharing_after calls).peers_of_some hself] at h
  cases h
  have hmem : self.address ∈ Address.inOrder (registered calls) := Address.mem_inOrder.2 (mem_of_latest? hself)
  have hnodup : (Address.inOrder (registered calls)).Nodup := Finset.sort_nodup _ _
  have hcomp : (Peer.own ∘ fun a => (⟨a, a == self.address⟩ : Peer)) = (· == self.address) := rfl
  rw [List.filter_map, hcomp, List.filter_beq, List.count_eq_one_of_mem hnodup hmem]
  simp

end Cluster

/-! ## Agreement -/

open Cluster

/-- The members of a cluster agree. After any registrations, those who have registered see all usable
addresses that anybody has registered, in strict order, and the address that they have registered last
marked alone; the others see none. An unusable address is refused and nothing changes. All find the same
owner of an indicator and of whatever it rolls up to, also if the same addresses were registered by
others, in another order. -/
theorem members_agree {n : Nat} (calls : List (Fin n × Peer)) :
    (Address.inOrder (registered calls)).Pairwise Address.Before ∧
    (∀ a, a ∈ Address.inOrder (registered calls) ↔ ∃ call ∈ calls, call.2.address = a ∧ a.isUsable = true) ∧
    (∀ (m : Fin n) (p : Peer),
      (p.address.isUsable = true → ((after calls).register m p).1 = .ok ()) ∧
      (p.address.isUsable = false → (after calls).register m p = (.error (.unusable p.address), after calls))) ∧
    (∀ m, latest? calls m = none → (after calls).peers m = .error .notRegistered) ∧
    (∀ m self, latest? calls m = some self → ∃ ps, (after calls).peers m = .ok ps ∧
      ps.map (·.address) = Address.inOrder (registered calls) ∧ ps.filter (·.own) = [⟨self.address, true⟩]) ∧
    ∀ (k : Nat) (others : List (Fin k × Peer)) (m : Fin n) (m' : Fin k) (ps qs : List Peer) (x y : Indicator),
      registered others = registered calls → (after calls).peers m = .ok ps → (after others).peers m' = .ok qs →
        Relation.ReflTransGen Indicator.RollsUpTo x y →
          ∃ owner ∈ registered calls,
            (ownerOf? ps x).map (·.address) = some owner ∧ (ownerOf? qs y).map (·.address) = some owner := by
  have hsharing := sharing_after calls
  refine ⟨Address.inOrder_pairwise _, fun a => Address.mem_inOrder.trans mem_registered, fun m p => ⟨?_, ?_⟩,
    fun m => hsharing.peers_of_none, ?_, ?_⟩
  · intro husable
    rw [register_usable husable _ (hsharing.members m)]
  · exact fun hunusable => register_unusable hunusable _ m
  · intro m self hself
    have hpeers := hsharing.peers_of_some hself
    exact ⟨_, hpeers, addresses_of_peers hpeers, own_of_peers hself hpeers⟩
  · intro k others m m' ps qs x y hsame hps hqs hxy
    obtain ⟨self, hself⟩ := latest?_of_peers hps
    have hne : Address.inOrder (registered calls) ≠ [] :=
      List.ne_nil_of_mem (Address.mem_inOrder.2 (mem_of_latest? hself))
    obtain ⟨owner, howner, hroute⟩ := exists_route? hne x.routingHash
    refine ⟨owner, Address.mem_inOrder.1 howner, ?_, ?_⟩
    · exact (ownerOf?_of_peers hps .refl).trans hroute
    · exact (ownerOf?_of_peers hqs hxy).trans (hsame ▸ hroute)

/-- Two members register, one of them again under another address; a blank host is refused. -/
def threeMembers : List (Fin 3 × Peer) :=
  [(0, ⟨⟨"oap-b", 11800⟩, false⟩), (1, ⟨⟨"oap-a", 11800⟩, true⟩), (1, ⟨⟨" ", 11800⟩, true⟩),
    (0, ⟨⟨"oap-a", 9000⟩, false⟩), (1, ⟨⟨"oap-a", 11800⟩, false⟩)]

/-- One member registers the same addresses in another order. -/
def oneMember : List (Fin 1 × Peer) :=
  [(0, ⟨⟨"oap-a", 9000⟩, true⟩), (0, ⟨⟨"oap-a", 11800⟩, true⟩), (0, ⟨⟨"oap-b", 11800⟩, true⟩)]

/-- The third member sees nobody; the others, and a single member that knows the same addresses, find one
owner of a minute and of its hour. -/
theorem members_agree_threeMembers :
    (after threeMembers).peers 2 = .error .notRegistered ∧
    ∃ ps qs, (after threeMembers).peers 0 = .ok ps ∧ (after oneMember).peers 0 = .ok qs ∧
      ps.filter (·.own) = [⟨⟨"oap-a", 9000⟩, true⟩] ∧
      ∃ owner ∈ registered threeMembers,
        (ownerOf? ps (.count "checkout" ⟨202403151427⟩ 1)).map (·.address) = some owner ∧
        (ownerOf? qs (.count "checkout" ⟨2024031514⟩ 1)).map (·.address) = some owner := by
  obtain ⟨-, -, -, hnone, hsome, howner⟩ := members_agree threeMembers
  obtain ⟨-, -, -, -, hother, -⟩ := members_agree oneMember
  obtain ⟨ps, hps, -, hown⟩ := hsome 0 ⟨⟨"oap-a", 9000⟩, false⟩ (by decide +kernel)
  obtain ⟨qs, hqs, -, -⟩ := hother 0 ⟨⟨"oap-b", 11800⟩, true⟩ (by decide +kernel)
  have hroll : (Indicator.count "checkout" ⟨202403151427⟩ 1).RollsUpTo (.count "checkout" ⟨2024031514⟩ 1) :=
    ⟨.hour, rfl⟩
  exact ⟨hnone 2 (by decide +kernel), ps, qs, hps, hqs, hown,
    howner 1 oneMember 0 0 ps qs _ _ (by decide +kernel) hps hqs (.single hroll)⟩

end MetricCascade
