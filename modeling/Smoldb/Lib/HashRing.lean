import Mathlib

/-!
# A consistent-hashing ring

A ring places every node at the hash of the node and a key at the hash of the key, and gives a key
to the first node at or after it, wrapping around at the end.  `HashRing` keeps the nodes sorted by
their place, as a list.

A ring is filled by adding one node after the other, and the order in which that happens is often
not under the caller's control.  `ofList_perm` is why it does not matter: as long as no two nodes
share a place, the ring built from a list of nodes depends only on which nodes the list holds, not
on their order.
-/

set_option autoImplicit false

universe u v

/-- The nodes of a ring with their places, sorted by place. -/
@[ext] structure HashRing (ν : Type u) where
  /-- A node and its place. -/
  nodes : List (UInt64 × ν)
  deriving DecidableEq

namespace HashRing

variable {ν : Type u} {κ : Type v}

/-- The ring without nodes. -/
def empty : HashRing ν := ⟨[]⟩

/-- Two nodes in the order in which they sit on the ring. -/
def before (a b : UInt64 × ν) : Prop := a.1 ≤ b.1

instance : DecidableRel (before (ν := ν)) := fun a b ↦ inferInstanceAs (Decidable (a.1 ≤ b.1))

instance : IsTrans (UInt64 × ν) before := ⟨fun _ _ _ h h' ↦ UInt64.le_trans h h'⟩

instance : Std.Total (before (ν := ν)) := ⟨fun a b ↦ UInt64.le_total a.1 b.1⟩

/-- Put a node on the ring. -/
def add (hash : ν → UInt64) (r : HashRing ν) (n : ν) : HashRing ν :=
  ⟨r.nodes.orderedInsert before (hash n, n)⟩

/-- The node a key at place `h` belongs to: the first one at or after it, or the first of all. -/
def get (r : HashRing ν) (h : UInt64) : Option ν :=
  ((r.nodes.find? fun n ↦ h ≤ n.1).or r.nodes.head?).map Prod.snd

/-- The ring of a list of nodes, added in the order of the list. -/
def ofList (hash : ν → UInt64) (ns : List ν) : HashRing ν := ns.foldl (add hash) empty

theorem foldl_add_perm (hash : ν → UInt64) (ns : List ν) (r : HashRing ν) :
    (ns.foldl (add hash) r).nodes.Perm (ns.map (fun n ↦ (hash n, n)) ++ r.nodes) := by
  induction ns generalizing r with
  | nil => simp
  | cons n ns ih =>
    rw [List.foldl_cons, List.map_cons]
    refine (ih (r.add hash n)).trans ?_
    refine (List.Perm.append_left _ (List.perm_orderedInsert before _ _)).trans ?_
    exact List.perm_middle

/-- The ring of a list holds exactly the nodes of the list. -/
theorem ofList_nodes_perm (hash : ν → UInt64) (ns : List ν) :
    (ofList hash ns).nodes.Perm (ns.map fun n ↦ (hash n, n)) := by
  simpa [ofList, empty] using foldl_add_perm hash ns empty

theorem foldl_add_sorted (hash : ν → UInt64) (ns : List ν) {r : HashRing ν}
    (h : r.nodes.Pairwise before) : (ns.foldl (add hash) r).nodes.Pairwise before := by
  induction ns generalizing r with
  | nil => exact h
  | cons n ns ih => exact ih (List.Pairwise.orderedInsert _ _ h)

theorem ofList_sorted (hash : ν → UInt64) (ns : List ν) :
    (ofList hash ns).nodes.Pairwise before :=
  foldl_add_sorted hash ns List.Pairwise.nil

/-- **The order in which nodes are added does not matter**, when no two of them share a place. -/
theorem ofList_perm {hash : ν → UInt64} (hinj : Function.Injective hash) {ns ms : List ν}
    (h : ns.Perm ms) : ofList hash ns = ofList hash ms := by
  have hp : (ofList hash ns).nodes.Perm (ofList hash ms).nodes :=
    (ofList_nodes_perm hash ns).trans ((h.map _).trans (ofList_nodes_perm hash ms).symm)
  have hplace : ∀ a ∈ (ofList hash ns).nodes, a.1 = hash a.2 := by
    intro a ha
    obtain ⟨n, _, rfl⟩ := List.mem_map.mp ((ofList_nodes_perm hash ns).mem_iff.mp ha)
    rfl
  refine HashRing.ext (List.Perm.eq_of_pairwise ?_ (ofList_sorted hash ns)
    (ofList_sorted hash ms) hp)
  intro a b ha hb hab hba
  have hhash : a.1 = b.1 := UInt64.le_antisymm hab hba
  refine Prod.ext hhash (hinj ?_)
  rw [← hplace a ha, hhash, hplace b (hp.mem_iff.mpr hb)]

/-- A key belongs to one of the nodes of the ring. -/
theorem mem_of_get {r : HashRing ν} {h : UInt64} {n : ν} (hg : r.get h = some n) :
    ∃ p ∈ r.nodes, p.2 = n := by
  rw [get, Option.map_eq_some_iff] at hg
  obtain ⟨p, hp, rfl⟩ := hg
  rw [Option.or_eq_some_iff] at hp
  rcases hp with hp | ⟨-, hp⟩
  · exact ⟨p, List.mem_of_find?_eq_some hp, rfl⟩
  · exact ⟨p, List.mem_of_head? hp, rfl⟩

theorem mem_of_get_ofList {hash : ν → UInt64} {ns : List ν} {h : UInt64} {n : ν}
    (hg : (ofList hash ns).get h = some n) : n ∈ ns := by
  obtain ⟨p, hp, rfl⟩ := mem_of_get hg
  obtain ⟨m, hm, rfl⟩ := List.mem_map.mp ((ofList_nodes_perm hash ns).mem_iff.mp hp)
  exact hm

/-- Only the ring without nodes has a key that belongs to nobody. -/
theorem get_eq_none_iff {r : HashRing ν} {h : UInt64} : r.get h = none ↔ r.nodes = [] := by
  rw [get, Option.map_eq_none_iff, Option.or_eq_none_iff, List.head?_eq_none_iff]
  exact ⟨fun hn ↦ hn.2, fun hn ↦ ⟨by simp [hn], hn⟩⟩

theorem get_ofList_eq_none_iff {hash : ν → UInt64} {ns : List ν} {h : UInt64} :
    (ofList hash ns).get h = none ↔ ns = [] := by
  rw [get_eq_none_iff]
  have hlen := (ofList_nodes_perm hash ns).length_eq
  rw [List.length_map] at hlen
  rw [← List.length_eq_zero_iff, hlen, List.length_eq_zero_iff]

end HashRing
