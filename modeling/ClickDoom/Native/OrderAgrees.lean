import ClickDoom.Native.Order

/-! # Sorting by keys is the walk

A subsector's key has a bit for each node above it, set where the walk enters its side last.  Two
subsectors part at one node, and the one on the near side has the smaller key whatever stands
below, so the keys increase along the walk.
-/
namespace ClickDoom.Engine.Bsp

/-- The nodes above each subsector, from the root down, with the branch taken at each. -/
def routes : Bsp → List (Nat × List (Nat × Nat))
  | leaf num => [(num, [])]
  | node id child0 child1 =>
    child0.routes.map (fun (num, route) => (num, (id, 0) :: route)) ++
      child1.routes.map fun (num, route) => (num, (id, 1) :: route)

theorem mem_routes_node {id num : Nat} {child0 child1 : Bsp} {route : List (Nat × Nat)} :
    (num, route) ∈ (node id child0 child1).routes ↔
      (∃ below, route = (id, 0) :: below ∧ (num, below) ∈ child0.routes) ∨
        ∃ below, route = (id, 1) :: below ∧ (num, below) ∈ child1.routes := by
  simp only [routes, List.mem_append, List.mem_map, Prod.exists, Prod.mk.injEq]
  constructor
  · rintro (⟨_, below, there, rfl, rfl⟩ | ⟨_, below, there, rfl, rfl⟩)
    · exact .inl ⟨below, rfl, there⟩
    · exact .inr ⟨below, rfl, there⟩
  · rintro (⟨below, rfl, there⟩ | ⟨below, rfl, there⟩)
    · exact .inl ⟨num, below, there, rfl, rfl⟩
    · exact .inr ⟨num, below, there, rfl, rfl⟩

theorem routes_leaves (tree : Bsp) : tree.routes.map Prod.fst = tree.leaves := by
  induction tree with
  | leaf num => rfl
  | node id child0 child1 ih0 ih1 =>
    rw [routes, leaves, List.map_append, List.map_map, List.map_map, ← ih0, ← ih1]
    rfl

theorem routes_paths (tree : Bsp) :
    tree.routes.map (fun route => (route.1, route.2.map Prod.fst)) = tree.paths := by
  induction tree with
  | leaf num => rfl
  | node id child0 child1 ih0 ih1 =>
    rw [routes, paths, List.map_append, List.map_append, ← ih0, ← ih1]
    simp only [List.map_map]
    rfl

theorem length_route {tree : Bsp} {num : Nat} {route : List (Nat × Nat)}
    (there : (num, route) ∈ tree.routes) : route.length ≤ tree.depth := by
  induction tree generalizing route with
  | leaf num' =>
    cases List.mem_singleton.1 there
    exact Nat.zero_le _
  | node id child0 child1 ih0 ih1 =>
    rw [depth]
    rcases mem_routes_node.1 there with ⟨below, rfl, inside⟩ | ⟨below, rfl, inside⟩
    · have := ih0 inside
      rw [List.length_cons]
      omega
    · have := ih1 inside
      rw [List.length_cons]
      omega

/-- The nodes spell one tree under a number. -/
theorem Of.unique {nodes : Nodes} {tree tree' : Bsp} {bspnum : UInt32} (spells : tree.Of nodes bspnum)
    (spells' : tree'.Of nodes bspnum) : tree = tree' := by
  induction tree generalizing tree' bspnum with
  | leaf num =>
    cases tree' with
    | leaf num' =>
      have := spells.2
      have := spells'.2
      congr 1
      omega
    | node id child0 child1 =>
      have := spells.2
      have := spells'.1
      have := spells'.2.1
      omega
  | node id child0 child1 ih0 ih1 =>
    cases tree' with
    | leaf num' =>
      have := spells'.2
      have := spells.1
      have := spells.2.1
      omega
    | node id' child0' child1' =>
      obtain ⟨rfl, -, bsp, found, below0, below1⟩ := spells
      obtain ⟨rfl, -, bsp', found', below0', below1'⟩ := spells'
      cases found.symm.trans found'
      rw [ih0 below0 below0', ih1 below1 below1']

theorem Of.number_eq {nodes : Nodes} {tree : Bsp} {bspnum : UInt32} (spells : tree.Of nodes bspnum) :
    bspnum.toNat = tree.number := by
  cases tree with
  | leaf num => exact spells.2
  | node id child0 child1 => exact spells.1

theorem Of.number_lt {nodes : Nodes} {tree : Bsp} {bspnum : UInt32} (spells : tree.Of nodes bspnum) :
    tree.number < 65536 := by
  cases tree with
  | leaf num =>
    have := spells.1
    rw [number]
    omega
  | node id child0 child1 =>
    have := spells.2.1
    rw [number]
    omega

theorem leaves_ne_nil : ∀ tree : Bsp, tree.leaves ≠ []
  | leaf num => List.cons_ne_nil _ _
  | node id child0 child1 => by
    rw [leaves, ne_eq, List.append_eq_nil_iff, not_and]
    exact fun none => absurd none (leaves_ne_nil child0)

/-! ## Keys -/

section
variable (side : Nat → Nat)

/-- The key of a route below `d` nodes. -/
def routeKey : Nat → List (Nat × Nat) → Nat
  | _, [] => 0
  | d, (n, sd) :: route => (if sd ≠ side n then 2 ^ (63 - d) else 0) + routeKey (d + 1) route

/-- A key on the far side of a node below `d` others. -/
def beyond (d : Nat) (keyed : List (Nat × Nat)) : List (Nat × Nat) :=
  keyed.map fun (key, num) => (2 ^ (63 - d) + key, num)

/-- The walk below `d` nodes, each subsector with its key. -/
def walkKeyed : Nat → Bsp → List (Nat × Nat)
  | _, leaf num => [(0, num)]
  | d, node id child0 child1 =>
    if side id = 0 then walkKeyed (d + 1) child0 ++ beyond d (walkKeyed (d + 1) child1)
    else walkKeyed (d + 1) child1 ++ beyond d (walkKeyed (d + 1) child0)

variable {side}

theorem map_snd_beyond (d : Nat) (keyed : List (Nat × Nat)) :
    (beyond d keyed).map Prod.snd = keyed.map Prod.snd := by
  rw [beyond, List.map_map]
  rfl

theorem mem_beyond {d key num : Nat} {keyed : List (Nat × Nat)} :
    (key, num) ∈ beyond d keyed ↔ ∃ below, key = 2 ^ (63 - d) + below ∧ (below, num) ∈ keyed := by
  simp only [beyond, List.mem_map, Prod.exists, Prod.mk.injEq]
  constructor
  · rintro ⟨below, _, there, rfl, rfl⟩
    exact ⟨below, rfl, there⟩
  · rintro ⟨below, rfl, there⟩
    exact ⟨below, num, there, rfl, rfl⟩

theorem walkKeyed_walk (d : Nat) (tree : Bsp) :
    (walkKeyed side d tree).map Prod.snd = tree.walk side := by
  induction tree generalizing d with
  | leaf num => rfl
  | node id child0 child1 ih0 ih1 =>
    rw [walkKeyed, walk]
    split_ifs
    · rw [List.map_append, map_snd_beyond, ih0, ih1]
    · rw [List.map_append, map_snd_beyond, ih0, ih1]

/-- A key below `d` nodes has no bit of theirs. -/
theorem walkKeyed_lt {d : Nat} {tree : Bsp} (deep : tree.depth + d ≤ 64) :
    ∀ keyed ∈ walkKeyed side d tree, keyed.1 < 2 ^ (64 - d) := by
  induction tree generalizing d with
  | leaf num =>
    intro keyed there
    cases List.mem_singleton.1 there
    exact Nat.two_pow_pos _
  | node id child0 child1 ih0 ih1 =>
    rw [depth] at deep
    have half : 2 ^ (64 - d) = 2 ^ (63 - d) + 2 ^ (63 - d) := by
      rw [show 64 - d = 63 - d + 1 by omega, pow_succ]
      omega
    have below0 := ih0 (by omega : child0.depth + (d + 1) ≤ 64)
    have below1 := ih1 (by omega : child1.depth + (d + 1) ≤ 64)
    rw [show 64 - (d + 1) = 63 - d by omega] at below0 below1
    rintro ⟨key, num⟩ there
    rw [walkKeyed] at there
    split_ifs at there
    · rcases List.mem_append.1 there with near | far
      · have := below0 _ near
        dsimp only at this ⊢
        omega
      · obtain ⟨below, rfl, inside⟩ := mem_beyond.1 far
        have := below1 _ inside
        dsimp only at this ⊢
        omega
    · rcases List.mem_append.1 there with near | far
      · have := below1 _ near
        dsimp only at this ⊢
        omega
      · obtain ⟨below, rfl, inside⟩ := mem_beyond.1 far
        have := below0 _ inside
        dsimp only at this ⊢
        omega

/-- The near side's keys are below the far side's. -/
theorem increases_append_beyond {d : Nat} {near far : List (Nat × Nat)}
    (low : ∀ keyed ∈ near, keyed.1 < 2 ^ (63 - d))
    (hnear : near.Pairwise fun a b => a.1 < b.1) (hfar : far.Pairwise fun a b => a.1 < b.1) :
    (near ++ beyond d far).Pairwise fun a b => a.1 < b.1 := by
  refine List.pairwise_append.2 ⟨hnear, List.pairwise_map.2 (hfar.imp fun less => ?_), ?_⟩
  · dsimp only
    omega
  · rintro a there ⟨key, num⟩ there'
    obtain ⟨below, rfl, -⟩ := mem_beyond.1 there'
    have := low a there
    dsimp only
    omega

/-- The keys increase along the walk. -/
theorem walkKeyed_increases {d : Nat} {tree : Bsp} (deep : tree.depth + d ≤ 64) :
    (walkKeyed side d tree).Pairwise fun a b => a.1 < b.1 := by
  induction tree generalizing d with
  | leaf num => exact List.pairwise_singleton _ _
  | node id child0 child1 ih0 ih1 =>
    rw [depth] at deep
    have deep0 : child0.depth + (d + 1) ≤ 64 := by omega
    have deep1 : child1.depth + (d + 1) ≤ 64 := by omega
    have below0 : ∀ keyed ∈ walkKeyed side (d + 1) child0, _ := walkKeyed_lt deep0
    have below1 : ∀ keyed ∈ walkKeyed side (d + 1) child1, _ := walkKeyed_lt deep1
    rw [show 64 - (d + 1) = 63 - d by omega] at below0 below1
    rw [walkKeyed]
    split_ifs
    · exact increases_append_beyond below0 (ih0 deep0) (ih1 deep1)
    · exact increases_append_beyond below1 (ih1 deep1) (ih0 deep0)

/-- The walk's keys are those of the routes. -/
theorem mem_walkKeyed (two : ∀ id, side id < 2) {d key num : Nat} {tree : Bsp} :
    (key, num) ∈ walkKeyed side d tree ↔
      ∃ route, (num, route) ∈ tree.routes ∧ key = routeKey side d route := by
  induction tree generalizing d key with
  | leaf num' =>
    simp only [walkKeyed, routes, List.mem_singleton, Prod.mk.injEq]
    constructor
    · rintro ⟨rfl, rfl⟩
      exact ⟨[], ⟨rfl, rfl⟩, rfl⟩
    · rintro ⟨_, ⟨rfl, rfl⟩, rfl⟩
      exact ⟨rfl, rfl⟩
  | node id child0 child1 ih0 ih1 =>
    have keys : ∀ sd route, routeKey side d ((id, sd) :: route) =
        (if sd ≠ side id then 2 ^ (63 - d) else 0) + routeKey side (d + 1) route := fun _ _ => rfl
    have cases' : (∃ route, (num, route) ∈ (node id child0 child1).routes ∧
        key = routeKey side d route) ↔
        (∃ below, key = (if 0 ≠ side id then 2 ^ (63 - d) else 0) + below ∧
          (below, num) ∈ walkKeyed side (d + 1) child0) ∨
        ∃ below, key = (if 1 ≠ side id then 2 ^ (63 - d) else 0) + below ∧
          (below, num) ∈ walkKeyed side (d + 1) child1 := by
      constructor
      · rintro ⟨route, there, rfl⟩
        rcases mem_routes_node.1 there with ⟨below, rfl, inside⟩ | ⟨below, rfl, inside⟩
        · exact .inl ⟨_, keys 0 below, ih0.2 ⟨below, inside, rfl⟩⟩
        · exact .inr ⟨_, keys 1 below, ih1.2 ⟨below, inside, rfl⟩⟩
      · rintro (⟨below, rfl, inside⟩ | ⟨below, rfl, inside⟩)
        · obtain ⟨route, there, rfl⟩ := ih0.1 inside
          exact ⟨(id, 0) :: route, mem_routes_node.2 (.inl ⟨route, rfl, there⟩), (keys 0 route).symm⟩
        · obtain ⟨route, there, rfl⟩ := ih1.1 inside
          exact ⟨(id, 1) :: route, mem_routes_node.2 (.inr ⟨route, rfl, there⟩), (keys 1 route).symm⟩
    rw [cases', walkKeyed]
    by_cases front : side id = 0
    · rw [if_pos front, front, List.mem_append, mem_beyond]
      simp
    · have back : side id = 1 := by
        have := two id
        omega
      rw [if_neg front, back, List.mem_append, mem_beyond]
      simp [or_comm]

end

end ClickDoom.Engine.Bsp

namespace ClickDoom.Native.Order
open ClickHouse
open Compose (shifted shifted_true)
open Engine (Nodes SegRun sideOf)
open Engine.Bsp

/-- A level whose last node is the root of a tree with every subsector at one leaf, and the paths of
that tree. -/
structure WellFormed (level : Level) (tree : Engine.Bsp) : Prop where
  inner : level.nodes.list ≠ []
  spells : tree.Of level.nodes (UInt32.ofNat (level.nodes.list.length - 1))
  depth : tree.depth ≤ 64
  leaves : tree.leaves.Perm (List.range level.subsectors.length)
  length : level.pathNodes.length = level.subsectors.length
  paths : ∀ sc path, (sc, path) ∈ tree.paths → level.pathNodes[sc]? = some path

/-! ## Sides and keys of a path -/

/-- What each step of one path leads to. -/
def nextOf (sc : Nat) (ns : List Nat) : List Nat := (ns.map (· % 65536)).tail ++ [(sc + 32768) % 65536]

/-- The branches of one path. -/
def sidesOf (nodes : Nodes) (sc : Nat) (ns : List Nat) : List Nat :=
  (ns.zip (nextOf sc ns)).map fun (n, c) =>
    if (Bsp.nodeAt nodes (UInt32.ofNat n)).child0.toNat = c then 0 else 1

/-- The number a route's tree goes by. -/
def firstOf (sc : Nat) (ns : List Nat) : Nat := (ns.map (· % 65536)).headD ((sc + 32768) % 65536)

theorem sidesOf_cons (nodes : Nodes) (sc id : Nat) (ns : List Nat) :
    sidesOf nodes sc (id :: ns) =
      (if (Bsp.nodeAt nodes (UInt32.ofNat id)).child0.toNat = firstOf sc ns then 0 else 1) ::
        sidesOf nodes sc ns := by
  cases ns <;> rfl

theorem firstOf_route {nodes : Nodes} {tree : Engine.Bsp} {bspnum : UInt32}
    (spells : tree.Of nodes bspnum) {sc : Nat} {route : List (Nat × Nat)}
    (there : (sc, route) ∈ tree.routes) : firstOf sc (route.map Prod.fst) = tree.number := by
  have small := spells.number_lt
  cases tree with
  | leaf num =>
    cases List.mem_singleton.1 there
    exact Nat.mod_eq_of_lt small
  | node id child0 child1 =>
    rcases mem_routes_node.1 there with ⟨below, rfl, -⟩ | ⟨below, rfl, -⟩ <;>
      exact Nat.mod_eq_of_lt small

/-- The branches of a path are those of its route. -/
theorem sidesOf_route {nodes : Nodes} {tree : Engine.Bsp} {bspnum : UInt32}
    (spells : tree.Of nodes bspnum) (once : tree.leaves.Nodup) {sc : Nat} {route : List (Nat × Nat)}
    (there : (sc, route) ∈ tree.routes) :
    sidesOf nodes sc (route.map Prod.fst) = route.map Prod.snd := by
  induction tree generalizing bspnum route with
  | leaf num =>
    cases List.mem_singleton.1 there
    rfl
  | node id child0 child1 ih0 ih1 =>
    obtain ⟨rfl, low, bsp, found, spells0, spells1⟩ := spells
    obtain ⟨once0, once1, apart⟩ := List.nodup_append.1 once
    have here : Bsp.nodeAt nodes (UInt32.ofNat bspnum.toNat) = bsp := by
      rw [UInt32.ofNat_toNat, Bsp.nodeAt, List.getD_eq_getElem?_getD, found]
      rfl
    have number0 : bsp.child0.toNat = child0.number := spells0.number_eq
    have number1 : bsp.child1.toNat = child1.number := spells1.number_eq
    rcases mem_routes_node.1 there with ⟨below, rfl, inside⟩ | ⟨below, rfl, inside⟩
    · rw [List.map_cons, List.map_cons, sidesOf_cons, here, firstOf_route spells0 inside, number0,
        if_pos rfl, ih0 spells0 once0 inside]
    · have differ : child0.number ≠ child1.number := by
        intro same
        have one : bsp.child0.toUInt32 = bsp.child1.toUInt32 :=
          UInt32.toNat_inj.1 (spells0.number_eq.trans (same.trans spells1.number_eq.symm))
        rw [one] at spells0
        cases spells0.unique spells1
        obtain ⟨num, rest, some⟩ := List.exists_cons_of_ne_nil (leaves_ne_nil child0)
        exact apart num (by rw [some]; simp) num (by rw [some]; simp) rfl
      rw [List.map_cons, List.map_cons, sidesOf_cons, here, firstOf_route spells1 inside, number0,
        if_neg differ, ih1 spells1 once1 inside]

theorem bitAt_eq {d : Nat} (deep : d < 64) : bitAt (d + 1) = 2 ^ (63 - d) := by
  have shift : ((64 - ((d + 1 : Nat) : Int)) % 256).toNat = 63 - d := by omega
  rw [bitAt, shift, Nat.mod_eq_of_lt]
  exact Nat.pow_lt_pow_right (by decide) (by omega)

/-- A route's key, as the pass sums it. -/
theorem sum_route (side : List Nat) (d : Nat) (route : List (Nat × Nat))
    (deep : route.length + d ≤ 64) :
    (((route.map Prod.fst).zip ((route.map Prod.snd).zip
      (List.range' (d + 1) (route.map Prod.fst).length))).map fun (n, sd, d) =>
        if sd ≠ side.getD n 0 then bitAt d else 0).sum = routeKey (side.getD · 0) d route := by
  induction route generalizing d with
  | nil => rfl
  | cons step route ih =>
    obtain ⟨n, sd⟩ := step
    rw [List.length_cons] at deep
    have later := ih (d + 1) (by omega)
    rw [routeKey, ← later, ← bitAt_eq (by omega : d < 64)]
    rfl

theorem routeKey_lt (side : Nat → Nat) (d : Nat) (route : List (Nat × Nat))
    (deep : route.length + d ≤ 64) : routeKey side d route < 2 ^ (64 - d) := by
  induction route generalizing d with
  | nil => exact Nat.two_pow_pos _
  | cons step route ih =>
    obtain ⟨n, sd⟩ := step
    rw [List.length_cons] at deep
    have half : 2 ^ (64 - d) = 2 ^ (63 - d) + 2 ^ (63 - d) := by
      rw [show 64 - d = 63 - d + 1 by omega, pow_succ]
      omega
    have later := ih (d + 1) (by omega)
    rw [show 64 - (d + 1) = 63 - d by omega] at later
    rw [routeKey]
    split_ifs <;> omega

theorem pathKey_route (side : List Nat) {route : List (Nat × Nat)} (deep : route.length ≤ 64) :
    pathKey side (route.map Prod.fst) (route.map Prod.snd) = routeKey (side.getD · 0) 0 route := by
  rw [pathKey]
  refine (congrArg (· % 2 ^ 64) (sum_route side 0 route deep)).trans ?_
  exact Nat.mod_eq_of_lt (routeKey_lt _ 0 route deep)

/-! ## Ranks and sums -/

/-- Sorting the places of a permutation by their elements is its inverse, from one. -/
theorem places_eq {order : List Nat} {n : Nat} (perm : order.Perm (List.range n)) :
    (arraySort Prod.fst (order.zip (List.range' 1 order.length))).map Prod.snd =
      (List.range n).map fun sc => order.idxOf sc + 1 := by
  have nodup : order.Nodup := perm.nodup_iff.2 List.nodup_range
  have distinct : (order.zip (List.range' 1 order.length)).Nodup := by
    refine List.Nodup.of_map Prod.fst ?_
    rwa [List.map_fst_zip (by rw [List.length_range'])]
  rw [@arraySort_eq _ _ _ ((List.range n).map fun sc => (sc, order.idxOf sc + 1)) distinct]
  · rw [List.map_map]
    rfl
  · exact List.pairwise_map.2 List.pairwise_lt_range
  · rintro ⟨sc, place⟩
    rw [List.mem_iff_getElem?, List.mem_map]
    constructor
    · rintro ⟨i, found⟩
      obtain ⟨here, there⟩ := List.getElem?_zip_eq_some.1 found
      obtain ⟨low, rfl⟩ := List.getElem?_eq_some_iff.1 here
      obtain ⟨low', rfl⟩ := List.getElem?_eq_some_iff.1 there
      refine ⟨order[i], perm.mem_iff.1 (List.getElem_mem low), ?_⟩
      rw [nodup.idxOf_getElem, List.getElem_range', Nat.one_mul, Nat.add_comm]
    · rintro ⟨sc', there, same⟩
      cases same
      have low := List.idxOf_lt_length_iff.2 (perm.mem_iff.2 there)
      refine ⟨order.idxOf sc, List.getElem?_zip_eq_some.2 ⟨?_, ?_⟩⟩
      · rw [List.getElem?_eq_getElem low, List.getElem_idxOf]
      · rw [List.getElem?_range' low, Nat.one_mul, Nat.add_comm]

theorem getElem?_idxOf {order : List Nat} {n : Nat} (perm : order.Perm (List.range n))
    {i sc : Nat} : order[i]? = some sc ↔
      ((List.range n).map fun sc => order.idxOf sc + 1)[sc]? = some (i + 1) := by
  have nodup : order.Nodup := perm.nodup_iff.2 List.nodup_range
  constructor
  · intro found
    obtain ⟨low, rfl⟩ := List.getElem?_eq_some_iff.1 found
    have small := List.mem_range.1 (perm.mem_iff.1 (List.getElem_mem low))
    rw [List.getElem?_map, List.getElem?_range small, Option.map_some, nodup.idxOf_getElem]
  · intro found
    obtain ⟨low, same⟩ := List.getElem?_eq_some_iff.1 found
    rw [List.length_map, List.length_range] at low
    rw [List.getElem_map, List.getElem_range, Nat.add_right_cancel_iff] at same
    subst same
    have there := List.idxOf_lt_length_iff.2 (perm.mem_iff.2 (List.mem_range.2 low))
    rw [List.getElem?_eq_getElem there, List.getElem_idxOf]

theorem arrayCumSum_from (a sums : List Nat) (total : Nat) :
    (a.foldl (fun (sums, total) n => (sums ++ [total + n], total + n)) (sums, total)).1 =
      sums ++ (List.range a.length).map fun r => total + (a.take (r + 1)).sum := by
  induction a generalizing sums total with
  | nil => simp
  | cons n a ih =>
    rw [List.foldl_cons, ih, List.length_cons, List.range_succ_eq_map, List.map_cons, List.map_map,
      List.append_assoc]
    simp [Function.comp_def, Nat.add_assoc]

theorem shifted_arrayCumSum (a : List Nat) :
    shifted (arrayCumSum a) 0 true = (List.range a.length).map fun r => (a.take r).sum := by
  have sums : arrayCumSum a = (List.range a.length).map fun r => (a.take (r + 1)).sum := by
    refine (arrayCumSum_from a [] 0).trans ?_
    simp
  rcases Nat.eq_zero_or_eq_succ_pred a.length with none | some
  · rw [sums, none]
    rfl
  · rw [sums, some, List.range_succ, List.map_append, ← List.range_succ, List.range_succ_eq_map]
    simp [shifted]

/-! ## The order -/

section
variable {level : Level} {tree : Engine.Bsp} (formed : WellFormed level tree) (viewx viewy : Int32)
include formed

theorem once : tree.leaves.Nodup := formed.leaves.nodup_iff.2 List.nodup_range

omit formed in
theorem nodeSide_getD (n : Nat) :
    (nodeSide level viewx viewy).getD n 0 = sideOf level.nodes viewx viewy n := by
  rw [nodeSide, List.getD_eq_getElem?_getD, List.getElem?_map, sideOf]
  cases level.nodes.list[n]? with
  | none => rfl
  | some bsp => exact Fixed.pointOnSide_node viewx viewy bsp.toDivline

theorem lt_of_mem_routes {sc : Nat} {route : List (Nat × Nat)} (there : (sc, route) ∈ tree.routes) :
    sc < level.subsectors.length := by
  have leaf : sc ∈ tree.leaves := by
    rw [← routes_leaves]
    exact List.mem_map_of_mem there
  exact List.mem_range.1 (formed.leaves.mem_iff.1 leaf)

/-- Every subsector has the key of its route. -/
theorem ssecKey_route {sc : Nat} {route : List (Nat × Nat)} (there : (sc, route) ∈ tree.routes) :
    (ssecKey level viewx viewy)[sc]? =
      some (routeKey (sideOf level.nodes viewx viewy) 0 route) := by
  have low := lt_of_mem_routes formed there
  have path : level.pathNodes[sc]? = some (route.map Prod.fst) := by
    refine formed.paths sc _ ?_
    rw [← routes_paths]
    exact List.mem_map_of_mem (f := fun route : Nat × List (Nat × Nat) =>
      (route.1, route.2.map Prod.fst)) there
  have id : (ssecIds level)[sc]? = some sc := List.getElem?_range low
  have next : (pathNext level)[sc]? = some (nextOf sc (route.map Prod.fst)) := by
    have both : (level.pathNodes.zip (ssecIds level))[sc]? = some (route.map Prod.fst, sc) :=
      List.getElem?_zip_eq_some.2 ⟨path, id⟩
    rw [pathNext, List.getElem?_map, both]
    rfl
  have sides : (pathSides level)[sc]? = some (route.map Prod.snd) := by
    have both : (level.pathNodes.zip (pathNext level))[sc]? =
        some (route.map Prod.fst, nextOf sc (route.map Prod.fst)) :=
      List.getElem?_zip_eq_some.2 ⟨path, next⟩
    rw [pathSides, List.getElem?_map, both, ← sidesOf_route formed.spells (once formed) there]
    rfl
  have same : ((nodeSide level viewx viewy).getD · 0) = sideOf level.nodes viewx viewy :=
    funext (nodeSide_getD viewx viewy)
  have both : (level.pathNodes.zip (pathSides level))[sc]? =
      some (route.map Prod.fst, route.map Prod.snd) := List.getElem?_zip_eq_some.2 ⟨path, sides⟩
  rw [ssecKey, List.getElem?_map, both, ← same,
    ← pathKey_route _ ((length_route there).trans formed.depth)]
  rfl

/-- Sorting by the keys leaves the walk. -/
theorem ssecOrder_walk :
    ssecOrder level viewx viewy = tree.walk (sideOf level.nodes viewx viewy) := by
  have two : ∀ id, sideOf level.nodes viewx viewy id < 2 := fun id => by
    rw [sideOf]
    cases level.nodes.list[id]? with
    | none => exact Nat.two_pos
    | some bsp => exact Engine.pointOnSide_lt _ _ _
  have keys : (ssecKey level viewx viewy).length = level.subsectors.length := by
    simp [ssecKey, pathSides, pathNext, ssecIds, formed.length]
  have ids : ((ssecKey level viewx viewy).zip (ssecIds level)).map Prod.snd = ssecIds level :=
    List.map_snd_zip (by rw [keys, ssecIds, List.length_range])
  have distinct : ((ssecKey level viewx viewy).zip (ssecIds level)).Nodup := by
    refine List.Nodup.of_map Prod.snd ?_
    rw [ids]
    exact List.nodup_range
  rw [ssecOrder, arraySort_eq distinct (walkKeyed_increases (d := 0) formed.depth), walkKeyed_walk]
  rintro ⟨key, sc⟩
  rw [mem_walkKeyed two, List.mem_iff_getElem?]
  constructor
  · rintro ⟨i, found⟩
    obtain ⟨found, id⟩ := List.getElem?_zip_eq_some.1 found
    obtain ⟨low, same⟩ := List.getElem?_eq_some_iff.1 id
    have same : i = sc := (List.getElem_range low).symm.trans same
    subst same
    have leaf : i ∈ tree.routes.map Prod.fst := by
      rw [routes_leaves]
      exact formed.leaves.mem_iff.2 (List.mem_range.2 (low.trans_eq List.length_range))
    obtain ⟨⟨i', route⟩, there, rfl⟩ := List.mem_map.1 leaf
    refine ⟨route, there, ?_⟩
    exact Option.some.inj (found.symm.trans (ssecKey_route formed viewx viewy there))
  · rintro ⟨route, there, rfl⟩
    refine ⟨sc, List.getElem?_zip_eq_some.2 ⟨ssecKey_route formed viewx viewy there, ?_⟩⟩
    exact List.getElem?_range (lt_of_mem_routes formed there)

theorem ssecOrder_perm :
    (ssecOrder level viewx viewy).Perm (List.range level.subsectors.length) := by
  rw [ssecOrder_walk formed]
  exact (walk_perm _ _).trans formed.leaves

/-- The rank is the inverse of the order. -/
theorem ssecRank_inverse {i sc : Nat} : (ssecOrder level viewx viewy)[i]? = some sc ↔
    (ssecRank level viewx viewy)[sc]? = some (i + 1) := by
  have perm := ssecOrder_perm formed viewx viewy
  rw [ssecRank, places_eq perm, getElem?_idxOf perm]

omit formed in
/-- The segs in the order `R_AddLine` is called with them. -/
theorem segSeq_addLines : segSeq level viewx viewy =
    (ssecOrder level viewx viewy).flatMap fun sc => Engine.addLines (subsectorAt level sc) := rfl

omit formed in
/-- Where the segs of the subsector at a rank start. -/
theorem rankSegbase_eq {r : Nat} (low : r < (ssecOrder level viewx viewy).length) :
    (rankSegbase level viewx viewy)[r]? =
      some (((ssecOrder level viewx viewy).take r).flatMap fun sc =>
        Engine.addLines (subsectorAt level sc)).length := by
  rw [rankSegbase, shifted_arrayCumSum, List.length_map, List.getElem?_map,
    List.getElem?_range low, List.length_flatMap, Option.map_some, ← List.map_take]
  simp [Engine.addLines]

theorem ssecRank_length : (ssecRank level viewx viewy).length = level.subsectors.length := by
  rw [ssecRank, places_eq (ssecOrder_perm formed viewx viewy), List.length_map, List.length_range]

/-- The order is the engine's walk with nothing rejected, each subsector once, the rank its inverse,
and the segs stand in the order of their calls. -/
theorem ssecOrder_renderBSPNode :
    (∀ fuel, 64 < fuel → Engine.renderBSPNode level.nodes viewx viewy fuel
        (UInt32.ofNat (level.nodes.list.length - 1)) = some (ssecOrder level viewx viewy)) ∧
    (ssecOrder level viewx viewy).Perm (List.range level.subsectors.length) ∧
    (ssecRank level viewx viewy).length = level.subsectors.length ∧
    (∀ i sc, (ssecOrder level viewx viewy)[i]? = some sc ↔
      (ssecRank level viewx viewy)[sc]? = some (i + 1)) ∧
    segSeq level viewx viewy =
      (ssecOrder level viewx viewy).flatMap (fun sc => Engine.addLines (subsectorAt level sc)) ∧
    ∀ r < level.subsectors.length, (rankSegbase level viewx viewy)[r]? =
      some (((ssecOrder level viewx viewy).take r).flatMap fun sc =>
        Engine.addLines (subsectorAt level sc)).length := by
  have perm := ssecOrder_perm formed viewx viewy
  refine ⟨fun fuel enough => ?_, perm, ssecRank_length formed viewx viewy,
    fun i sc => ssecRank_inverse formed viewx viewy, segSeq_addLines viewx viewy, fun r low => ?_⟩
  · rw [ssecOrder_walk formed]
    exact Engine.renderBSPNode_walk viewx viewy formed.spells (formed.depth.trans_lt enough)
  · refine rankSegbase_eq viewx viewy ?_
    rwa [perm.length_eq, List.length_range]

omit formed in
/-- Two nodes and the subsectors around them. -/
def crossLevel : Level where
  nodes := Bsp.crossNodes
  pathNodes := [[1], [1, 0], [1, 0]]
  subsectors := [⟨0, 2⟩, ⟨2, 3⟩, ⟨5, 1⟩]

omit formed in
theorem crossLevel_formed :
    WellFormed crossLevel (.node 1 (.leaf 0) (.node 0 (.leaf 1) (.leaf 2))) where
  inner := by decide
  spells := by
    refine ⟨rfl, by decide, _, rfl, ⟨by decide, rfl⟩, rfl, by decide, _, rfl, ⟨by decide, rfl⟩, ?_⟩
    exact ⟨by decide, rfl⟩
  depth := by decide
  leaves := by decide
  length := rfl
  paths := by
    intro sc path there
    fin_cases there <;> rfl

omit formed in
theorem ssecOrder_renderBSPNode_cross :
    WellFormed crossLevel (.node 1 (.leaf 0) (.node 0 (.leaf 1) (.leaf 2))) ∧
    (64 < 65 ∧ Engine.renderBSPNode crossLevel.nodes (-65536) 65536 65 1 =
      some (ssecOrder crossLevel (-65536) 65536)) ∧
    (0 < 3 ∧ (rankSegbase crossLevel (-65536) 65536)[0]? = some 0) :=
  have held := ssecOrder_renderBSPNode crossLevel_formed (-65536) 65536
  ⟨crossLevel_formed, ⟨by decide, held.1 65 (by decide)⟩, by decide, held.2.2.2.2.2 0 (by decide)⟩

end

end ClickDoom.Native.Order
