import StyleCheck.Proofs.SyntaxTree.Addresses
import StyleCheck.Proofs.SyntaxTree.CursorWalk
import StyleCheck.SyntaxTree.Build

/-!
The array of a parse tree is the tree in preorder. The place of a node in the array is the place of
its address among the addresses, and what is below it stands right behind it.
-/

namespace StyleCheck

namespace ParseTree

section Append

theorem addressesFrom_append (k : Nat) (a b : List ParseTree) :
    addressesFrom k (a ++ b) = addressesFrom k a ++ addressesFrom (k + a.length) b := by
  induction a generalizing k with
  | nil => rfl
  | cons tree a ih =>
    rw [List.cons_append, addressesFrom, addressesFrom, ih, List.append_assoc, List.length_cons,
      Nat.add_right_comm k 1, Nat.add_assoc k]

theorem lowers_append (id : Nat) (a b : List ParseTree) :
    lowers id (a ++ b) = lowers id a ++ lowers (id + sizes a) b := by
  induction a generalizing id with
  | nil => rfl
  | cons tree a ih =>
    rw [List.cons_append, lowers, lowers, ih, List.append_assoc, sizes, Nat.add_assoc]

end Append

theorem getElem?_rootIds (id n : Nat) (trees : List ParseTree) :
    (rootIds id trees)[n]? =
      if n < trees.length then some (id + sizes (trees.take n)) else none := by
  induction trees generalizing id n with
  | nil => simp [rootIds]
  | cons tree trees ih =>
    cases n with
    | zero => simp [rootIds, sizes]
    | succ n =>
      rw [rootIds, List.getElem?_cons_succ, ih, List.length_cons, List.take_succ_cons, sizes,
        Nat.add_assoc]
      simp only [Nat.add_lt_add_iff_right]

theorem size_pos (tree : ParseTree) : 0 < tree.size := by
  cases tree with
  | node info children =>
    rw [size]
    omega

theorem getElem?_addresses_zero (tree : ParseTree) : tree.addresses[0]? = some [] := by
  cases tree
  rfl

/-- The nodes of `t` stand one after another from place `k` on, among those of `tree`. -/
structure StandsAt (tree : ParseTree) (address : List Nat) (t : ParseTree) (k : Nat) : Prop where
  addresses : ∃ before after, tree.addresses = before ++ t.addresses.map (address ++ ·) ++ after ∧
    before.length = k
  nodes : ∀ id, ∃ before after, lower id tree = before ++ lower (id + k) t ++ after ∧
    before.length = k

theorem standsAt_self (tree : ParseTree) : tree.StandsAt [] tree 0 where
  addresses := ⟨[], [], by simp, rfl⟩
  nodes id := ⟨[], [], by simp, rfl⟩

theorem StandsAt.child {tree child t : ParseTree} {n k : Nat} {address : List Nat}
    (hchild : tree.children[n]? = some child) (h : child.StandsAt address t k) :
    tree.StandsAt (n :: address) t (1 + sizes (tree.children.take n) + k) := by
  obtain ⟨info, children⟩ := tree
  change children[n]? = some child at hchild
  change (node info children).StandsAt (n :: address) t (1 + sizes (children.take n) + k)
  obtain ⟨hn, hchild⟩ := List.getElem?_eq_some_iff.mp hchild
  have hsplit : children = children.take n ++ child :: children.drop (n + 1) := by
    rw [← hchild, List.getElem_cons_drop, List.take_append_drop]
  have htake : (children.take n).length = n := List.length_take_of_le (Nat.le_of_lt hn)
  constructor
  · obtain ⟨before, after, haddresses, rfl⟩ := h.addresses
    refine ⟨[] :: addressesFrom 0 (children.take n) ++ before.map (n :: ·),
      after.map (n :: ·) ++ addressesFrom (n + 1) (children.drop (n + 1)), ?_, ?_⟩
    · rw [ParseTree.addresses]
      conv_lhs => rw [hsplit]
      rw [addressesFrom_append, htake, addressesFrom, haddresses, Nat.zero_add]
      simp only [List.map_append, List.map_map, List.append_assoc, List.cons_append]
      rfl
    · rw [List.length_append, List.length_cons, length_addressesFrom, List.length_map]
      omega
  · intro id
    obtain ⟨before, after, hnodes, rfl⟩ := h.nodes (id + 1 + sizes (children.take n))
    refine ⟨info.toNode id (rootIds (id + 1) children) :: lowers (id + 1) (children.take n) ++ before,
      after ++ lowers (id + 1 + sizes (children.take n) + child.size) (children.drop (n + 1)),
      ?_, ?_⟩
    · have hid : id + (1 + sizes (children.take n) + before.length) =
          id + 1 + sizes (children.take n) + before.length := by omega
      rw [lower]
      conv_lhs => rw [hsplit]
      rw [lowers_append, lowers, hnodes, hid, ← hsplit]
      simp only [List.append_assoc, List.cons_append]
    · rw [List.length_append, List.length_cons, length_lowers]
      omega

theorem exists_standsAt {tree t : ParseTree} {address : List Nat} (h : tree.at? address = some t) :
    ∃ k, tree.StandsAt address t k := by
  induction address generalizing tree with
  | nil =>
    cases h
    exact ⟨0, standsAt_self t⟩
  | cons n address ih =>
    obtain ⟨child, hchild, ht⟩ := Option.bind_eq_some_iff.mp h
    obtain ⟨k, hk⟩ := ih ht
    exact ⟨_, hk.child hchild⟩

namespace StandsAt

variable {tree t : ParseTree} {address : List Nat} {k : Nat}

theorem getElem?_addresses (h : tree.StandsAt address t k) {d : Nat} (hd : d < t.size) :
    tree.addresses[k + d]? = t.addresses[d]?.map (address ++ ·) := by
  obtain ⟨before, after, haddresses, rfl⟩ := h.addresses
  have hlt : d < (t.addresses.map (address ++ ·)).length := by
    rwa [List.length_map, length_addresses]
  rw [haddresses, List.append_assoc, List.getElem?_append_right (Nat.le_add_right _ _),
    Nat.add_sub_cancel_left, List.getElem?_append_left hlt, List.getElem?_map]

theorem getElem?_lower (h : tree.StandsAt address t k) (id : Nat) {d : Nat} (hd : d < t.size) :
    (lower id tree)[k + d]? = (lower (id + k) t)[d]? := by
  obtain ⟨before, after, hnodes, rfl⟩ := h.nodes id
  have hlt : d < (lower (id + before.length) t).length := by rwa [length_lower]
  rw [hnodes, List.append_assoc, List.getElem?_append_right (Nat.le_add_right _ _),
    Nat.add_sub_cancel_left, List.getElem?_append_left hlt]

theorem getElem?_address (h : tree.StandsAt address t k) :
    tree.addresses[k]? = some address := by
  have := h.getElem?_addresses t.size_pos
  rwa [Nat.add_zero, getElem?_addresses_zero, Option.map_some, List.append_nil] at this

theorem node_eq (h : tree.StandsAt address t k) :
    (lower 0 tree)[k]? = some (t.info.toNode k (rootIds (k + 1) t.children)) := by
  have := h.getElem?_lower 0 t.size_pos
  rw [Nat.add_zero, Nat.zero_add] at this
  rw [this]
  cases t
  rfl

theorem map_rootIds (h : tree.StandsAt address t k) :
    (rootIds (k + 1) t.children).map (tree.addresses[·]?) =
      (List.range t.children.length).map fun n => some (address ++ [n]) := by
  apply List.ext_getElem?
  intro n
  rw [List.getElem?_map, List.getElem?_map, getElem?_rootIds]
  by_cases hn : n < t.children.length
  · rw [if_pos hn, List.getElem?_range hn, Option.map_some, Option.map_some]
    have hchild := (standsAt_self t.children[n]).child (List.getElem?_eq_getElem hn)
    obtain ⟨hlt, -⟩ := List.getElem?_eq_some_iff.mp hchild.getElem?_address
    rw [length_addresses] at hlt
    have hk : k + 1 + sizes (t.children.take n) = k + (1 + sizes (t.children.take n) + 0) := by
      omega
    rw [hk, h.getElem?_addresses hlt, hchild.getElem?_address, Option.map_some]
  · rw [if_neg hn, List.getElem?_eq_none (by rw [List.length_range]; omega)]
    rfl

theorem isPrefix_iff (h : tree.StandsAt address t k) (ht : tree.at? address = some t) {j : Nat}
    {other : List Nat} (hj : tree.addresses[j]? = some other) :
    address <+: other ↔ k ≤ j ∧ j < k + t.size := by
  constructor
  · rintro ⟨rest, rfl⟩
    obtain ⟨u, hu⟩ := mem_addresses_iff.mp (List.mem_of_getElem? hj)
    rw [at?_append, ht, Option.bind_some] at hu
    obtain ⟨d, hd⟩ := List.mem_iff_getElem?.mp (mem_addresses_iff.mpr ⟨u, hu⟩)
    obtain ⟨hlt, -⟩ := List.getElem?_eq_some_iff.mp hd
    rw [length_addresses] at hlt
    have hplace := h.getElem?_addresses hlt
    rw [hd, Option.map_some] at hplace
    have hj := eq_of_address hj hplace
    omega
  · rintro ⟨hle, hlt⟩
    obtain ⟨d, rfl⟩ := Nat.exists_eq_add_of_le hle
    rw [h.getElem?_addresses (by omega)] at hj
    obtain ⟨rest, -, rfl⟩ := Option.map_eq_some_iff.mp hj
    exact List.prefix_append _ _

end StandsAt

section Places

variable {tree : ParseTree} {i j p q : Nat} {address : List Nat} {node : Node}

theorem exists_standsAt_of_address (h : tree.addresses[i]? = some address) :
    ∃ t, tree.at? address = some t ∧ tree.StandsAt address t i := by
  obtain ⟨t, ht⟩ := mem_addresses_iff.mp (List.mem_of_getElem? h)
  obtain ⟨k, hk⟩ := exists_standsAt ht
  rw [eq_of_address h hk.getElem?_address]
  exact ⟨t, ht, hk⟩

theorem exists_address (h : i < tree.size) : ∃ address, tree.addresses[i]? = some address := by
  rw [← length_addresses] at h
  exact ⟨_, List.getElem?_eq_getElem h⟩

theorem exists_address_of_node (h : (lower 0 tree)[i]? = some node) :
    ∃ address, tree.addresses[i]? = some address := by
  obtain ⟨hlt, -⟩ := List.getElem?_eq_some_iff.mp h
  rw [length_lower] at hlt
  exact exists_address hlt

theorem map_children (h : (lower 0 tree)[i]? = some node)
    (ha : tree.addresses[i]? = some address) : ∃ t, tree.at? address = some t ∧
      node.children.map (tree.addresses[·]?) =
        (List.range t.children.length).map fun n => some (address ++ [n]) := by
  obtain ⟨t, ht, hplace⟩ := exists_standsAt_of_address ha
  rw [hplace.node_eq] at h
  cases h
  exact ⟨t, ht, hplace.map_rootIds⟩

theorem mem_children_iff (h : (lower 0 tree)[p]? = some node)
    (ha : tree.addresses[p]? = some address) :
    i ∈ node.children ↔ ∃ n, tree.addresses[i]? = some (address ++ [n]) := by
  obtain ⟨t, ht, hmap⟩ := map_children h ha
  constructor
  · intro hi
    have hi := List.mem_map_of_mem (f := (tree.addresses[·]?)) hi
    rw [hmap] at hi
    obtain ⟨n, -, hn⟩ := List.mem_map.mp hi
    exact ⟨n, hn.symm⟩
  · rintro ⟨n, hi⟩
    obtain ⟨u, hu⟩ := mem_addresses_iff.mp (List.mem_of_getElem? hi)
    rw [at?_append, ht, Option.bind_some] at hu
    obtain ⟨child, hchild, -⟩ := Option.bind_eq_some_iff.mp hu
    obtain ⟨hn, -⟩ := List.getElem?_eq_some_iff.mp hchild
    have hn : some (address ++ [n]) ∈ node.children.map (tree.addresses[·]?) := by
      rw [hmap]
      exact List.mem_map.mpr ⟨n, List.mem_range.mpr hn, rfl⟩
    obtain ⟨j, hj, hja⟩ := List.mem_map.mp hn
    rwa [eq_of_address hi hja]

theorem zero_notMem_children (h : (lower 0 tree)[i]? = some node) : 0 ∉ node.children := by
  obtain ⟨address, ha⟩ := exists_address_of_node h
  rw [mem_children_iff h ha, getElem?_addresses_zero]
  rintro ⟨n, hn⟩
  simp at hn

theorem exists_parent (hpos : 0 < i) (hi : i < tree.size) : ∃ p < i,
    ∀ q node, (lower 0 tree)[q]? = some node → (i ∈ node.children ↔ q = p) := by
  obtain ⟨address, ha⟩ := exists_address hi
  -- The last step of an address leads from the parent.
  obtain rfl | ⟨init, n, rfl⟩ := List.eq_nil_or_concat' address
  · have := eq_of_address ha tree.getElem?_addresses_zero
    omega
  obtain ⟨u, hu⟩ := mem_addresses_iff.mp (List.mem_of_getElem? ha)
  rw [at?_append] at hu
  obtain ⟨t, ht, -⟩ := Option.bind_eq_some_iff.mp hu
  obtain ⟨p, hp⟩ := List.mem_iff_getElem?.mp (mem_addresses_iff.mpr ⟨t, ht⟩)
  obtain ⟨t, ht, hplace⟩ := exists_standsAt_of_address hp
  have hle := ((hplace.isPrefix_iff ht ha).mp (List.prefix_append init [n])).1
  have hne : p ≠ i := by
    rintro rfl
    rw [hp] at ha
    simp at ha
  refine ⟨p, by omega, ?_⟩
  intro q node hq
  obtain ⟨address, haddress⟩ := exists_address_of_node hq
  rw [mem_children_iff hq haddress, ha]
  constructor
  · rintro ⟨m, hm⟩
    obtain ⟨rfl, -⟩ := List.append_inj' (Option.some.inj hm) rfl
    exact eq_of_address haddress hp
  · rintro rfl
    rw [hp] at haddress
    cases haddress
    exact ⟨n, rfl⟩

end Places

end ParseTree

namespace SyntaxTree

inductive Visits (tree : SyntaxTree) : List Nat → List Nat → Prop
  | done : tree.Visits [] []
  | next {id : Nat} {node : Node} {pending visited : List Nat} (h : tree.node? id = some node)
      (rest : tree.Visits (node.children ++ pending) visited) :
      tree.Visits (id :: pending) (id :: visited)

section Visits

variable {tree : SyntaxTree}

mutual

theorem visits_tree (parsed : ParseTree) {id : Nat} {pending visited : List Nat}
    (h : ∀ d < parsed.size, tree.node? (id + d) = (parsed.lower id)[d]?)
    (hv : tree.Visits pending visited) :
    tree.Visits (id :: pending) (List.range' id parsed.size ++ visited) := by
  cases parsed with
  | node info children =>
    rw [ParseTree.size, Nat.add_comm, List.range'_succ]
    refine .next (h 0 (ParseTree.size_pos _)) ?_
    refine visits_trees children ?_ hv
    intro d hd
    have := h (d + 1) (by rw [ParseTree.size]; omega)
    rwa [← Nat.add_assoc, Nat.add_right_comm] at this

theorem visits_trees (parsed : List ParseTree) {id : Nat} {pending visited : List Nat}
    (h : ∀ d < ParseTree.sizes parsed, tree.node? (id + d) = (ParseTree.lowers id parsed)[d]?)
    (hv : tree.Visits pending visited) :
    tree.Visits (ParseTree.rootIds id parsed ++ pending)
      (List.range' id (ParseTree.sizes parsed) ++ visited) := by
  cases parsed with
  | nil => exact hv
  | cons first rest =>
    rw [ParseTree.sizes, ← List.range'_append_1, List.append_assoc]
    refine visits_tree first ?_ (visits_trees rest ?_ hv)
    · intro d hd
      rw [h d (by rw [ParseTree.sizes]; omega), ParseTree.lowers,
        List.getElem?_append_left (by rwa [ParseTree.length_lower])]
    · intro d hd
      rw [Nat.add_assoc, h (first.size + d) (by rw [ParseTree.sizes]; omega), ParseTree.lowers,
        List.getElem?_append_right (by rw [ParseTree.length_lower]; omega),
        ParseTree.length_lower, Nat.add_sub_cancel_left]

end

end Visits

end SyntaxTree

end StyleCheck
