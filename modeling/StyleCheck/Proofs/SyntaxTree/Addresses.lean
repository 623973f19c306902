import Mathlib.Data.List.Nodup
import StyleCheck.SyntaxTree.Lowering

namespace StyleCheck.ParseTree

mutual

def addresses : ParseTree → List (List Nat)
  | node _ children => [] :: addressesFrom 0 children

def addressesFrom (k : Nat) : List ParseTree → List (List Nat)
  | [] => []
  | tree :: trees => tree.addresses.map (k :: ·) ++ addressesFrom (k + 1) trees

end

def at? : List Nat → ParseTree → Option ParseTree
  | [], tree => some tree
  | k :: address, tree => tree.children[k]?.bind (at? address)

theorem at?_append (address rest : List Nat) (tree : ParseTree) :
    tree.at? (address ++ rest) = (tree.at? address).bind (·.at? rest) := by
  induction address generalizing tree with
  | nil => rfl
  | cons k address ih =>
    rw [List.cons_append, at?, at?, Option.bind_assoc]
    congr 1
    funext child
    exact ih child

mutual

theorem length_addresses (tree : ParseTree) : tree.addresses.length = tree.size := by
  cases tree with
  | node info children =>
    rw [addresses, List.length_cons, length_addressesFrom, size, Nat.add_comm]

theorem length_addressesFrom (k : Nat) (trees : List ParseTree) :
    (addressesFrom k trees).length = sizes trees := by
  cases trees with
  | nil => rfl
  | cons tree trees =>
    rw [addressesFrom, List.length_append, List.length_map, length_addresses,
      length_addressesFrom, sizes]

end

mutual

theorem mem_addresses_iff {tree : ParseTree} {address : List Nat} :
    address ∈ tree.addresses ↔ ∃ t, tree.at? address = some t := by
  cases tree with
  | node info children =>
    cases address with
    | nil => exact iff_of_true List.mem_cons_self ⟨_, rfl⟩
    | cons k address =>
      rw [addresses, List.mem_cons, mem_addressesFrom_iff]
      constructor
      · rintro (h | ⟨n, rest, h, child, hchild, t, ht⟩)
        · cases h
        · obtain ⟨rfl, rfl⟩ := List.cons.inj h
          refine ⟨t, ?_⟩
          rw [at?, Nat.zero_add]
          exact Option.bind_eq_some_iff.mpr ⟨child, hchild, ht⟩
      · rintro ⟨t, h⟩
        obtain ⟨child, hchild, ht⟩ := Option.bind_eq_some_iff.mp h
        exact .inr ⟨k, address, by rw [Nat.zero_add], child, hchild, t, ht⟩

theorem mem_addressesFrom_iff {k : Nat} {trees : List ParseTree} {address : List Nat} :
    address ∈ addressesFrom k trees ↔ ∃ n rest, address = (k + n) :: rest ∧
      ∃ child, trees[n]? = some child ∧ ∃ t, child.at? rest = some t := by
  cases trees with
  | nil => simp [addressesFrom]
  | cons tree trees =>
    rw [addressesFrom, List.mem_append, List.mem_map, mem_addressesFrom_iff]
    constructor
    · rintro (⟨rest, hrest, rfl⟩ | ⟨n, rest, rfl, child, hchild, ht⟩)
      · exact ⟨0, rest, rfl, tree, rfl, mem_addresses_iff.mp hrest⟩
      · exact ⟨n + 1, rest, by rw [Nat.add_right_comm, Nat.add_assoc], child, hchild, ht⟩
    · rintro ⟨n, rest, rfl, child, hchild, ht⟩
      cases n with
      | zero =>
        cases hchild
        exact .inl ⟨rest, mem_addresses_iff.mpr ht, rfl⟩
      | succ n =>
        exact .inr ⟨n, rest, by rw [Nat.add_right_comm, Nat.add_assoc], child, hchild, ht⟩

end

mutual

theorem addresses_increasing (tree : ParseTree) : tree.addresses.Pairwise (· < ·) := by
  cases tree with
  | node info children =>
    rw [addresses, List.pairwise_cons]
    refine ⟨?_, addressesFrom_increasing 0 children⟩
    intro address h
    obtain ⟨n, rest, rfl, -⟩ := mem_addressesFrom_iff.mp h
    exact List.nil_lt_cons _ _

theorem addressesFrom_increasing (k : Nat) (trees : List ParseTree) :
    (addressesFrom k trees).Pairwise (· < ·) := by
  cases trees with
  | nil => exact .nil
  | cons tree trees =>
    rw [addressesFrom, List.pairwise_append]
    refine ⟨?_, addressesFrom_increasing (k + 1) trees, ?_⟩
    · rw [List.pairwise_map]
      exact (addresses_increasing tree).imp fun h => List.cons_lt_cons_self.mpr h
    · intro a ha b hb
      obtain ⟨rest, -, rfl⟩ := List.mem_map.mp ha
      obtain ⟨n, rest', rfl, -⟩ := mem_addressesFrom_iff.mp hb
      exact List.cons_lt_cons_iff.mpr (.inl (by omega))

end

theorem nodup_addresses (tree : ParseTree) : tree.addresses.Nodup := by
  apply (addresses_increasing tree).imp
  rintro address _ h rfl
  exact List.lt_irrefl address h

theorem eq_of_address {tree : ParseTree} {address : List Nat} {i j : Nat}
    (hi : tree.addresses[i]? = some address) (hj : tree.addresses[j]? = some address) : i = j := by
  obtain ⟨hlt, hi⟩ := List.getElem?_eq_some_iff.mp hi
  obtain ⟨hlt', hj⟩ := List.getElem?_eq_some_iff.mp hj
  exact (List.Nodup.getElem_inj_iff (nodup_addresses tree)).mp (hi.trans hj.symm)

end StyleCheck.ParseTree
