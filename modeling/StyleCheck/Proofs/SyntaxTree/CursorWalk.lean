import StyleCheck.SyntaxTree.Lowering

namespace StyleCheck.ParseTree

section Attach

variable {around : List Nat} {nodes : Array Node}

theorem size_attach (around children : List Nat) (nodes : Array Node) :
    (attach around children nodes).size = nodes.size := by
  cases around with
  | nil => rfl
  | cons parent around => exact Array.size_modify

theorem attach_nil (around : List Nat) (nodes : Array Node) : attach around [] nodes = nodes := by
  cases around with
  | nil => rfl
  | cons parent around =>
    apply Array.ext_getElem?
    intro i
    simp [attach, Array.getElem?_modify]

theorem attach_attach (around children others : List Nat) (nodes : Array Node) :
    attach around others (attach around children nodes) =
      attach around (children ++ others) nodes := by
  cases around with
  | nil => rfl
  | cons parent around =>
    apply Array.ext_getElem?
    intro i
    simp only [attach, Array.getElem?_modify]
    split
    · rw [Option.map_map]
      congr 1
      funext node
      simp
    · rfl

theorem attach_append (h : ∀ parent ∈ around.head?, parent < nodes.size) (children : List Nat)
    (later : Array Node) :
    attach around children (nodes ++ later) = attach around children nodes ++ later := by
  cases around with
  | nil => rfl
  | cons parent around =>
    have hparent : parent < nodes.size := h parent rfl
    apply Array.ext_getElem?
    intro i
    simp only [attach, Array.getElem?_modify, Array.getElem?_append, Array.size_modify]
    by_cases hi : parent = i
    · subst hi
      simp [hparent]
    · simp [hi]

theorem attach_last (around children : List Nat) (nodes : Array Node) (info : Info) :
    attach (nodes.size :: around) children (nodes ++ #[info.toNode nodes.size []]) =
      nodes ++ #[info.toNode nodes.size children] := by
  apply Array.ext_getElem?
  intro i
  simp only [attach, Array.getElem?_modify, Array.getElem?_append]
  by_cases hi : nodes.size = i
  · subst hi
    simp [Info.toNode]
  · by_cases hlt : i < nodes.size
    · simp [hi, hlt]
    · have hsub : i - nodes.size ≠ 0 := by omega
      simp [hi, hlt, hsub]

theorem visit_eq (h : ∀ parent ∈ around.head?, parent < nodes.size) (tree : ParseTree) :
    visit tree around nodes =
      attach around [nodes.size] nodes ++ #[tree.info.toNode nodes.size []] := by
  rw [visit, Array.push_eq_append, attach_append h]

end Attach

theorem Cursor.next?_eq (cursor : Cursor) (id : Nat) (around : List Nat) :
    cursor.next? id around =
      (Cursor.child cursor cursor.tree cursor.tree.children).climb? (id :: around) := by
  unfold next? firstChild?
  cases cursor.tree.children with
  | nil => rfl
  | cons tree right => rfl

def resume (turns : Nat) : Option (Cursor × List Nat) → Array Node → Array Node
  | none, nodes => nodes
  | some (cursor, around), nodes => lowerFrom turns cursor around nodes

theorem lowerFrom_succ (turns : Nat) (cursor : Cursor) (around : List Nat) (nodes : Array Node) :
    lowerFrom (turns + 1) cursor around nodes =
      resume turns (cursor.next? nodes.size around) (visit cursor.tree around nodes) := by
  rw [lowerFrom]
  cases cursor.next? nodes.size around <;> rfl

mutual

theorem lowerFrom_tree (tree : ParseTree) {cursor : Cursor} (hc : cursor.tree = tree)
    {around : List Nat} {nodes : Array Node} (h : ∀ parent ∈ around.head?, parent < nodes.size)
    (turns : Nat) :
    lowerFrom (tree.size + turns) cursor around nodes =
      resume turns (cursor.climb? around)
        (attach around [nodes.size] nodes ++ (lower nodes.size tree).toArray) := by
  cases tree with
  | node info children =>
    have hsize : (visit cursor.tree around nodes).size = nodes.size + 1 := by
      rw [visit, size_attach, Array.size_push]
    have hturns : (node info children).size + turns = sizes children + turns + 1 := by
      rw [size]
      omega
    have hchildren : cursor.tree.children = children := by rw [hc]; rfl
    have hinfo : cursor.tree.info = info := by rw [hc]; rfl
    rw [hturns, lowerFrom_succ, Cursor.next?_eq, hchildren,
      resume_right children (by rw [hsize]; omega) turns, hsize]
    congr 1
    have hattached := size_attach around [nodes.size] nodes
    have hlast := attach_last around (rootIds (nodes.size + 1) children)
      (attach around [nodes.size] nodes) info
    rw [hattached] at hlast
    rw [visit_eq h, hinfo, hlast, lower, Array.append_assoc]
    simp

theorem resume_right (right : List ParseTree) {parent : Cursor} {tree : ParseTree} {id : Nat}
    {around : List Nat} {nodes : Array Node} (h : id < nodes.size) (turns : Nat) :
    resume (sizes right + turns) ((Cursor.child parent tree right).climb? (id :: around)) nodes =
      resume turns (parent.climb? around)
        (attach (id :: around) (rootIds nodes.size right) nodes ++
          (lowers nodes.size right).toArray) := by
  have hhead : ∀ parent ∈ (id :: around).head?, parent < nodes.size := by
    rintro _ ⟨⟩
    exact h
  cases right with
  | nil =>
    rw [sizes, Nat.zero_add, rootIds, attach_nil, lowers, Array.append_empty]
    rfl
  | cons next right =>
    have hturns : sizes (next :: right) + turns = next.size + (sizes right + turns) := by
      rw [sizes]
      omega
    rw [Cursor.climb?, resume, hturns, lowerFrom_tree next rfl hhead]
    have hsize : (attach (id :: around) [nodes.size] nodes ++
        (lower nodes.size next).toArray).size = nodes.size + next.size := by
      simp only [Array.size_append, size_attach, List.size_toArray, length_lower]
    have hattached : ∀ parent ∈ (id :: around).head?,
        parent < (attach (id :: around) [nodes.size] nodes).size := by
      rwa [size_attach]
    rw [resume_right right (by rw [hsize]; omega) turns, hsize, attach_append hattached,
      attach_attach, rootIds, lowers, Array.append_assoc]
    simp

end

theorem lowerFrom_root (tree : ParseTree) (turns : Nat) :
    lowerFrom (tree.size + turns) (.root tree) [] #[] = (lower 0 tree).toArray := by
  have hhead : ∀ parent ∈ ([] : List Nat).head?, parent < (#[] : Array Node).size := nofun
  rw [lowerFrom_tree tree rfl hhead turns]
  simp [resume, Cursor.climb?, attach]

theorem toNodes_eq (tree : ParseTree) : tree.toNodes = (lower 0 tree).toArray :=
  lowerFrom_root tree 0

end StyleCheck.ParseTree
