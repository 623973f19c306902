import StyleCheck.Position
import StyleCheck.Text.Lines

namespace StyleCheck

namespace Text

def bytes (cs : List Char) : List UInt8 :=
  cs.flatMap String.utf8EncodeChar

@[simp] theorem bytes_append (a b : List Char) : bytes (a ++ b) = bytes a ++ bytes b :=
  List.flatMap_append

@[simp] theorem length_bytes (cs : List Char) : (bytes cs).length = width cs := by
  induction cs with
  | nil => rfl
  | cons c cs ih => simpa [bytes, width] using ih

theorem dropBytes_width (before cs : List Char) : dropBytes (width before) (before ++ cs) = cs := by
  induction before with
  | nil =>
    cases cs with
    | nil => rfl
    | cons c cs => exact if_neg (Nat.not_le.mpr c.utf8Size_pos)
  | cons c before ih =>
    rw [List.cons_append, dropBytes, width, if_pos (Nat.le_add_right _ _), Nat.add_sub_cancel_left, ih]

def IsBoundary (cs : List Char) (n : Nat) : Prop :=
  ∃ before, before <+: cs ∧ width before = n

theorem isBoundary_append (a b : List Char) : IsBoundary (a ++ b) (width a) :=
  ⟨a, List.prefix_append a b, rfl⟩

theorem extract_bytes (a b c : List Char) :
    (bytes (a ++ b ++ c)).extract (width a) (width a + width b) = bytes b := by
  have ha : width a = (bytes a).length := (length_bytes a).symm
  have hb : width b = (bytes b).length := (length_bytes b).symm
  rw [List.extract_eq_take_drop, Nat.add_sub_cancel_left, bytes_append, bytes_append,
    List.append_assoc, ha, List.drop_left, hb, List.take_left]

theorem getElem?_bytes (a b c : List Char) {i : Nat} (hi : i < width b) :
    (bytes (a ++ b ++ c))[width a + i]? = (bytes b)[i]? := by
  have ha : width a = (bytes a).length := (length_bytes a).symm
  have hb : i < (bytes b).length := by rwa [length_bytes]
  rw [bytes_append, bytes_append, List.append_assoc, ha, List.getElem?_append_right (by omega),
    Nat.add_sub_cancel_left, List.getElem?_append_left hb]

theorem eq_nil_of_width {cs : List Char} (h : width cs = 0) : cs = [] := by
  have := length_le_width cs
  exact List.eq_nil_of_length_eq_zero (by omega)

theorem exists_split_of_width {a b x y z : List Char} {c : Char}
    (h : a ++ c :: b = x ++ (y ++ z)) (hx : width x ≤ width a) (hy : width a < width x + width y) :
    ∃ m n, a = x ++ m ∧ y = m ++ c :: n ∧ b = n ++ z := by
  obtain ⟨m, rfl, hm⟩ : ∃ m, a = x ++ m ∧ y ++ z = m ++ c :: b := by
    cases List.append_eq_append_iff.mp h with
    | inl h =>
      obtain ⟨m, rfl, hm⟩ := h
      rw [width_append] at hx
      obtain rfl : m = [] := eq_nil_of_width (by omega)
      exact ⟨[], by simp, hm.symm⟩
    | inr h => exact h
  rw [width_append] at hy
  cases List.append_eq_append_iff.mp hm with
  | inl h =>
    obtain ⟨n, rfl, -⟩ := h
    rw [width_append] at hy
    omega
  | inr h =>
    obtain ⟨n, rfl, hn⟩ := h
    cases n with
    | nil =>
      rw [List.append_nil] at hy
      omega
    | cons d n =>
      obtain ⟨rfl, rfl⟩ := List.cons.inj hn
      exact ⟨m, n, rfl, rfl, rfl⟩

end Text

namespace Position

theorem ble_of_le {line a b : Nat} (h : a ≤ b) : Position.ble ⟨line, a⟩ ⟨line, b⟩ = true :=
  ble_iff.2 (.inr ⟨rfl, h⟩)

theorem ble_of_lt {p q : Position} (h : p.line < q.line) : p.ble q = true :=
  ble_iff.2 (.inl h)

theorem ble_refl (p : Position) : p.ble p = true :=
  ble_of_le (Nat.le_refl p.column)

theorem ble_trans {p q r : Position} (hpq : p.ble q = true) (hqr : q.ble r = true) :
    p.ble r = true := by
  rw [ble_iff] at *
  omega

def offset (source : List Char) (p : Position) : Nat :=
  Text.width ((Text.lines source).take (p.line - 1)).flatten + p.column

theorem offset_of_lines {source : List Char} {before rest : List (List Char)}
    (h : Text.lines source = before ++ rest) (column : Nat) :
    offset source ⟨before.length + 1, column⟩ = Text.width before.flatten + column := by
  simp [offset, h]

theorem offset_of_line_lt {source line : List Char} {before after : List (List Char)}
    (hl : Text.lines source = before ++ line :: after) {p : Position}
    (hp : before.length + 1 < p.line) :
    Text.width before.flatten + Text.width line ≤ p.offset source := by
  have htake : (Text.lines source).take (p.line - 1) =
      before ++ line :: after.take (p.line - 1 - before.length - 1) := by
    obtain ⟨k, hk⟩ : ∃ k, p.line - 1 - before.length = k + 1 :=
      ⟨p.line - 1 - before.length - 1, by omega⟩
    rw [hl, List.take_append, List.take_of_length_le (by omega), hk]
    rfl
  rw [offset, htake]
  simp only [List.flatten_append, List.flatten_cons, Text.width_append]
  omega

end Position

end StyleCheck
