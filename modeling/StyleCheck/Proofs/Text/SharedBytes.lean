import StyleCheck.Proofs.Text.Bytes

namespace StyleCheck.Text

def sharedLength (a b : List UInt8) : Nat :=
  ((a.zip b).takeWhile fun pair => pair.1 == pair.2).length

def sharedBytes (a b : List Char) : Nat :=
  sharedLength (bytes a) (bytes b)

theorem sharedLength_cons_self (b : UInt8) (a a' : List UInt8) :
    sharedLength (b :: a) (b :: a') = sharedLength a a' + 1 := by
  simp [sharedLength]

theorem sharedLength_cons_of_ne {b b' : UInt8} (h : b ≠ b') (a a' : List UInt8) :
    sharedLength (b :: a) (b' :: a') = 0 := by
  simp [sharedLength, h]

theorem sharedLength_append (c a b : List UInt8) :
    sharedLength (c ++ a) (c ++ b) = c.length + sharedLength a b := by
  induction c with
  | nil => rw [List.nil_append, List.nil_append, List.length_nil, Nat.zero_add]
  | cons d c ih =>
    rw [List.cons_append, List.cons_append, sharedLength_cons_self, ih, List.length_cons]
    omega

theorem sharedLength_append_lt {c d : List UInt8} (hlength : c.length = d.length) (hne : c ≠ d)
    (a b : List UInt8) : sharedLength (c ++ a) (d ++ b) < c.length := by
  induction c generalizing d with
  | nil => exact absurd (List.eq_nil_of_length_eq_zero hlength.symm).symm hne
  | cons x c ih =>
    cases d with
    | nil => cases hlength
    | cons y d =>
      rw [List.cons_append, List.cons_append, List.length_cons]
      by_cases hxy : x = y
      · subst hxy
        rw [sharedLength_cons_self]
        have hrest := ih (Nat.succ.inj hlength) (fun h => hne (congrArg (x :: ·) h))
        omega
      · rw [sharedLength_cons_of_ne hxy]
        omega

theorem sharedLength_pos_iff {a b : List UInt8} :
    0 < sharedLength a b ↔ a ≠ [] ∧ a.head? = b.head? := by
  cases a with
  | nil => simp [sharedLength]
  | cons x a =>
    cases b with
    | nil => simp [sharedLength]
    | cons y b =>
      by_cases hxy : x = y
      · subst hxy
        simp [sharedLength_cons_self]
      · simp [sharedLength_cons_of_ne hxy, hxy]

theorem utf8EncodeChar_injective {x y : Char}
    (h : String.utf8EncodeChar x = String.utf8EncodeChar y) : x = y := by
  have hx := ByteArray.utf8DecodeChar?_utf8EncodeChar_append (b := ByteArray.empty) (c := x)
  rw [h, ByteArray.utf8DecodeChar?_utf8EncodeChar_append] at hx
  exact (Option.some.inj hx).symm

theorem bytes_cons (c : Char) (cs : List Char) :
    bytes (c :: cs) = String.utf8EncodeChar c ++ bytes cs :=
  List.flatMap_cons

variable {x y : Char} {xs ys start cs : List Char}

theorem sharedBytes_cons_self (c : Char) (xs ys : List Char) :
    sharedBytes (c :: xs) (c :: ys) = c.utf8Size + sharedBytes xs ys := by
  rw [sharedBytes, bytes_cons, bytes_cons, sharedLength_append, String.length_utf8EncodeChar]
  rfl

theorem sharedBytes_lt (hsize : x.utf8Size = y.utf8Size) (hne : x ≠ y) :
    sharedBytes (x :: xs) (y :: ys) < x.utf8Size := by
  have hlength : (String.utf8EncodeChar x).length = (String.utf8EncodeChar y).length := by
    rwa [String.length_utf8EncodeChar, String.length_utf8EncodeChar]
  have hlt := sharedLength_append_lt hlength (fun h => hne (utf8EncodeChar_injective h))
    (bytes xs) (bytes ys)
  rwa [String.length_utf8EncodeChar, ← bytes_cons, ← bytes_cons] at hlt

theorem sharedBytes_pos_iff : 0 < sharedBytes (x :: xs) (y :: ys) ↔
    (String.utf8EncodeChar x).head? = (String.utf8EncodeChar y).head? := by
  have hhead : ∀ c cs, bytes (c :: cs) ≠ [] ∧
      (bytes (c :: cs)).head? = (String.utf8EncodeChar c).head? := by
    intro c cs
    obtain ⟨b, bs, hc⟩ := List.exists_cons_of_ne_nil (String.utf8EncodeChar_ne_nil (c := c))
    rw [bytes_cons, hc]
    exact ⟨List.cons_ne_nil _ _, rfl⟩
  rw [sharedBytes, sharedLength_pos_iff, (hhead x xs).2, (hhead y ys).2]
  exact and_iff_right (hhead x xs).1

theorem takeBytes_of_isPrefix (h : start <+: cs) :
    takeBytes (width start) cs = start := by
  induction start generalizing cs with
  | nil =>
    cases cs with
    | nil => rfl
    | cons c cs => exact if_neg (Nat.not_le_of_lt c.utf8Size_pos)
  | cons c start ih =>
    obtain ⟨rest, rfl⟩ := h
    rw [List.cons_append, takeBytes, width, if_pos (Nat.le_add_right _ _), Nat.add_sub_cancel_left,
      ih (List.prefix_append start rest)]

end StyleCheck.Text
