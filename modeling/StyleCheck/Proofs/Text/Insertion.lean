import StyleCheck.Text.Lines

namespace StyleCheck.Text

/-- The text from byte `n` on, the bytes before which the word is put in, and the result. -/
inductive Inserted (word : List Char) : Nat → List Char → List Nat → List Char → Prop
  | nil {n : Nat} : Inserted word n [] [] []
  | keep {n : Nat} {c : Char} {cs out : List Char} {offsets : List Nat}
      (rest : Inserted word (n + c.utf8Size) cs offsets out) :
      Inserted word n (c :: cs) offsets (c :: out)
  | insert {n : Nat} {cs out out' : List Char} {offsets : List Nat}
      (rest : Inserted word n cs offsets out) (h : out' = word ++ out) :
      Inserted word n cs (n :: offsets) out'

variable {word : List Char}

theorem inserted_nowhere (n : Nat) (cs : List Char) : Inserted word n cs [] cs := by
  induction cs generalizing n with
  | nil => exact .nil
  | cons c cs ih => exact .keep (ih (n + c.utf8Size))

theorem Inserted.append {n : Nat} {cs ds out out' : List Char} {offsets offsets' : List Nat}
    (h : Inserted word n cs offsets out) (h' : Inserted word (n + width cs) ds offsets' out') :
    Inserted word n (cs ++ ds) (offsets ++ offsets') (out ++ out') := by
  induction h with
  | nil => exact h'
  | keep _ ih =>
    rw [width, ← Nat.add_assoc] at h'
    exact .keep (ih h')
  | insert _ h ih =>
    rw [h, List.append_assoc]
    exact .insert (ih h') rfl

theorem Inserted.eq_of_nil {n : Nat} {cs out : List Char} (h : Inserted word n cs [] out) :
    out = cs := by
  induction cs generalizing n out with
  | nil =>
    cases h
    rfl
  | cons c cs ih =>
    cases h with
    | keep rest => rw [ih rest]

theorem append_inj_of_width {a b a' b' : List Char} (h : a ++ b = a' ++ b')
    (hw : width a = width a') : a = a' ∧ b = b' := by
  induction a generalizing a' with
  | nil =>
    cases a' with
    | nil => exact ⟨rfl, h⟩
    | cons c cs =>
      have hpos := c.utf8Size_pos
      simp only [width] at hw
      omega
  | cons c cs ih =>
    cases a' with
    | nil =>
      have hpos := c.utf8Size_pos
      simp only [width] at hw
      omega
    | cons d ds =>
      obtain ⟨rfl, htail⟩ := List.cons.inj h
      obtain ⟨rfl, hb⟩ := ih htail (Nat.add_left_cancel hw)
      exact ⟨rfl, hb⟩

def Avoids (c : Char) (n : Nat) (cs : List Char) (offsets : List Nat) : Prop :=
  ∀ o ∈ offsets, ∀ before after, cs = before ++ c :: after → o ≠ n + width before

theorem Avoids.tail {c d : Char} {n : Nat} {cs : List Char} {offsets : List Nat}
    (h : Avoids c n (d :: cs) offsets) : Avoids c (n + d.utf8Size) cs offsets := by
  rintro o ho before after rfl
  have hne := h o ho (d :: before) after rfl
  rwa [width, ← Nat.add_assoc] at hne

theorem Avoids.cons {c : Char} {n o : Nat} {cs : List Char} {offsets : List Nat}
    (h : Avoids c n cs (o :: offsets)) : Avoids c n cs offsets :=
  fun o ho => h o (List.mem_cons_of_mem _ ho)

theorem Inserted.unique {c : Char} {n : Nat} {cs out : List Char} {offsets offsets' : List Nat}
    (h : Inserted (c :: word) n cs offsets out) (h' : Inserted (c :: word) n cs offsets' out)
    (ha : Avoids c n cs offsets) (ha' : Avoids c n cs offsets') : offsets = offsets' := by
  induction h generalizing offsets' with
  | nil =>
    cases h' with
    | nil => rfl
    | insert _ h => cases h
  | @keep n d cs out offsets _ ih =>
    cases h' with
    | keep rest => exact ih rest ha.tail ha'.tail
    | insert _ h =>
      obtain ⟨rfl, -⟩ := List.cons.inj h
      exact absurd rfl (ha' n List.mem_cons_self [] cs rfl)
  | @insert n cs out out' offsets _ h ih =>
    subst h
    cases h' with
    | keep =>
      exact absurd rfl (ha n List.mem_cons_self [] _ rfl)
    | insert rest h =>
      rw [← List.append_cancel_left h] at rest
      rw [ih rest ha.cons ha'.cons]

end StyleCheck.Text
