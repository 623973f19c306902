import StyleCheck.Proofs.Margin.LineByLine
import StyleCheck.Proofs.Text.SharedBytes

/-!
Where the texts are cut when the margin is taken off. Indentations are compared byte by byte, and
two different blanks may begin with the same bytes: a margin that goes on with the one cannot be cut
where it differs from the other.
-/

namespace StyleCheck

namespace Margin

open Text

variable {x y : Char} {xs ys shared next : List Char}

section FirstByte

theorem toNat_lt (c : Char) : c.toNat < 0x110000 := by
  rcases c.valid with h | ⟨-, h⟩
  · exact Nat.lt_trans h (by decide)
  · exact h

theorem leadByte_cases (c : Char) :
    (c.utf8Size = 1 ∧ leadByte c < 0x80) ∨
    (c.utf8Size = 2 ∧ 0xC0 ≤ leadByte c ∧ leadByte c < 0xE0) ∨
    (c.utf8Size = 3 ∧ 0xE0 ≤ leadByte c ∧ leadByte c < 0xF0) ∨
    (c.utf8Size = 4 ∧ 0xF0 ≤ leadByte c ∧ leadByte c < 0x100) := by
  have hvalid := toNat_lt c
  have hsize := String.length_utf8EncodeChar c
  have hval : c.val.toNat = c.toNat := rfl
  simp only [String.utf8EncodeChar, hval] at hsize
  unfold leadByte
  dsimp only
  split_ifs at hsize ⊢ <;> simp only [List.length_cons, List.length_nil] at hsize <;> omega

theorem head?_utf8EncodeChar (c : Char) :
    (String.utf8EncodeChar c).head? = some (UInt8.ofNat (leadByte c)) := by
  have hvalid := toNat_lt c
  have hval : c.val.toNat = c.toNat := rfl
  simp only [String.utf8EncodeChar, hval, leadByte]
  split_ifs
  all_goals first
    | omega
    | exact congrArg (fun n => some (UInt8.ofNat n)) (by omega)

theorem leadByte_eq_iff : leadByte x = leadByte y ↔
    (String.utf8EncodeChar x).head? = (String.utf8EncodeChar y).head? := by
  rw [head?_utf8EncodeChar, head?_utf8EncodeChar]
  constructor
  · intro h
    rw [h]
  · intro h
    have hx := leadByte_cases x
    have hy := leadByte_cases y
    have hmod := congrArg UInt8.toNat (Option.some.inj h)
    rw [UInt8.toNat_ofNat', UInt8.toNat_ofNat'] at hmod
    omega

theorem utf8Size_eq_of_leadByte (h : leadByte x = leadByte y) : x.utf8Size = y.utf8Size := by
  have hx := leadByte_cases x
  have hy := leadByte_cases y
  omega

end FirstByte

section Comparison

theorem some_nil_eq_iff (h : sharedBytes xs ys = 0) :
    some [] = some shared ↔ shared <+: xs ∧ width shared = sharedBytes xs ys := by
  rw [h, Option.some.injEq]
  constructor
  · rintro rfl
    exact ⟨List.nil_prefix, rfl⟩
  · rintro ⟨-, hwidth⟩
    exact (eq_nil_of_width hwidth).symm

theorem common?_eq_some_iff :
    common? xs ys = some shared ↔ shared <+: xs ∧ width shared = sharedBytes xs ys := by
  fun_induction common? xs ys generalizing shared with
  | case1 xs c ys ih =>
    rw [sharedBytes_cons_self, Option.map_eq_some_iff]
    constructor
    · rintro ⟨rest, hrest, rfl⟩
      obtain ⟨hstart, hwidth⟩ := ih.mp hrest
      exact ⟨List.cons_prefix_cons.mpr ⟨rfl, hstart⟩, congrArg (c.utf8Size + ·) hwidth⟩
    · rintro ⟨hstart, hwidth⟩
      cases shared with
      | nil =>
        have hpos := c.utf8Size_pos
        rw [width] at hwidth
        omega
      | cons d rest =>
        obtain ⟨rfl, hrest⟩ := List.cons_prefix_cons.mp hstart
        exact ⟨rest, ih.mpr ⟨hrest, Nat.add_left_cancel hwidth⟩, rfl⟩
  | case2 x xs y ys hne hlead =>
    constructor
    · intro h
      cases h
    · rintro ⟨hstart, hwidth⟩
      have hpos : 0 < sharedBytes (x :: xs) (y :: ys) :=
        sharedBytes_pos_iff.mpr (leadByte_eq_iff.mp hlead)
      have hlt : sharedBytes (x :: xs) (y :: ys) < x.utf8Size :=
        sharedBytes_lt (utf8Size_eq_of_leadByte hlead) hne
      cases shared with
      | nil =>
        rw [width] at hwidth
        omega
      | cons d rest =>
        obtain ⟨rfl, -⟩ := List.cons_prefix_cons.mp hstart
        rw [width] at hwidth
        omega
  | case3 x xs y ys hne hlead =>
    have hzero : sharedBytes (x :: xs) (y :: ys) = 0 := by
      have hnot : ¬ 0 < sharedBytes (x :: xs) (y :: ys) :=
        fun hpos => hlead (leadByte_eq_iff.mpr (sharedBytes_pos_iff.mp hpos))
      omega
    exact some_nil_eq_iff hzero
  | case4 xs ys hshort =>
    have hzero : sharedBytes xs ys = 0 := by
      cases xs with
      | nil => rfl
      | cons x xs =>
        cases ys with
        | nil => simp [sharedBytes, sharedLength, bytes]
        | cons y ys => exact (hshort x xs y ys rfl rfl).elim
    exact some_nil_eq_iff hzero

theorem isBoundary_sharedBytes_iff :
    IsBoundary xs (sharedBytes xs ys) ↔ ∃ shared, common? xs ys = some shared :=
  exists_congr fun _ => common?_eq_some_iff.symm

/-- Where what some texts share is cut at each comparison. After a cut inside a character there is
no other; what is said of those that stand here does not matter then. -/
def cutsFrom : List Char → List (List Char) → List (List Char × Nat)
  | _, [] => []
  | shared, next :: rest =>
    (shared, sharedBytes shared next) :: cutsFrom (takeBytes (sharedBytes shared next) shared) rest

def cuts : List (List Char) → List (List Char × Nat)
  | [] => []
  | first :: rest => cutsFrom first rest

theorem forall_mem_cutsFrom_iff {first : List Char} {rest : List (List Char)} :
    (∀ cut ∈ cutsFrom first rest, IsBoundary cut.1 cut.2) ↔
      ∃ shared, rest.foldlM common? first = some shared := by
  induction rest generalizing first with
  | nil => exact ⟨fun _ => ⟨first, rfl⟩, fun _ => List.forall_mem_nil _⟩
  | cons next rest ih =>
    rw [cutsFrom, List.forall_mem_cons, List.foldlM_cons, isBoundary_sharedBytes_iff]
    cases hboth : common? first next with
    | none =>
      constructor
      · rintro ⟨⟨shared, hshared⟩, -⟩
        cases hshared
      · rintro ⟨shared, hshared⟩
        cases hshared
    | some both =>
      obtain ⟨hstart, hwidth⟩ := common?_eq_some_iff.mp hboth
      rw [← hwidth, takeBytes_of_isPrefix hstart, ih]
      exact and_iff_right ⟨both, rfl⟩

theorem forall_mem_cuts_iff {texts : List (List Char)} :
    (∀ cut ∈ cuts texts, IsBoundary cut.1 cut.2) ↔ ∃ shared, shared? texts = some shared := by
  cases texts with
  | nil => exact ⟨fun _ => ⟨[], rfl⟩, fun _ => List.forall_mem_nil _⟩
  | cons first rest => exact forall_mem_cutsFrom_iff

end Comparison

section Clash

/-- Behind a common start, all indentations before go on with one blank, and this one with another
that begins with the same byte. -/
structure Clash (before : List (List Char)) (indent start : List Char) (x y : Char) : Prop where
  ne : x ≠ y
  head?_eq : (String.utf8EncodeChar x).head? = (String.utf8EncodeChar y).head?
  before_ne : before ≠ []
  before : ∀ other ∈ before, start ++ [x] <+: other
  indent : start ++ [y] <+: indent

def Clashes (before : List (List Char)) (indent : List Char) : Prop :=
  ∃ start x y, Clash before indent start x y

theorem common?_eq_none_iff : common? xs ys = none ↔
    ∃ start x y, x ≠ y ∧ leadByte x = leadByte y ∧ start ++ [x] <+: xs ∧ start ++ [y] <+: ys := by
  fun_induction common? xs ys with
  | case1 xs c ys ih =>
    rw [Option.map_eq_none_iff, ih]
    constructor
    · rintro ⟨start, x, y, hne, hlead, hx, hy⟩
      exact ⟨c :: start, x, y, hne, hlead, List.cons_prefix_cons.mpr ⟨rfl, hx⟩,
        List.cons_prefix_cons.mpr ⟨rfl, hy⟩⟩
    · rintro ⟨start, x, y, hne, hlead, hx, hy⟩
      cases start with
      | nil =>
        have hxc := (List.cons_prefix_cons.mp hx).1
        exact absurd (hxc.trans (List.cons_prefix_cons.mp hy).1.symm) hne
      | cons d start =>
        exact ⟨start, x, y, hne, hlead, (List.cons_prefix_cons.mp hx).2,
          (List.cons_prefix_cons.mp hy).2⟩
  | case2 x xs y ys hne hlead =>
    exact iff_of_true rfl ⟨[], x, y, hne, hlead, List.prefix_append [x] xs, List.prefix_append [y] ys⟩
  | case3 x xs y ys hne hlead =>
    refine iff_of_false (Option.some_ne_none _) ?_
    rintro ⟨start, x', y', hne', hlead', hx, hy⟩
    cases start with
    | nil =>
      obtain ⟨rfl, -⟩ := List.cons_prefix_cons.mp hx
      obtain ⟨rfl, -⟩ := List.cons_prefix_cons.mp hy
      exact hlead hlead'
    | cons d start =>
      obtain ⟨rfl, -⟩ := List.cons_prefix_cons.mp hx
      exact hne (List.cons_prefix_cons.mp hy).1
  | case4 xs ys hshort =>
    refine iff_of_false (Option.some_ne_none _) ?_
    rintro ⟨start, x', y', hne', hlead', hx, hy⟩
    cases xs with
    | nil => simp at hx
    | cons x xs =>
      cases ys with
      | nil => simp at hy
      | cons y ys => exact hshort x xs y ys rfl rfl

theorem clashes_iff {before : List (List Char)} (h : IsLongestCommon shared before)
    (hne : before ≠ []) : Clashes before next ↔ common? shared next = none := by
  rw [common?_eq_none_iff]
  constructor
  · rintro ⟨start, x, y, hclash⟩
    exact ⟨start, x, y, hclash.ne, leadByte_eq_iff.mpr hclash.head?_eq,
      h.longest _ hclash.before, hclash.indent⟩
  · rintro ⟨start, x, y, hxy, hlead, hx, hy⟩
    refine ⟨start, x, y, hxy, leadByte_eq_iff.mp hlead, hne, ?_, hy⟩
    intro other hother
    exact hx.trans (h.isPrefix other hother)

theorem forall_split_cons_iff {α : Type} {first : α} {rest : List α} {p : List α → α → Prop} :
    (∀ before a after, first :: rest = before ++ a :: after → p before a) ↔
      p [] first ∧ ∀ before a after, rest = before ++ a :: after → p (first :: before) a := by
  constructor
  · intro h
    refine ⟨h [] first rest rfl, fun before a after heq => h (first :: before) a after ?_⟩
    rw [heq, List.cons_append]
  · rintro ⟨hfirst, hrest⟩ before a after heq
    cases before with
    | nil => exact (List.cons.inj heq).1 ▸ hfirst
    | cons b before =>
      obtain ⟨rfl, htail⟩ := List.cons.inj heq
      exact hrest before a after htail

theorem exists_foldlM_iff {before rest : List (List Char)} (h : IsLongestCommon shared before)
    (hne : before ≠ []) : (∃ margin, rest.foldlM common? shared = some margin) ↔
      ∀ mid indent after, rest = mid ++ indent :: after → ¬ Clashes (before ++ mid) indent := by
  induction rest generalizing before shared with
  | nil =>
    refine iff_of_true ⟨shared, rfl⟩ ?_
    intro mid indent after hnil
    simp at hnil
  | cons next rest ih =>
    rw [forall_split_cons_iff, List.append_nil, clashes_iff h hne, List.foldlM_cons]
    cases hboth : common? shared next with
    | none =>
      refine iff_of_false ?_ fun hnot => hnot.1 rfl
      rintro ⟨margin, hmargin⟩
      cases hmargin
    | some both =>
      have hrest := ih (h.snoc hboth) (List.append_ne_nil_of_right_ne_nil _ (List.cons_ne_nil _ _))
      simp only [List.append_assoc, List.singleton_append] at hrest
      rw [← hrest]
      exact (and_iff_right (Option.some_ne_none both)).symm

theorem exists_shared?_iff {texts : List (List Char)} :
    (∃ margin, shared? texts = some margin) ↔
      ∀ before indent after, texts = before ++ indent :: after → ¬ Clashes before indent := by
  cases texts with
  | nil =>
    refine iff_of_true ⟨[], rfl⟩ ?_
    intro before indent after hnil
    simp at hnil
  | cons first rest =>
    have halone : ¬ Clashes [] first := fun ⟨_, _, _, hclash⟩ => hclash.before_ne rfl
    rw [shared?, exists_foldlM_iff (.singleton first) (List.cons_ne_nil _ _),
      forall_split_cons_iff]
    exact (and_iff_right halone).symm

end Clash

structure CutsWhole (text : List Char) : Prop where
  indentation : ∀ line ∈ (lines text).map bare, isBlankLine line = false →
    IsBoundary line (width line - width (trimStart line))
  comparison : ∀ cut ∈ cuts (((lines text).map bare).flatMap indentations), IsBoundary cut.1 cut.2
  content : ∀ margin, margin? text = some margin → ∀ piece ∈ pieces text,
    isBlankLine piece = false → IsBoundary piece (width margin)

theorem isBoundary_indentation (line : List Char) :
    IsBoundary line (width line - width (trimStart line)) := by
  refine ⟨indentation line, List.takeWhile_prefix isBlank, ?_⟩
  have hwidth := width_append (indentation line) (trimStart line)
  rw [indentation_append_trimStart] at hwidth
  omega

theorem cutsWhole_iff (text : List Char) :
    CutsWhole text ↔ ∃ margin, margin? text = some margin := by
  rw [margin?_eq, ← forall_mem_cuts_iff, ← flatMap_indentations_bare]
  constructor
  · intro h
    exact h.comparison
  · intro h
    refine ⟨fun line _ _ => isBoundary_indentation line, h, ?_⟩
    intro margin hm piece hp hvisible
    exact ⟨margin, isPrefix_of_margin? hm hp hvisible, rfl⟩

end Margin

/-- The margin can be taken off, and no character is cut, exactly where no indentation clashes with
all those before it. -/
theorem dedent?_returns_iff (text : List Char) :
    (Margin.CutsWhole text ∧ ∃ out, dedent? text = some out) ↔
      ∀ before indent after,
        (Text.lines text).flatMap Margin.indentations = before ++ indent :: after →
          ¬ Margin.Clashes before indent := by
  have hreturns : (∃ out, dedent? text = some out) ↔ ∃ margin, Margin.margin? text = some margin := by
    simp only [dedent?, Option.map_eq_some_iff]
    constructor
    · rintro ⟨-, margin, hm, -⟩
      exact ⟨margin, hm⟩
    · rintro ⟨margin, hm⟩
      exact ⟨_, margin, hm, rfl⟩
  rw [Margin.cutsWhole_iff, hreturns, and_self, Margin.margin?_eq, Margin.exists_shared?_iff]

/-- The two blanks begin with the same two bytes. -/
theorem not_dedent?_returns_oddMargin :
    let text := "\u2000x = 1\n\u2001y = 2\n".toList
    dedent? text = none ∧ ¬ (Margin.CutsWhole text ∧ ∃ out, dedent? text = some out) := by
  intro text
  have h : dedent? text = none := rfl
  refine ⟨h, ?_⟩
  rintro ⟨-, out, hout⟩
  rw [h] at hout
  cases hout

end StyleCheck
