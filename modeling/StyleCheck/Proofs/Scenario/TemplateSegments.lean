import Mathlib.Data.Nat.Digits.Defs
import StyleCheck.Scenario.Template

/-!
Templates as a grammar: literals, with each brace doubled, and keys between braces. Exactly the
texts of the grammar render, once their keys have values, and what a value holds is not read again.
-/

namespace StyleCheck.Substitution

/-- The key is a number of 64 bits in decimal digits, with or without a plus before them. -/
def WritesNumber (key : List Char) (n : Nat) : Prop :=
  ∃ digits, (key = digits ∨ key = '+' :: digits) ∧ digits ≠ [] ∧ (∀ c ∈ digits, c.isDigit = true) ∧
    n = Nat.ofDigits 10 (digits.reverse.map fun c => c.toNat - '0'.toNat) ∧ n < 2 ^ 64

/-- A number stands for the value at its place, and else a key for the last value of its name. -/
inductive StandsFor (values : Substitution) (key value : List Char) : Prop
  | place (n : Nat) (hkey : WritesNumber key n) (h : values.positional[n]? = some value)
  | name (before after : List (List Char × List Char)) (hkey : ∀ n, ¬WritesNumber key n)
      (h : values.named = before ++ (key, value) :: after) (hlast : ∀ entry ∈ after, entry.1 ≠ key)

theorem foldl_digits (digits : List Char) :
    digits.foldl (fun n c => n * 10 + (c.toNat - '0'.toNat)) 0 =
      Nat.ofDigits 10 (digits.reverse.map fun c => c.toNat - '0'.toNat) := by
  rw [Nat.ofDigits_eq_foldr, List.foldr_map, List.foldr_reverse]
  congr 1
  funext n c
  simp only [Nat.cast_id]
  omega

theorem eq_or_eq_plus_iff {key digits : List Char} (hdigits : ∀ c ∈ digits, c.isDigit = true) :
    (if key.head? = some '+' then key.drop 1 else key) = digits ↔
      key = digits ∨ key = '+' :: digits := by
  constructor
  · rintro rfl
    split
    · rename_i hhead
      obtain ⟨rest, rfl⟩ := List.head?_eq_some_iff.mp hhead
      exact .inr rfl
    · exact .inl rfl
  · rintro (rfl | rfl)
    · apply if_neg
      intro hhead
      exact absurd (hdigits '+' (List.mem_of_head? hhead)) (by decide)
    · rfl

theorem place?_eq_some_iff {key : List Char} {n : Nat} :
    place? key = some n ↔ WritesNumber key n := by
  simp only [place?, foldl_digits]
  constructor
  · intro h
    generalize hkey : (if key.head? = some '+' then key.drop 1 else key) = digits at h
    obtain ⟨hform, h⟩ := Option.ite_none_left_eq_some.mp h
    obtain ⟨hlt, hn⟩ := Option.ite_none_right_eq_some.mp h
    rw [not_or, Bool.not_eq_true', Bool.not_eq_false, List.all_eq_true] at hform
    obtain ⟨hne, hdigits⟩ := hform
    cases hn
    exact ⟨digits, (eq_or_eq_plus_iff hdigits).mp hkey, hne, hdigits, rfl, hlt⟩
  · rintro ⟨digits, hkey, hne, hdigits, rfl, hlt⟩
    have hform : ¬(digits = [] ∨ (!digits.all Char.isDigit) = true) := by
      rw [not_or, Bool.not_eq_true', Bool.not_eq_false, List.all_eq_true]
      exact ⟨hne, hdigits⟩
    rw [(eq_or_eq_plus_iff hdigits).mpr hkey, if_neg hform]
    exact if_pos hlt

theorem lookup_reverse_eq_some_iff {named : List (List Char × List Char)} {key value : List Char} :
    named.reverse.lookup key = some value ↔ ∃ before after,
      named = before ++ (key, value) :: after ∧ ∀ entry ∈ after, entry.1 ≠ key := by
  rw [List.lookup_eq_some_iff]
  constructor
  · rintro ⟨after, before, hsplit, hlast⟩
    refine ⟨before.reverse, after.reverse, ?_, ?_⟩
    · simpa using congrArg List.reverse hsplit
    · intro entry hmem
      exact (bne_iff_ne.mp (hlast entry (List.mem_reverse.mp hmem))).symm
  · rintro ⟨before, after, rfl, hlast⟩
    refine ⟨after.reverse, before.reverse, by simp, ?_⟩
    intro entry hmem
    exact bne_iff_ne.mpr (hlast entry (List.mem_reverse.mp hmem)).symm

theorem value?_eq_some_iff {values : Substitution} {key value : List Char} :
    values.value? key = some value ↔ values.StandsFor key value := by
  unfold value?
  cases hplace : place? key with
  | some n =>
    have hkey := place?_eq_some_iff.mp hplace
    constructor
    · exact .place n hkey
    · rintro (⟨m, hm, h⟩ | ⟨_, _, hnone, -, -⟩)
      · rw [place?_eq_some_iff.mpr hm, Option.some.injEq] at hplace
        rwa [← hplace]
      · exact absurd hkey (hnone n)
  | none =>
    have hkey : ∀ n, ¬WritesNumber key n := by
      intro n hn
      rw [place?_eq_some_iff.mpr hn] at hplace
      cases hplace
    rw [lookup_reverse_eq_some_iff]
    constructor
    · rintro ⟨before, after, h, hlast⟩
      exact .name before after hkey h hlast
    · rintro (⟨n, hn, -⟩ | ⟨before, after, -, h, hlast⟩)
      · exact absurd hn (hkey n)
      · exact ⟨before, after, h, hlast⟩

end StyleCheck.Substitution

namespace StyleCheck.Template

structure Key where
  text : List Char
  close_notMem : '}' ∉ text
  head?_ne_open : text.head? ≠ some '{'

inductive Segment
  | literal (text : List Char)
  | placeholder (key : Key)

namespace Segment

def encode : Segment → List Char
  | literal text => text.flatMap fun c => if c = '{' ∨ c = '}' then [c, c] else [c]
  | placeholder key => '{' :: key.text ++ ['}']

def key? : Segment → Option (List Char)
  | literal _ => none
  | placeholder key => some key.text

def value? (values : Substitution) : Segment → Option (List Char)
  | literal text => some text
  | placeholder key => values.value? key.text

def pieces : Segment → List Piece
  | literal text => text.map .char
  | placeholder key => [.placeholder key.text]

end Segment

def encode (segments : List Segment) : List Char :=
  segments.flatMap Segment.encode

def missing? (values : Substitution) (segments : List Segment) : Option (List Char) :=
  (segments.filterMap Segment.key?).find? fun key => (values.value? key).isNone

def filling (values : Substitution) (segments : List Segment) : List Char :=
  (segments.filterMap (Segment.value? values)).flatten

def allPieces (segments : List Segment) : List Piece :=
  segments.flatMap Segment.pieces

theorem piecesFrom_char (c : Char) (rest : List Char) :
    piecesFrom .text ((if c = '{' ∨ c = '}' then [c, c] else [c]) ++ rest) =
      (piecesFrom .text rest).map (.char c :: ·) id := by
  by_cases ho : c = '{'
  · simp [ho, piecesFrom]
  · by_cases hc : c = '}'
    · simp [hc, piecesFrom]
    · simp [ho, hc, piecesFrom]

theorem piecesFrom_key {read key : List Char} (h : '}' ∉ key) (rest : List Char) :
    piecesFrom (.key read) (key ++ '}' :: rest) =
      (piecesFrom .text rest).map (.placeholder (read ++ key) :: ·) id := by
  induction key generalizing read with
  | nil => simp [piecesFrom]
  | cons c key ih =>
    obtain ⟨hc, hk⟩ := List.ne_and_not_mem_of_not_mem_cons h
    rw [List.cons_append, piecesFrom, if_neg hc.symm, ih hk, List.append_assoc]
    rfl

theorem piecesFrom_placeholder (key : Key) (rest : List Char) :
    piecesFrom .text ('{' :: key.text ++ '}' :: rest) =
      (piecesFrom .text rest).map (.placeholder key.text :: ·) id := by
  obtain ⟨text, hclose, hopen⟩ := key
  cases text with
  | nil => simp [piecesFrom]
  | cons c text =>
    obtain ⟨hc, ht⟩ := List.ne_and_not_mem_of_not_mem_cons hclose
    have ho : c ≠ '{' := fun h => hopen (congrArg some h)
    have hstart : piecesFrom .text ('{' :: (c :: text) ++ '}' :: rest) =
        piecesFrom (.key [c]) (text ++ '}' :: rest) := by
      simp [piecesFrom, ho, hc.symm]
    rw [hstart, piecesFrom_key ht]
    rfl

theorem piecesFrom_literal (text rest : List Char) :
    piecesFrom .text ((Segment.literal text).encode ++ rest) =
      (piecesFrom .text rest).map ((Segment.literal text).pieces ++ ·) id := by
  induction text with
  | nil => rfl
  | cons c text ih =>
    have he : (Segment.literal (c :: text)).encode ++ rest =
        (if c = '{' ∨ c = '}' then [c, c] else [c]) ++ ((Segment.literal text).encode ++ rest) := by
      rw [← List.append_assoc]
      rfl
    rw [he, piecesFrom_char, ih]
    rfl

theorem piecesFrom_segment (s : Segment) (rest : List Char) :
    piecesFrom .text (s.encode ++ rest) = (piecesFrom .text rest).map (s.pieces ++ ·) id := by
  cases s with
  | literal text => exact piecesFrom_literal text rest
  | placeholder key =>
    have he : (Segment.placeholder key).encode ++ rest = '{' :: key.text ++ '}' :: rest := by
      simp [Segment.encode]
    rw [he, piecesFrom_placeholder]
    rfl

theorem pieces_encode (segments : List Segment) :
    pieces (encode segments) = (allPieces segments, none) := by
  induction segments with
  | nil => rfl
  | cons s segments ih =>
    unfold pieces at ih ⊢
    rw [encode, List.flatMap_cons, piecesFrom_segment, ← encode, ih]
    rfl

namespace Reading

def held : Reading → List Char
  | text => []
  | openBrace => ['{']
  | closeBrace => ['}']
  | key read => '{' :: read

def Sound : Reading → Prop
  | key read => read ≠ [] ∧ '}' ∉ read ∧ read.head? ≠ some '{'
  | _ => True

end Reading

theorem map_cons_eq_iff {piece : Piece} {result : List Piece × Option Fault} {ps : List Piece} :
    result.map (piece :: ·) id = (ps, none) ↔
      ∃ others, result = (others, none) ∧ ps = piece :: others := by
  obtain ⟨others, fault⟩ := result
  simp only [Prod.map_apply, id_eq, Prod.mk.injEq]
  constructor
  · rintro ⟨rfl, rfl⟩
    exact ⟨others, ⟨rfl, rfl⟩, rfl⟩
  · rintro ⟨_, ⟨rfl, rfl⟩, rfl⟩
    exact ⟨rfl, rfl⟩

def Spells (template : List Char) (ps : List Piece) : Prop :=
  ∃ segments, template = encode segments ∧ ps = allPieces segments

theorem Spells.char {template : List Char} {ps : List Piece} (c : Char)
    (h : Spells template ps) :
    Spells ((if c = '{' ∨ c = '}' then [c, c] else [c]) ++ template) (.char c :: ps) := by
  obtain ⟨segments, rfl, rfl⟩ := h
  have hc : (Segment.literal [c]).encode = if c = '{' ∨ c = '}' then [c, c] else [c] := by
    simp [Segment.encode]
  exact ⟨.literal [c] :: segments, by rw [← hc]; rfl, rfl⟩

theorem Spells.placeholder {template : List Char} {ps : List Piece} (key : Key)
    (h : Spells template ps) :
    Spells ('{' :: key.text ++ '}' :: template) (.placeholder key.text :: ps) := by
  obtain ⟨segments, rfl, rfl⟩ := h
  refine ⟨.placeholder key :: segments, ?_, rfl⟩
  simp [encode, Segment.encode]

theorem spells_of_piecesFrom {r : Reading} {template : List Char} {ps : List Piece}
    (h : piecesFrom r template = (ps, none)) (hr : r.Sound) : Spells (r.held ++ template) ps := by
  fun_induction piecesFrom r template generalizing ps with
  | case1 =>
    cases h
    exact ⟨[], rfl, rfl⟩
  | case2 | case3 | case4 | case9 => cases h
  | case5 cs ih | case6 cs _ ih => exact ih h trivial
  | case7 c cs ho hc ih =>
    obtain ⟨others, hothers, rfl⟩ := map_cons_eq_iff.1 h
    have := (ih hothers trivial).char c
    rwa [if_neg (not_or.2 ⟨ho, hc⟩)] at this
  | case8 cs ih =>
    obtain ⟨others, hothers, rfl⟩ := map_cons_eq_iff.1 h
    exact (ih hothers trivial).char '}'
  | case10 cs ih =>
    obtain ⟨others, hothers, rfl⟩ := map_cons_eq_iff.1 h
    exact (ih hothers trivial).char '{'
  | case11 cs _ ih =>
    obtain ⟨others, hothers, rfl⟩ := map_cons_eq_iff.1 h
    exact (ih hothers trivial).placeholder ⟨[], by simp, by simp⟩
  | case12 c cs ho hc ih =>
    apply ih h
    refine ⟨by simp, ?_, ?_⟩
    · simpa using Ne.symm hc
    · simpa using ho
  | case13 read cs ih =>
    obtain ⟨others, hothers, rfl⟩ := map_cons_eq_iff.1 h
    exact (ih hothers trivial).placeholder ⟨read, hr.2.1, hr.2.2⟩
  | case14 read c cs hc ih =>
    obtain ⟨hne, hclose, hopen⟩ := hr
    have hsound : (Reading.key (read ++ [c])).Sound := by
      refine ⟨by simp, ?_, ?_⟩
      · simpa [hclose] using Ne.symm hc
      · obtain ⟨d, ds, rfl⟩ := List.exists_cons_of_ne_nil hne
        exact hopen
    have := ih h hsound
    simpa [Reading.held] using this

theorem spells_of_pieces {template : List Char} {ps : List Piece}
    (h : pieces template = (ps, none)) : Spells template ps :=
  spells_of_piecesFrom h trivial

theorem fill_append (values : Substitution) (ps qs : List Piece) :
    fill values (ps ++ qs) =
      (fill values ps).bind fun text => (fill values qs).map (text ++ ·) := by
  induction ps with
  | nil =>
    simp only [List.nil_append, fill, Except.bind]
    cases fill values qs <;> rfl
  | cons p ps ih =>
    simp only [List.cons_append, fill, ih, bind]
    cases fillPiece values p with
    | error fault => rfl
    | ok value =>
      simp only [Except.bind]
      cases fill values ps with
      | error fault => rfl
      | ok others => cases fill values qs <;> simp [Except.map]

theorem fill_char (values : Substitution) (text : List Char) :
    fill values (text.map .char) = .ok text := by
  induction text with
  | nil => rfl
  | cons c text ih => simp [fill, fillPiece, ih, bind, Except.bind]

theorem fill_allPieces (values : Substitution) (segments : List Segment) :
    fill values (allPieces segments) =
      match missing? values segments with
      | some key => .error (.noValue key)
      | none => .ok (filling values segments) := by
  induction segments with
  | nil => rfl
  | cons s segments ih =>
    rw [allPieces, List.flatMap_cons, fill_append, ← allPieces, ih]
    cases s with
    | literal text =>
      have hm : missing? values (.literal text :: segments) = missing? values segments := rfl
      have hf : filling values (.literal text :: segments) = text ++ filling values segments := rfl
      rw [Segment.pieces, fill_char, hm, hf]
      cases missing? values segments <;> rfl
    | placeholder key =>
      cases hv : values.value? key.text with
      | none =>
        have hm : missing? values (.placeholder key :: segments) = some key.text := by
          simp [missing?, Segment.key?, hv]
        have hp : fill values (Segment.placeholder key).pieces = .error (.noValue key.text) := by
          simp [Segment.pieces, fill, fillPiece, hv, bind, Except.bind]
        rw [hm, hp]
        rfl
      | some value =>
        have hm : missing? values (.placeholder key :: segments) = missing? values segments := by
          simp [missing?, Segment.key?, hv]
        have hf : filling values (.placeholder key :: segments) =
            value ++ filling values segments := by
          simp [filling, Segment.value?, hv]
        have hp : fill values (Segment.placeholder key).pieces = .ok value := by
          simp [Segment.pieces, fill, fillPiece, hv, bind, Except.bind]
        rw [hm, hf, hp]
        cases missing? values segments <;> rfl

theorem render_of_pieces {values : Substitution} {template : List Char} {ps : List Piece}
    (h : pieces template = (ps, none)) :
    render values template = (fill values ps).mapError (⟨template, ·⟩) := by
  simp only [render, h]
  cases fill values ps <;> rfl

theorem pieces_of_render {values : Substitution} {template text : List Char}
    (h : render values template = .ok text) :
    ∃ ps, pieces template = (ps, none) ∧ fill values ps = .ok text := by
  rcases hp : pieces template with ⟨ps, fault⟩
  simp only [render, hp] at h
  cases hf : fill values ps with
  | error e => simp [hf] at h
  | ok filled =>
    cases fault with
    | some fault => simp [hf] at h
    | none =>
      simp only [hf, Except.ok.injEq] at h
      exact ⟨ps, rfl, by rw [hf, h]⟩

theorem render_encode (values : Substitution) (segments : List Segment) :
    render values (encode segments) =
      match missing? values segments with
      | some key => .error ⟨encode segments, .noValue key⟩
      | none => .ok (filling values segments) := by
  rw [render_of_pieces (pieces_encode segments), fill_allPieces]
  cases missing? values segments <;> rfl

/-- A text of the grammar renders to its literals and values, or fails at its first key without a
value; and no other text renders. -/
theorem render_exactly_grammar (values : Substitution) :
    (∀ key value, values.value? key = some value ↔ values.StandsFor key value) ∧
    (∀ segments, render values (encode segments) =
      match missing? values segments with
      | some key => .error ⟨encode segments, .noValue key⟩
      | none => .ok (filling values segments)) ∧
    ∀ template text, render values template = .ok text ↔
      ∃ segments, template = encode segments ∧ missing? values segments = none ∧
        filling values segments = text := by
  refine ⟨fun _ _ => Substitution.value?_eq_some_iff, render_encode values, ?_⟩
  intro template text
  constructor
  · intro h
    obtain ⟨ps, hp, hf⟩ := pieces_of_render h
    obtain ⟨segments, rfl, rfl⟩ := spells_of_pieces hp
    rw [fill_allPieces] at hf
    cases hm : missing? values segments with
    | some key => simp [hm] at hf
    | none => exact ⟨segments, rfl, hm, by simpa [hm] using hf⟩
  · rintro ⟨segments, rfl, hm, rfl⟩
    rw [render_encode, hm]

end StyleCheck.Template
