import Mathlib.Data.List.Forall2
import StyleCheck.Proofs.Text.Pieces

namespace StyleCheck.Text

variable {body line text : List Char} {ls : List (List Char)}

inductive EndsAlike : List Char → List Char → Prop
  | last {body body' : List Char} (h : '\n' ∉ body) (h' : '\n' ∉ body') : EndsAlike body body'
  | feed {body body' : List Char} (h : '\n' ∉ body) (h' : '\n' ∉ body') :
    EndsAlike (body ++ ['\n']) (body' ++ ['\n'])

namespace EndsAlike

theorem notMem (h : EndsAlike body line) (hbody : '\n' ∉ body) : '\n' ∉ line := by
  cases h with
  | last _ hline => exact hline
  | feed => simp at hbody

theorem exists_body (h : EndsAlike (body ++ ['\n']) line) :
    ∃ body', '\n' ∉ body' ∧ line = body' ++ ['\n'] := by
  generalize hfed : body ++ ['\n'] = fed at h
  cases h with
  | last hnot =>
    subst hfed
    simp at hnot
  | @feed _ body' _ hbody' => exact ⟨body', hbody', rfl⟩

theorem count_eq (h : EndsAlike body line) : line.count '\n' = body.count '\n' := by
  cases h with
  | last hbody hline => rw [List.count_eq_zero.mpr hbody, List.count_eq_zero.mpr hline]
  | feed hbody hline =>
    rw [List.count_append, List.count_append, List.count_eq_zero.mpr hbody,
      List.count_eq_zero.mpr hline]

end EndsAlike

theorem exists_lines_flatten (h : List.Forall₂ EndsAlike (lines text) ls) :
    ∃ n, lines ls.flatten ++ List.replicate n [] = ls := by
  induction text using pieces_induction generalizing ls with
  | last body hbody =>
    rw [lines_of_notMem hbody] at h
    split at h
    · cases h
      exact ⟨0, rfl⟩
    · obtain ⟨line, rest, hline, hrest, rfl⟩ := List.forall₂_cons_left_iff.mp h
      cases hrest
      rw [List.flatten_singleton, lines_of_notMem (hline.notMem hbody)]
      split
      · rename_i hnil
        exact ⟨1, by rw [hnil]; rfl⟩
      · exact ⟨0, rfl⟩
  | feed body rest hbody ih =>
    rw [lines_append_feed hbody] at h
    obtain ⟨line, others, hline, hothers, rfl⟩ := List.forall₂_cons_left_iff.mp h
    obtain ⟨body', hbody', rfl⟩ := hline.exists_body
    obtain ⟨n, hn⟩ := ih hothers
    refine ⟨n, ?_⟩
    rw [List.flatten_cons, List.append_assoc, List.singleton_append, lines_append_feed hbody',
      List.cons_append, hn]

theorem lines_flatten_isPrefix (h : List.Forall₂ EndsAlike (lines text) ls) :
    lines ls.flatten <+: ls := by
  obtain ⟨n, hn⟩ := exists_lines_flatten h
  exact ⟨List.replicate n [], hn⟩

theorem lines_flatten (h : List.Forall₂ EndsAlike (lines text) ls) (hne : [] ∉ ls) :
    lines ls.flatten = ls := by
  obtain ⟨n, hn⟩ := exists_lines_flatten h
  cases n with
  | zero => rwa [List.replicate_zero, List.append_nil] at hn
  | succ n =>
    rw [← hn] at hne
    simp [List.replicate_succ] at hne

theorem flatMap_lines_flatten {β : Type} {f : List Char → List β} (hf : f [] = [])
    (h : List.Forall₂ EndsAlike (lines text) ls) : (lines ls.flatten).flatMap f = ls.flatMap f := by
  obtain ⟨n, hn⟩ := exists_lines_flatten h
  have hnil : (List.replicate n []).flatMap f = [] := by simp [hf]
  conv => rhs; rw [← hn, List.flatMap_append, hnil, List.append_nil]

theorem count_flatten_of_endsAlike (h : List.Forall₂ EndsAlike (lines text) ls) :
    ls.flatten.count '\n' = text.count '\n' := by
  have hcount : ∀ {before after : List (List Char)}, List.Forall₂ EndsAlike before after →
      after.flatten.count '\n' = before.flatten.count '\n' := by
    intro before after hends
    induction hends with
    | nil => rfl
    | cons hline _ ih =>
      rw [List.flatten_cons, List.flatten_cons, List.count_append, List.count_append, ih,
        hline.count_eq]
  rw [hcount h, flatten_lines]

end StyleCheck.Text
