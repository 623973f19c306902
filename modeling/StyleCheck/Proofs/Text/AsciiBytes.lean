import Mathlib.Tactic.SplitIfs
import StyleCheck.Proofs.Text.SharedBytes

namespace StyleCheck.Text

variable {c : Char} {start cs : List Char}

theorem utf8EncodeChar_of_lt (h : c.toNat < 0x80) :
    String.utf8EncodeChar c = [UInt8.ofNat c.toNat] := by
  have hval : c.val.toNat = c.toNat := rfl
  simp only [String.utf8EncodeChar, hval]
  exact if_pos (by omega)

theorem le_of_mem_utf8EncodeChar (h : 0x80 ≤ c.toNat) {b : UInt8}
    (hb : b ∈ String.utf8EncodeChar c) : 0x80 ≤ b.toNat := by
  have hval : c.val.toNat = c.toNat := rfl
  simp only [String.utf8EncodeChar, hval] at hb
  split_ifs at hb <;>
    simp only [List.mem_cons, List.not_mem_nil, or_false] at hb <;>
    rcases hb with rfl | rfl | rfl | rfl <;>
    rw [UInt8.toNat_ofNat'] <;> omega

theorem exists_utf8EncodeChar (c : Char) : ∃ b more, String.utf8EncodeChar c = b :: more ∧
    ∀ x ∈ more, 0x80 ≤ x.toNat := by
  rcases Nat.lt_or_ge c.toNat 0x80 with h | h
  · exact ⟨_, [], utf8EncodeChar_of_lt h, by simp⟩
  · obtain ⟨b, more, hc⟩ := List.exists_cons_of_ne_nil (String.utf8EncodeChar_ne_nil (c := c))
    refine ⟨b, more, hc, fun x hx => le_of_mem_utf8EncodeChar h ?_⟩
    rw [hc]
    exact List.mem_cons_of_mem b hx

theorem toNat_ofNat_of_lt (h : c.toNat < 0x80) : (UInt8.ofNat c.toNat).toNat = c.toNat := by
  rw [UInt8.toNat_ofNat']
  omega

theorem isPrefix_of_bytes (hs : ∀ c ∈ start, c.toNat < 0x80) (h : bytes start <+: bytes cs) :
    start <+: cs := by
  induction start generalizing cs with
  | nil => exact List.nil_prefix
  | cons d start ih =>
    obtain ⟨hd, hstart⟩ := List.forall_mem_cons.mp hs
    rw [bytes_cons, utf8EncodeChar_of_lt hd] at h
    cases cs with
    | nil => simp [bytes] at h
    | cons c cs =>
      rcases Nat.lt_or_ge c.toNat 0x80 with hc | hc
      · rw [bytes_cons, utf8EncodeChar_of_lt hc] at h
        obtain ⟨hbyte, hrest⟩ := List.cons_prefix_cons.mp h
        have hcode : d.toNat = c.toNat := by
          rw [← toNat_ofNat_of_lt hd, hbyte, toNat_ofNat_of_lt hc]
        exact List.cons_prefix_cons.mpr ⟨Char.toNat_inj.mp hcode, ih hstart hrest⟩
      · obtain ⟨b, more, hb, -⟩ := exists_utf8EncodeChar c
        have hhigh := le_of_mem_utf8EncodeChar hc (b := b) (by simp [hb])
        rw [bytes_cons, hb] at h
        have hbyte := (List.cons_prefix_cons.mp h).1
        rw [← hbyte, toNat_ofNat_of_lt hd] at hhigh
        omega

end StyleCheck.Text
