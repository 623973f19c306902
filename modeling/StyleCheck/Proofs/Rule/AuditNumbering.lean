import StyleCheck.Proofs.Rule.RegistryInvariant
import StyleCheck.Proofs.Text.Occurrences
import StyleCheck.Rule.Audit

/-!
What an audit finds, said of the codes as a set. The codes of a module are gone through in
increasing order, so neighbours in the list are neighbours among the codes.
-/

namespace StyleCheck

namespace Finding

def numbered? : Finding → Option String
  | .bandStart group .. => some group
  | .singleGap group .. => some group
  | _ => none

def isNumbering (finding : Finding) : Bool :=
  finding.numbered?.isSome

end Finding

namespace Registry

variable {r r' : Registry} {m : RuleModule}

def numbering (r : Registry) : List Finding :=
  r.audit.filter (·.isNumbering)

def Numbers (r : Registry) (m : RuleModule) (code : Nat) : Prop :=
  ∃ rule ∈ r.rules, rule.group = m.name ∧ rule.code = code

inductive Precedes (r : Registry) : Finding → Finding → Prop
  | byIndex {m n : RuleModule} {earlier later : Finding} (hm : m ∈ r.modules) (hn : n ∈ r.modules)
      (hindex : m.index < n.index) (hearlier : earlier.numbered? = some m.name)
      (hlater : later.numbered? = some n.name) : Precedes r earlier later
  | startFirst (group : String) (lowest expected before after : Nat) :
      Precedes r (.bandStart group lowest expected) (.singleGap group before after)
  | byCode (group : String) {before before' : Nat} (after after' : Nat) (h : before < before') :
      Precedes r (.singleGap group before after) (.singleGap group before' after')

theorem first_le {first : Nat} {rest : List Nat} (hc : (first :: rest).Pairwise (· < ·)) :
    ∀ code ∈ first :: rest, first ≤ code := by
  intro code hcode
  rcases List.mem_cons.1 hcode with rfl | hcode
  · exact Nat.le_refl _
  · exact Nat.le_of_lt (List.rel_of_pairwise_cons hc hcode)

theorem Valid.codesUnder_eq (h : r.Valid) (hm : m ∈ r.modules) :
    r.codesUnder m = sortCodes ((r.rulesIn m.name).map (·.code)) := by
  rw [codesUnder, rulesIn]
  congr 2
  apply List.filter_congr
  intro rule hr
  obtain ⟨owner, ho, hn, -⟩ := h.owned rule hr
  rw [h.module?_eq_some_iff.2 ⟨ho, hn⟩, ← hn, Option.any_some, Bool.eq_iff_iff, beq_iff_eq,
    beq_iff_eq]
  constructor
  · intro hi
    rw [List.inj_on_of_nodup_map h.indices_nodup ho hm hi]
  · intro hname
    rw [List.inj_on_of_nodup_map h.names_nodup ho hm hname]

theorem Valid.mem_codesUnder (h : r.Valid) (hm : m ∈ r.modules) {code : Nat} :
    code ∈ r.codesUnder m ↔ r.Numbers m code := by
  rw [h.codesUnder_eq hm, sortCodes, List.mem_mergeSort, rulesIn]
  simp [Numbers, and_assoc]

theorem Valid.codesUnder_increasing (h : r.Valid) (m : RuleModule) :
    (r.codesUnder m).Pairwise (· < ·) :=
  sortCodes_increasing (h.codes_nodup.sublist (List.filter_sublist.map _))

theorem Valid.owns_of_numbers (h : r.Valid) (hm : m ∈ r.modules) {code : Nat}
    (hc : r.Numbers m code) : m.Owns code := by
  obtain ⟨rule, hr, hg, rfl⟩ := hc
  exact (h.group_eq_iff_owns hm hr).1 hg

theorem Valid.numbers_iff_of_owns (h : r.Valid) (hm : m ∈ r.modules) {code : Nat}
    (hc : m.Owns code) : r.Numbers m code ↔ ∃ rule ∈ r.rules, rule.code = code := by
  constructor
  · rintro ⟨rule, hr, -, hcode⟩
    exact ⟨rule, hr, hcode⟩
  · rintro ⟨rule, hr, rfl⟩
    exact ⟨rule, hr, (h.group_eq_iff_owns hm hr).2 hc, rfl⟩

theorem Valid.byCode?_bandStart_eq_none_iff (h : r.Valid) (hm : m ∈ r.modules) :
    r.byCode? m.bandStart = none ↔ ¬ r.Numbers m m.bandStart := by
  have howns : m.Owns m.bandStart := by
    obtain ⟨hs, he⟩ := RuleModule.band_of_le (h.index_le m hm)
    unfold RuleModule.Owns
    omega
  rw [h.numbers_iff_of_owns hm howns, byCode?, List.find?_eq_none]
  simp

theorem Valid.exists_least (h : r.Valid) (hm : m ∈ r.modules) {code : Nat}
    (hc : r.Numbers m code) :
    ∃ lowest, r.Numbers m lowest ∧ ∀ code, r.Numbers m code → lowest ≤ code := by
  simp only [← h.mem_codesUnder hm] at hc ⊢
  cases hcodes : r.codesUnder m with
  | nil =>
    rw [hcodes] at hc
    cases hc
  | cons first rest =>
    exact ⟨first, List.mem_cons_self, first_le (hcodes ▸ h.codesUnder_increasing m)⟩

theorem mem_bandStartFindings {codes : List Nat} (hc : codes.Pairwise (· < ·)) {finding : Finding} :
    finding ∈ bandStartFindings m codes ↔
      ∃ lowest, finding = .bandStart m.name lowest m.bandStart ∧ lowest ∈ codes ∧
        (∀ code ∈ codes, lowest ≤ code) ∧ lowest ≠ m.bandStart := by
  cases codes with
  | nil => simp [bandStartFindings]
  | cons first rest =>
    rw [bandStartFindings]
    constructor
    · intro h
      split at h
      · cases h
      · rename_i hne
        exact ⟨first, List.mem_singleton.1 h, List.mem_cons_self, first_le hc, hne⟩
    · rintro ⟨lowest, rfl, hmem, hleast, hne⟩
      have : lowest = first := Nat.le_antisymm (hleast first List.mem_cons_self) (first_le hc _ hmem)
      rw [← this, if_neg hne]
      exact List.mem_singleton_self _

theorem bandStartFindings_pairwise (R : Finding → Finding → Prop) (m : RuleModule)
    (codes : List Nat) : (bandStartFindings m codes).Pairwise R := by
  unfold bandStartFindings
  split
  · exact List.Pairwise.nil
  · split
    · exact List.Pairwise.nil
    · exact List.pairwise_singleton R _

def SkipsOne (codes : List Nat) (code : Nat) : Prop :=
  code + 2 ∈ codes ∧ code + 1 ∉ codes

instance (codes : List Nat) (code : Nat) : Decidable (SkipsOne codes code) :=
  inferInstanceAs (Decidable (_ ∧ _))

theorem skipsOne_cons {first code : Nat} {codes : List Nat} (h : first < code) :
    SkipsOne (first :: codes) code ↔ SkipsOne codes code := by
  have h1 : code + 1 ≠ first := by omega
  have h2 : code + 2 ≠ first := by omega
  simp only [SkipsOne, List.mem_cons, h1, h2, false_or]

theorem skipsOne_head {before after : Nat} {rest : List Nat}
    (hc : (before :: after :: rest).Pairwise (· < ·)) :
    SkipsOne (before :: after :: rest) before ↔ after - before = 2 := by
  have hba : before < after := List.rel_of_pairwise_cons hc List.mem_cons_self
  have hrest : ∀ code ∈ rest, after < code := (List.pairwise_cons.1 hc.of_cons).1
  simp only [SkipsOne, List.mem_cons]
  constructor
  · rintro ⟨h2 | h2 | h2, h1⟩
    · omega
    · omega
    · have := hrest _ h2
      omega
  · intro h
    refine ⟨by omega, ?_⟩
    rintro (h1 | h1 | h1)
    · omega
    · omega
    · have := hrest _ h1
      omega

theorem gapFindings_eq {codes : List Nat} (hc : codes.Pairwise (· < ·)) :
    gapFindings m codes =
      (codes.filter (SkipsOne codes)).map fun code => .singleGap m.name code (code + 2) := by
  induction codes with
  | nil => rfl
  | cons before codes ih =>
    cases codes with
    | nil => simp [gapFindings, SkipsOne]
    | cons after rest =>
      have hba : before < after := List.rel_of_pairwise_cons hc List.mem_cons_self
      -- Only neighbours are compared, but no code stands between neighbours.
      have htail : (after :: rest).filter (SkipsOne (before :: after :: rest)) =
          (after :: rest).filter (SkipsOne (after :: rest)) := by
        apply List.filter_congr
        intro code hcode
        rw [decide_eq_decide]
        exact skipsOne_cons (List.rel_of_pairwise_cons hc hcode)
      rw [gapFindings, ih hc.of_cons]
      by_cases hgap : after - before = 2
      · have hskips := decide_eq_true ((skipsOne_head hc).2 hgap)
        obtain rfl : after = before + 2 := by omega
        rw [List.filter_cons (x := before), if_pos hskips, htail, if_pos hgap]
        rfl
      · have hskips : ¬ decide (SkipsOne (before :: after :: rest) before) = true := by
          rwa [decide_eq_true_iff, skipsOne_head hc]
        rw [List.filter_cons (x := before), if_neg hskips, htail, if_neg hgap]
        rfl

theorem mem_gapFindings {codes : List Nat} (hc : codes.Pairwise (· < ·)) {finding : Finding} :
    finding ∈ gapFindings m codes ↔
      ∃ code, finding = .singleGap m.name code (code + 2) ∧ code ∈ codes ∧ SkipsOne codes code := by
  rw [gapFindings_eq hc, List.mem_map]
  constructor
  · rintro ⟨code, hcode, rfl⟩
    obtain ⟨hmem, hskips⟩ := List.mem_filter.1 hcode
    exact ⟨code, rfl, hmem, of_decide_eq_true hskips⟩
  · rintro ⟨code, rfl, hmem, hskips⟩
    exact ⟨code, List.mem_filter.2 ⟨hmem, decide_eq_true hskips⟩, rfl⟩

theorem Valid.mem_numberingFindings (h : r.Valid) {finding : Finding} :
    finding ∈ r.numberingFindings m ↔
      (∃ lowest, finding = .bandStart m.name lowest m.bandStart ∧ lowest ∈ r.codesUnder m ∧
        (∀ code ∈ r.codesUnder m, lowest ≤ code) ∧ lowest ≠ m.bandStart) ∨
      ∃ code, finding = .singleGap m.name code (code + 2) ∧ code ∈ r.codesUnder m ∧
        SkipsOne (r.codesUnder m) code := by
  have hc := h.codesUnder_increasing m
  rw [numberingFindings, List.mem_append, mem_bandStartFindings hc, mem_gapFindings hc]

theorem Valid.numbered?_of_mem (h : r.Valid) {finding : Finding}
    (hf : finding ∈ r.numberingFindings m) : finding.numbered? = some m.name := by
  obtain ⟨lowest, rfl, -⟩ | ⟨code, rfl, -⟩ := h.mem_numberingFindings.1 hf
  · rfl
  · rfl

theorem Valid.numberingFindings_pairwise (h : r.Valid) (m : RuleModule) :
    (r.numberingFindings m).Pairwise r.Precedes := by
  have hc := h.codesUnder_increasing m
  rw [numberingFindings, List.pairwise_append]
  refine ⟨bandStartFindings_pairwise _ m _, ?_, ?_⟩
  · rw [gapFindings_eq hc, List.pairwise_map]
    exact (hc.filter _).imp fun hlt => .byCode m.name _ _ hlt
  · intro start hstart gap hgap
    obtain ⟨lowest, rfl, -⟩ := (mem_bandStartFindings hc).1 hstart
    obtain ⟨code, rfl, -⟩ := (mem_gapFindings hc).1 hgap
    exact .startFirst m.name ..

theorem not_isNumbering_of_mem_mentionFindings {rule : Rule} {finding : Finding}
    (hf : finding ∈ r.mentionFindings rule) : finding.isNumbering = false := by
  unfold mentionFindings at hf
  split at hf
  · cases hf
  · obtain ⟨-, hcount⟩ := List.mem_ite_nil_left.1 hf
    rw [List.mem_singleton.1 hcount]
    rfl

theorem not_isNumbering_of_mem_docFindings {rule : Rule} {finding : Finding}
    (hf : finding ∈ r.docFindings rule) : finding.isNumbering = false := by
  simp only [docFindings, List.mem_append, List.mem_ite_nil_left, List.mem_ite_nil_right,
    List.mem_singleton] at hf
  obtain ((hf | ⟨-, rfl⟩) | ⟨-, rfl⟩) | ⟨-, rfl⟩ := hf
  · exact not_isNumbering_of_mem_mentionFindings hf
  · rfl
  · rfl
  · rfl

theorem Valid.numbering_eq (h : r.Valid) :
    r.numbering = r.modulesByIndex.flatMap r.numberingFindings := by
  have hnumbers : ∀ finding ∈ r.modulesByIndex.flatMap r.numberingFindings,
      finding.isNumbering = true := by
    intro finding hf
    obtain ⟨m, -, hf⟩ := List.mem_flatMap.1 hf
    rw [Finding.isNumbering, h.numbered?_of_mem hf]
    rfl
  have hdocs : ∀ finding ∈ r.rules.flatMap r.docFindings, ¬ finding.isNumbering = true := by
    intro finding hf
    obtain ⟨rule, -, hf⟩ := List.mem_flatMap.1 hf
    rw [not_isNumbering_of_mem_docFindings hf]
    exact Bool.false_ne_true
  rw [numbering, audit, List.filter_append, List.filter_eq_self.2 hnumbers,
    List.filter_eq_nil_iff.2 hdocs, List.append_nil]

theorem Valid.audit_eq (h : r.Valid) : r.audit = r.numbering ++ r.rules.flatMap r.docFindings := by
  rw [h.numbering_eq]
  rfl

theorem Valid.mem_numbering (h : r.Valid) {finding : Finding} :
    finding ∈ r.numbering ↔ ∃ m ∈ r.modules, finding ∈ r.numberingFindings m := by
  simp only [h.numbering_eq, List.mem_flatMap, modulesByIndex, List.mem_mergeSort]

theorem Valid.mem_audit_iff (h : r.Valid) {finding : Finding}
    (hnumbering : finding.isNumbering = true) :
    finding ∈ r.audit ↔ ∃ m ∈ r.modules, finding ∈ r.numberingFindings m := by
  rw [← h.mem_numbering, numbering, List.mem_filter, and_iff_left hnumbering]

theorem Valid.modulesByIndex_increasing (h : r.Valid) :
    r.modulesByIndex.Pairwise (·.index < ·.index) :=
  mergeSort_increasing RuleModule.index h.indices_nodup

theorem Valid.numbering_pairwise (h : r.Valid) : r.numbering.Pairwise r.Precedes := by
  rw [h.numbering_eq, List.pairwise_flatMap]
  refine ⟨fun m _ => h.numberingFindings_pairwise m, ?_⟩
  apply h.modulesByIndex_increasing.imp_of_mem
  intro m n hm hn hlt earlier hearlier later hlater
  exact .byIndex (List.mem_mergeSort.1 hm) (List.mem_mergeSort.1 hn) hlt
    (h.numbered?_of_mem hearlier) (h.numbered?_of_mem hlater)

theorem Valid.not_precedes_self (h : r.Valid) (finding : Finding) :
    ¬ r.Precedes finding finding := by
  intro hp
  cases hp with
  | byIndex hm hn hindex hearlier hlater =>
    have hname := Option.some.inj (hearlier.symm.trans hlater)
    rw [List.inj_on_of_nodup_map h.names_nodup hm hn hname] at hindex
    exact Nat.lt_irrefl _ hindex
  | byCode _ _ _ hlt => exact Nat.lt_irrefl _ hlt

theorem Valid.numbering_nodup (h : r.Valid) : r.numbering.Nodup := by
  apply h.numbering_pairwise.imp
  rintro earlier later hp rfl
  exact h.not_precedes_self _ hp

theorem Valid.modulesByIndex_eq_of_perm (h : r.Valid) (h' : r'.Valid)
    (hm : r'.modules.Perm r.modules) : r'.modulesByIndex = r.modulesByIndex := by
  apply List.Perm.eq_of_pairwise ?_ h'.modulesByIndex_increasing h.modulesByIndex_increasing
  · exact (List.mergeSort_perm _ _).trans (hm.trans (List.mergeSort_perm _ _).symm)
  · intro m n _ _ hlt hgt
    omega

theorem Valid.codesUnder_eq_of_perm (h : r.Valid) (h' : r'.Valid)
    (hm : r'.modules.Perm r.modules) (hr : r'.rules.Perm r.rules) (hmem : m ∈ r.modules) :
    r'.codesUnder m = r.codesUnder m := by
  apply List.Perm.eq_of_pairwise ?_ (h'.codesUnder_increasing m) (h.codesUnder_increasing m)
  · rw [h.codesUnder_eq hmem, h'.codesUnder_eq (hm.mem_iff.2 hmem)]
    have hrules : (r'.rulesIn m.name).Perm (r.rulesIn m.name) := hr.filter _
    exact (List.mergeSort_perm _ _).trans
      ((hrules.map _).trans (List.mergeSort_perm _ _).symm)
  · intro a b _ _ hlt hgt
    omega

theorem Valid.numbering_eq_of_perm (h : r.Valid) (h' : r'.Valid)
    (hm : r'.modules.Perm r.modules) (hr : r'.rules.Perm r.rules) :
    r'.numbering = r.numbering := by
  rw [h.numbering_eq, h'.numbering_eq, h.modulesByIndex_eq_of_perm h' hm]
  apply List.flatMap_congr
  intro m hmem
  rw [numberingFindings, numberingFindings,
    h.codesUnder_eq_of_perm h' hm hr (List.mem_mergeSort.1 hmem)]

structure Documented (r : Registry) (rule : Rule) : Prop where
  added : (Text.places "versionadded".toList rule.docs.toList).length = 1
  changed : (Text.places "versionchanged".toList rule.docs.toList).length =
    rule.previousCodes.length
  no_period : rule.template.toList.getLast? ≠ some '.'
  mentioned : ∃ m ∈ r.modules, m.name = rule.group ∧
    countMentions m.docs.toList rule.qualifiedName.toList = 2

theorem countWord_eq {word : String} {c : Char} {cs : List Char} (hword : word.toList = c :: cs)
    (hc : c ∉ cs) (docs : String) :
    countWord word docs = (Text.places word.toList docs.toList).length := by
  rw [countWord, hword]
  exact Text.count_eq_length_places (Text.noneOverlap_of_notMem hc _)

theorem Valid.mentionFindings_eq_nil_iff (h : r.Valid) {rule : Rule} (hr : rule ∈ r.rules) :
    r.mentionFindings rule = [] ↔ ∃ m ∈ r.modules, m.name = rule.group ∧
      countMentions m.docs.toList rule.qualifiedName.toList = 2 := by
  obtain ⟨owner, ho, hn, -⟩ := h.owned rule hr
  have howner := h.module?_eq_some_iff.2 ⟨ho, hn⟩
  unfold mentionFindings
  simp only [howner]
  constructor
  · intro hnil
    refine ⟨owner, ho, hn, ?_⟩
    by_contra hne
    rw [if_neg hne] at hnil
    cases hnil
  · rintro ⟨m, hm, hname, hcount⟩
    have hsame := howner.symm.trans (h.module?_eq_some_iff.2 ⟨hm, hname⟩)
    rw [Option.some.inj hsame, if_pos hcount]

theorem Valid.docFindings_eq_nil_iff (h : r.Valid) {rule : Rule} (hr : rule ∈ r.rules) :
    r.docFindings rule = [] ↔ r.Documented rule := by
  have hadded := countWord_eq (rfl : "versionadded".toList = 'v' :: _) (by decide) rule.docs
  have hchanged := countWord_eq (rfl : "versionchanged".toList = 'v' :: _) (by decide) rule.docs
  simp only [docFindings, List.append_eq_nil_iff, h.mentionFindings_eq_nil_iff hr, hadded, hchanged,
    ite_eq_left_iff, reduceCtorEq, imp_false, Decidable.not_not]
  constructor
  · rintro ⟨⟨⟨hm, ha⟩, hc⟩, hp⟩
    exact ⟨ha, hc, by simpa using hp, hm⟩
  · rintro ⟨ha, hc, hp, hm⟩
    exact ⟨⟨⟨hm, ha⟩, hc⟩, by simpa using hp⟩

theorem Valid.audit_eq_nil_iff (h : r.Valid) :
    r.audit = [] ↔ r.numbering = [] ∧ ∀ rule ∈ r.rules, r.Documented rule := by
  rw [h.audit_eq, List.append_eq_nil_iff, List.flatMap_eq_nil_iff]
  apply and_congr_right
  intro _
  exact forall₂_congr fun rule hr => h.docFindings_eq_nil_iff hr

theorem Valid.bandStart_mem_audit_iff (h : r.Valid) {group : String} {lowest expected : Nat} :
    .bandStart group lowest expected ∈ r.audit ↔ ∃ m ∈ r.modules, m.name = group ∧
      expected = 100 * m.index ∧ r.byCode? (100 * m.index) = none ∧ r.Numbers m lowest ∧
      ∀ code, r.Numbers m code → lowest ≤ code := by
  rw [h.mem_audit_iff rfl]
  apply exists_congr
  intro m
  apply and_congr_right
  intro hm
  have hstart : m.bandStart = 100 * m.index := by
    have := (RuleModule.band_of_le (h.index_le m hm)).1
    omega
  rw [h.mem_numberingFindings, ← hstart, h.byCode?_bandStart_eq_none_iff hm]
  simp only [h.mem_codesUnder hm, Finding.bandStart.injEq, reduceCtorEq, false_and, exists_false,
    or_false]
  constructor
  · rintro ⟨_, ⟨rfl, rfl, rfl⟩, hlowest, hleast, hne⟩
    refine ⟨rfl, rfl, ?_, hlowest, hleast⟩
    intro hregistered
    have hle := hleast _ hregistered
    have hge := (h.owns_of_numbers hm hlowest).1
    exact hne (Nat.le_antisymm hle hge)
  · rintro ⟨rfl, rfl, hfree, hlowest, hleast⟩
    refine ⟨lowest, ⟨rfl, rfl, rfl⟩, hlowest, hleast, ?_⟩
    rintro rfl
    exact hfree hlowest

theorem Valid.singleGap_mem_audit_iff (h : r.Valid) {group : String} {before after : Nat} :
    .singleGap group before after ∈ r.audit ↔ ∃ m ∈ r.modules, m.name = group ∧
      after = before + 2 ∧ r.Numbers m before ∧ r.Numbers m (before + 2) ∧
      ¬ r.Numbers m (before + 1) := by
  rw [h.mem_audit_iff rfl]
  apply exists_congr
  intro m
  apply and_congr_right
  intro hm
  rw [h.mem_numberingFindings]
  simp only [SkipsOne, h.mem_codesUnder hm, Finding.singleGap.injEq, reduceCtorEq, false_and,
    exists_false, false_or]
  constructor
  · rintro ⟨_, ⟨rfl, rfl, rfl⟩, hbefore, hafter, hbetween⟩
    exact ⟨rfl, rfl, hbefore, hafter, hbetween⟩
  · rintro ⟨rfl, rfl, hbefore, hafter, hbetween⟩
    exact ⟨before, ⟨rfl, rfl, rfl⟩, hbefore, hafter, hbetween⟩

theorem Valid.exists_bandStart_mem_audit_iff (h : r.Valid) (hm : m ∈ r.modules) :
    (∃ lowest, .bandStart m.name lowest (100 * m.index) ∈ r.audit) ↔
      (∃ rule ∈ r.rules, rule.group = m.name) ∧ r.byCode? (100 * m.index) = none := by
  simp only [h.bandStart_mem_audit_iff]
  constructor
  · rintro ⟨lowest, m', hm', hname, -, hfree, ⟨rule, hr, hg, -⟩, -⟩
    obtain rfl := List.inj_on_of_nodup_map h.names_nodup hm' hm hname
    exact ⟨⟨rule, hr, hg⟩, hfree⟩
  · rintro ⟨⟨rule, hr, hg⟩, hfree⟩
    obtain ⟨lowest, hlowest, hleast⟩ := h.exists_least hm ⟨rule, hr, hg, rfl⟩
    exact ⟨lowest, m, hm, rfl, rfl, hfree, hlowest, hleast⟩

/-- What an audit promises: all that is wrong with the numbers, each thing once and in order, and
nothing where all is well. -/
structure AuditExact (r : Registry) : Prop where
  bandStart_iff : ∀ group lowest expected, .bandStart group lowest expected ∈ r.audit ↔
    ∃ m ∈ r.modules, m.name = group ∧ expected = 100 * m.index ∧
      r.byCode? (100 * m.index) = none ∧ r.Numbers m lowest ∧
      ∀ code, r.Numbers m code → lowest ≤ code
  bandStart_exists_iff : ∀ m ∈ r.modules,
    (∃ lowest, .bandStart m.name lowest (100 * m.index) ∈ r.audit) ↔
      (∃ rule ∈ r.rules, rule.group = m.name) ∧ r.byCode? (100 * m.index) = none
  singleGap_iff : ∀ group before after, .singleGap group before after ∈ r.audit ↔
    ∃ m ∈ r.modules, m.name = group ∧ after = before + 2 ∧ r.Numbers m before ∧
      r.Numbers m (before + 2) ∧ ¬ r.Numbers m (before + 1)
  numbering_nodup : r.numbering.Nodup
  numbering_first : r.numbering <+: r.audit
  numbering_ordered : r.numbering.Pairwise r.Precedes
  numbering_eq : ∀ registrations, (run registrations).modules.Perm r.modules →
    (run registrations).rules.Perm r.rules → (run registrations).numbering = r.numbering
  eq_nil_iff : r.audit = [] ↔ r.numbering = [] ∧ ∀ rule ∈ r.rules, r.Documented rule

theorem auditExact_run (registrations : List Registration) : (run registrations).AuditExact := by
  have h := valid_run registrations
  generalize run registrations = r at h ⊢
  constructor
  · exact fun group lowest expected => h.bandStart_mem_audit_iff
  · exact fun m hm => h.exists_bandStart_mem_audit_iff hm
  · exact fun group before after => h.singleGap_mem_audit_iff
  · exact h.numbering_nodup
  · rw [h.audit_eq]
    exact List.prefix_append _ _
  · exact h.numbering_pairwise
  · exact fun others hm hr => h.numbering_eq_of_perm (valid_run others) hm hr
  · exact h.audit_eq_nil_iff

end Registry

end StyleCheck
