import Mathlib.Data.List.Nodup
import StyleCheck.Toml.Document

namespace StyleCheck.Toml

theorem invariant_of_foldlM {α β : Type} {step : β → α → Option β} {P : β → Prop}
    (hstep : ∀ b a after, step b a = some after → P b → P after) {items : List α} {b after : β}
    (h : items.foldlM step b = some after) (hb : P b) : P after := by
  induction items generalizing b with
  | nil =>
    cases h
    exact hb
  | cons a rest ih =>
    rw [List.foldlM_cons, Option.bind_eq_bind, Option.bind_eq_some_iff] at h
    obtain ⟨middle, hmiddle, hrest⟩ := h
    exact ih hrest (hstep b a middle hmiddle hb)

namespace Draft

def keys (entries : Entries) : List String :=
  entries.map (·.1)

theorem not_mem_keys_of_lookup {entries : Entries} {key : String}
    (h : entries.lookup key = none) : key ∉ keys entries := by
  intro hkey
  obtain ⟨entry, hentry, rfl⟩ := List.mem_map.mp hkey
  simpa using List.lookup_eq_none_iff.mp h entry hentry

theorem keys_set (key : String) (draft : Draft) (entries : Entries) :
    keys (set key draft entries) =
      if key ∈ keys entries then keys entries else keys entries ++ [key] := by
  induction entries with
  | nil => simp [set, keys]
  | cons entry rest ih =>
    by_cases hkey : entry.1 = key
    · simp [set, keys, hkey]
    · simp only [keys] at ih
      simp only [set, hkey, ↓reduceIte, keys, List.map_cons, ih, List.mem_cons, Ne.symm hkey,
        false_or]
      split
      case isTrue h => simp only [h, ↓reduceIte]
      case isFalse h => simp only [h, ↓reduceIte, List.cons_append]

theorem nodup_keys_append {entries : Entries} {key : String} (draft : Draft)
    (h : (keys entries).Nodup) (hkey : key ∉ keys entries) :
    (keys (entries ++ [(key, draft)])).Nodup := by
  have hkeys : keys (entries ++ [(key, draft)]) = keys entries ++ [key] := by simp [keys]
  rw [hkeys, ← List.concat_eq_append]
  exact h.concat hkey

theorem nodup_keys_set {entries : Entries} (key : String) (draft : Draft)
    (h : (keys entries).Nodup) : (keys (set key draft entries)).Nodup := by
  rw [keys_set]
  split
  case isTrue => exact h
  case isFalse hkey =>
    rw [← List.concat_eq_append]
    exact h.concat hkey

theorem nodup_keys_of_changeAt {viaKey dotted : Bool} {change : Bool → Entries → Option Entries}
    {path : List String} {entries after : Entries}
    (hchange : ∀ dotted inner after, change dotted inner = some after →
      (keys inner).Nodup → (keys after).Nodup)
    (h : changeAt viaKey change path dotted entries = some after) (hkeys : (keys entries).Nodup) :
    (keys after).Nodup := by
  cases path with
  | nil => exact hchange dotted entries after h hkeys
  | cons key path =>
    unfold changeAt at h
    split at h
    case h_1 =>
      obtain ⟨inner, -, hset⟩ := Option.bind_eq_some_iff.mp h
      cases hset
      exact nodup_keys_set key _ hkeys
    case h_2 => cases h
    case h_3 =>
      split at h
      case isTrue => cases h
      case isFalse =>
        obtain ⟨inner, -, hset⟩ := Option.bind_eq_some_iff.mp h
        cases hset
        exact nodup_keys_set key _ hkeys
    case h_4 =>
      obtain ⟨last, -, hchanged⟩ := Option.bind_eq_some_iff.mp h
      obtain ⟨inner, -, hset⟩ := Option.bind_eq_some_iff.mp hchanged
      cases hset
      exact nodup_keys_set key _ hkeys

theorem nodup_keys_of_addEntry {entries after : Entries} {entry : Entry}
    (h : addEntry entries entry = some after) (hkeys : (keys entries).Nodup) :
    (keys after).Nodup := by
  refine nodup_keys_of_changeAt ?_ h hkeys
  intro dotted inner after hchange hinner
  split at hchange
  case isTrue => cases hchange
  case isFalse hfree =>
    cases hchange
    refine nodup_keys_append _ hinner (not_mem_keys_of_lookup ?_)
    simp only [Bool.or_eq_true, not_or, Bool.not_eq_true, Option.isSome_eq_false_iff] at hfree
    exact Option.isNone_iff_eq_none.mp hfree.2

theorem nodup_keys_of_addSection {entries after : Entries} {part : Section}
    (h : addSection entries part = some after) (hkeys : (keys entries).Nodup) :
    (keys after).Nodup := by
  refine nodup_keys_of_changeAt ?_ h hkeys
  intro dotted inner after hchange hinner
  split at hchange
  case isTrue =>
    split at hchange
    case h_1 =>
      obtain ⟨added, -, hset⟩ := Option.bind_eq_some_iff.mp hchange
      cases hset
      exact nodup_keys_set _ _ hinner
    case h_2 =>
      obtain ⟨added, -, hset⟩ := Option.bind_eq_some_iff.mp hchange
      cases hset
      exact nodup_keys_set _ _ hinner
    case h_3 => cases hchange
  case isFalse =>
    split at hchange
    case h_1 =>
      obtain ⟨added, -, hset⟩ := Option.bind_eq_some_iff.mp hchange
      cases hset
      exact nodup_keys_set _ _ hinner
    case h_2 =>
      obtain ⟨added, -, hset⟩ := Option.bind_eq_some_iff.mp hchange
      cases hset
      -- the table that a header names goes from where it stood to the end
      refine nodup_keys_append _ ?_ ?_
      · exact hinner.sublist (List.filter_sublist.map _)
      · simp [keys]
    case h_3 => cases hchange

theorem keys_toTable (entries : Entries) : (toTable entries).keys = keys entries := by
  induction entries with
  | nil => rfl
  | cons entry rest ih =>
    simp only [Table.keys, keys] at ih
    simp [toTable, Table.keys, keys, ih]

end Draft

theorem keys_of_resolveEntries? {entries resolved : Table}
    (h : DateTable.resolveEntries? entries = some resolved) : resolved.keys = entries.keys := by
  induction entries generalizing resolved with
  | nil =>
    cases h
    rfl
  | cons entry rest ih =>
    obtain ⟨value, -, htail⟩ := Option.bind_eq_some_iff.mp h
    obtain ⟨tail, hrest, hresolved⟩ := Option.bind_eq_some_iff.mp htail
    cases hresolved
    simpa [Table.keys] using ih hrest

theorem nodup_keys_of_readTable? {text : List Char} {table : Table}
    (h : readTable? text = some table) : table.keys.Nodup := by
  obtain ⟨⟨lines, rest⟩, -, hlines⟩ := Option.bind_eq_some_iff.mp h
  obtain ⟨top, htop, hparts⟩ := Option.bind_eq_some_iff.mp hlines
  obtain ⟨root, hroot, hresolved⟩ := Option.bind_eq_some_iff.mp hparts
  have hnodup : (Draft.keys top).Nodup :=
    invariant_of_foldlM (P := fun entries => (Draft.keys entries).Nodup)
      (fun _ _ _ => Draft.nodup_keys_of_addEntry) htop List.nodup_nil
  have hnodup : (Draft.keys root).Nodup :=
    invariant_of_foldlM (P := fun entries => (Draft.keys entries).Nodup)
      (fun _ _ _ => Draft.nodup_keys_of_addSection) hroot hnodup
  rw [keys_of_resolveEntries? hresolved, Draft.keys_toTable]
  exact hnodup

namespace Table

theorem get?_eq_none_iff {table : Table} {key : String} :
    table.get? key = none ↔ key ∉ table.keys := by
  simp only [get?, List.lookup_eq_none_iff, keys, List.mem_map, bne_iff_ne, ne_eq]
  constructor
  · rintro h ⟨entry, hentry, rfl⟩
    exact h entry hentry rfl
  · rintro h entry hentry rfl
    exact h ⟨entry, hentry, rfl⟩

theorem get?_eq_some_iff {table : Table} (hkeys : table.keys.Nodup) {key : String}
    {value : Value} : table.get? key = some value ↔ (key, value) ∈ table := by
  constructor
  · intro h
    obtain ⟨before, after, rfl, -⟩ := List.lookup_eq_some_iff.mp h
    simp
  · intro h
    obtain ⟨before, after, rfl⟩ := List.append_of_mem h
    refine List.lookup_eq_some_iff.mpr ⟨before, after, rfl, ?_⟩
    simp only [keys, List.map_append, List.map_cons, List.nodup_append] at hkeys
    intro entry hentry
    have hne := hkeys.2.2 entry.1 (List.mem_map_of_mem hentry) key (by simp)
    simpa using Ne.symm hne

theorem keys_perm {order table : Table} (h : order.Perm table) : order.keys.Perm table.keys :=
  h.map _

theorem get?_perm {order table : Table} (h : order.Perm table) (hkeys : table.keys.Nodup)
    (key : String) : order.get? key = table.get? key := by
  ext value
  rw [get?_eq_some_iff hkeys, get?_eq_some_iff ((keys_perm h).nodup_iff.mpr hkeys), h.mem_iff]

end Table

end StyleCheck.Toml
