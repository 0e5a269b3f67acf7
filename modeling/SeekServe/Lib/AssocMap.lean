import Mathlib

/-!
# Finite maps with one value per key

Mathlib's `AList` at a constant value type, with the operations that walk over a
whole map: filtering, changing one value, listing the values.
-/

/-- `std::unordered_map`, without its hidden order of iteration. -/
abbrev AssocMap (α β : Type) := AList fun _ : α => β

namespace AssocMap

set_option autoImplicit false

variable {α β : Type} [DecidableEq α]

def filter (p : α → β → Bool) (m : AssocMap α β) : AssocMap α β where
  entries := m.entries.filter fun e => p e.1 e.2
  nodupKeys := m.nodupKeys.sublist List.filter_sublist

/-- The entry keeps its place. -/
def modify (a : α) (f : β → β) (m : AssocMap α β) : AssocMap α β where
  entries := m.entries.map fun e => if e.1 = a then ⟨e.1, f e.2⟩ else e
  nodupKeys := by
    have hkeys : (m.entries.map fun e => if e.1 = a then ⟨e.1, f e.2⟩ else e).keys =
        m.entries.keys := by
      unfold List.keys
      rw [List.map_map]
      apply List.map_congr_left
      intro e _
      rw [Function.comp_apply]
      split <;> rfl
    unfold List.NodupKeys
    rw [hkeys]
    exact m.nodupKeys

omit [DecidableEq α] in
def values (m : AssocMap α β) : List β := m.entries.map fun e => e.2

theorem mem_entries_iff {m : AssocMap α β} {a : α} {b : β} :
    (⟨a, b⟩ : Sigma fun _ : α => β) ∈ m.entries ↔ m.lookup a = some b := by
  rw [← Option.mem_def, AList.mem_lookup_iff]

theorem mem_values_iff {m : AssocMap α β} {b : β} : b ∈ m.values ↔ ∃ a, m.lookup a = some b := by
  simp only [values, List.mem_map]
  constructor
  · rintro ⟨⟨a, b⟩, he, rfl⟩
    exact ⟨a, mem_entries_iff.mp he⟩
  · rintro ⟨a, ha⟩
    exact ⟨⟨a, b⟩, mem_entries_iff.mpr ha, rfl⟩

theorem lookup_filter_eq_some_iff {p : α → β → Bool} {m : AssocMap α β} {a : α} {b : β} :
    (filter p m).lookup a = some b ↔ m.lookup a = some b ∧ p a b = true := by
  rw [← mem_entries_iff, ← mem_entries_iff]
  simp [filter]

theorem lookup_insert_eq {m : AssocMap α β} (a c : α) (b : β) :
    (AList.insert a b m).lookup c = if c = a then some b else m.lookup c := by
  split
  · subst c
    exact AList.lookup_insert m
  · exact AList.lookup_insert_ne ‹_›

theorem lookup_erase_eq {m : AssocMap α β} (a c : α) :
    (AList.erase a m).lookup c = if c = a then none else m.lookup c := by
  split
  · subst c
    exact AList.lookup_erase _ m
  · exact AList.lookup_erase_ne ‹_›

theorem erase_of_lookup_eq_none {m : AssocMap α β} {a : α} (h : m.lookup a = none) :
    AList.erase a m = m :=
  AList.ext (List.kerase_of_notMem_keys (AList.lookup_eq_none.mp h))

theorem lookup_modify {m : AssocMap α β} (a c : α) (f : β → β) :
    (modify a f m).lookup c = if c = a then (m.lookup a).map f else m.lookup c := by
  apply Option.ext
  intro b
  rw [← mem_entries_iff, modify, List.mem_map]
  by_cases hc : c = a
  · subst hc
    rw [if_pos rfl, Option.map_eq_some_iff]
    constructor
    · rintro ⟨⟨k, v⟩, he, heq⟩
      split at heq
      · cases heq
        exact ⟨v, mem_entries_iff.mp he, rfl⟩
      · rename_i hk
        cases heq
        exact absurd rfl hk
    · rintro ⟨v, hv, rfl⟩
      exact ⟨⟨c, v⟩, mem_entries_iff.mpr hv, if_pos rfl⟩
  · rw [if_neg hc, ← mem_entries_iff]
    constructor
    · rintro ⟨⟨k, v⟩, he, heq⟩
      split at heq
      · rename_i hk
        cases heq
        exact absurd hk hc
      · cases heq
        exact he
    · intro he
      exact ⟨⟨c, b⟩, he, if_neg hc⟩

theorem lookup_of_lookup_erase {m : AssocMap α β} {a c : α} {b : β}
    (h : (AList.erase a m).lookup c = some b) : c ≠ a ∧ m.lookup c = some b := by
  rw [lookup_erase_eq] at h
  split at h
  · cases h
  · exact ⟨‹_›, h⟩

/-- Erasing a key takes out its one entry. -/
theorem entries_erase_of_lookup {m : AssocMap α β} {a : α} {b : β} (h : m.lookup a = some b) :
    ∃ pre post, m.entries = pre ++ ⟨a, b⟩ :: post ∧ (AList.erase a m).entries = pre ++ post := by
  obtain ⟨b', pre, post, _, hsplit, herase⟩ :=
    List.exists_of_kerase (List.mem_map_of_mem (mem_entries_iff.mpr h))
  have hold : b' = b := by
    have hlook : m.lookup a = some b' := mem_entries_iff.mp (by rw [hsplit]; simp)
    rw [h] at hlook
    exact (Option.some.inj hlook).symm
  exact ⟨pre, post, hold ▸ hsplit, herase⟩

/-- Erasing a key keeps the other entries in their order. -/
theorem entries_erase_eq_filter (m : AssocMap α β) (a : α) :
    (AList.erase a m).entries = m.entries.filter fun entry => entry.1 ≠ a := by
  have hkeys := m.nodupKeys
  have herase : (AList.erase a m).entries = List.kerase a m.entries := rfl
  rw [herase]
  generalize m.entries = entries at hkeys
  induction entries with
  | nil => rfl
  | cons entry entries ih =>
    obtain ⟨hnew, hrest⟩ := List.nodupKeys_cons.mp hkeys
    by_cases hkey : a = entry.1
    · have hkeep : ∀ other ∈ entries, decide (other.1 ≠ a) = true := by
        intro other hother
        apply decide_eq_true
        rintro rfl
        exact hnew (hkey ▸ List.mem_map_of_mem hother)
      rw [List.kerase_cons_eq hkey, List.filter_cons_of_neg (by simp [hkey]),
        List.filter_eq_self.mpr hkeep]
    · have hne : entry.1 ≠ a := fun h => hkey h.symm
      rw [List.kerase_cons_ne hkey, List.filter_cons_of_pos (by simp [hne]), ih hrest]

theorem lookup_foldl_erase {keys : List α} {m : AssocMap α β} {a : α} {b : β} :
    (keys.foldl (fun m key => AList.erase key m) m).lookup a = some b ↔
      m.lookup a = some b ∧ a ∉ keys := by
  induction keys generalizing m with
  | nil => exact ⟨fun h => ⟨h, List.not_mem_nil⟩, fun h => h.1⟩
  | cons key keys ih =>
    rw [List.foldl_cons, ih, lookup_erase_eq, List.mem_cons, not_or]
    by_cases hk : a = key
    · simp [hk]
    · simp [hk]

omit [DecidableEq α] in
/-- The sum of a weight over the entries of a map. -/
def sumOf (w : α → β → Int) (m : AssocMap α β) : Int := (m.entries.map fun e => w e.1 e.2).sum

theorem sumOf_insert_of_none {w : α → β → Int} {m : AssocMap α β} {a : α} (b : β)
    (h : m.lookup a = none) : sumOf w (AList.insert a b m) = w a b + sumOf w m := by
  have hnot : a ∉ m := AList.lookup_eq_none.mp h
  unfold sumOf
  rw [AList.entries_insert_of_notMem hnot, List.map_cons, List.sum_cons]

/-- A change that keeps the weight of its entry keeps the sum. -/
theorem sumOf_modify {w : α → β → Int} (m : AssocMap α β) (a : α) {f : β → β}
    (hf : ∀ b, w a (f b) = w a b) : sumOf w (modify a f m) = sumOf w m := by
  unfold sumOf modify
  rw [List.map_map]
  congr 1
  apply List.map_congr_left
  intro e _
  rw [Function.comp_apply]
  split
  · rename_i hkey
    exact hkey ▸ hf e.2
  · rfl

end AssocMap
