import Mathlib

/-!
# Maps in the order of insertion

A key that is set again keeps its place; a new one comes last.
-/

set_option autoImplicit false

structure OrderedMap (α β : Type) where
  entries : List (α × β)
  nodup : (entries.map Prod.fst).Nodup

namespace OrderedMap
variable {α β : Type}

def empty : OrderedMap α β := ⟨[], List.nodup_nil⟩

def keys (m : OrderedMap α β) : List α := m.entries.map Prod.fst

def values (m : OrderedMap α β) : List β := m.entries.map Prod.snd

theorem nodup_keys (m : OrderedMap α β) : m.keys.Nodup := m.nodup

variable [DecidableEq α]

def lookup (m : OrderedMap α β) (a : α) : Option β := m.entries.lookup a

/-- One value in its place. -/
def put (a : α) (b : β) (entries : List (α × β)) : List (α × β) :=
  entries.map fun entry => if entry.1 = a then (a, b) else entry

theorem keys_put (a : α) (b : β) (entries : List (α × β)) :
    (put a b entries).map Prod.fst = entries.map Prod.fst := by
  unfold put
  rw [List.map_map]
  apply List.map_congr_left
  intro entry _
  rw [Function.comp_apply]
  split
  · exact Eq.symm ‹_›
  · rfl

def set (m : OrderedMap α β) (a : α) (b : β) : OrderedMap α β :=
  if h : a ∈ m.keys then ⟨put a b m.entries, by rw [keys_put]; exact m.nodup⟩
  else
    ⟨m.entries ++ [(a, b)], by
      rw [List.map_append, List.nodup_append]
      refine ⟨m.nodup, List.nodup_singleton a, ?_⟩
      intro c hc d hd heq
      have hlast : d = a := List.mem_singleton.mp hd
      exact h (hlast ▸ heq ▸ hc)⟩

def erase (m : OrderedMap α β) (a : α) : OrderedMap α β :=
  ⟨m.entries.filter fun entry => entry.1 ≠ a, m.nodup.sublist (List.filter_sublist.map Prod.fst)⟩

theorem keys_set (m : OrderedMap α β) (a : α) (b : β) :
    (m.set a b).keys = if a ∈ m.keys then m.keys else m.keys ++ [a] := by
  unfold set
  split
  · exact keys_put a b m.entries
  · exact List.map_append

theorem mem_keys_set {m : OrderedMap α β} {a c : α} {b : β} :
    c ∈ (m.set a b).keys ↔ c = a ∨ c ∈ m.keys := by
  rw [keys_set]
  split
  · rename_i h
    constructor
    · exact Or.inr
    · rintro (rfl | hc)
      · exact h
      · exact hc
  · rw [List.mem_append, List.mem_singleton]
    exact or_comm

theorem mem_keys_erase {m : OrderedMap α β} {a c : α} :
    c ∈ (m.erase a).keys ↔ c ≠ a ∧ c ∈ m.keys := by
  simp [erase, keys, and_comm]

theorem mem_entries_iff {m : OrderedMap α β} {a : α} {b : β} :
    (a, b) ∈ m.entries ↔ m.lookup a = some b := by
  obtain ⟨entries, hnodup⟩ := m
  unfold lookup
  induction entries with
  | nil => simp
  | cons entry entries ih =>
    obtain ⟨hnew, hrest⟩ := List.nodup_cons.mp hnodup
    by_cases hkey : a = entry.1
    · subst hkey
      have hnot : (entry.1, b) ∉ entries := fun hmem =>
        hnew (List.mem_map.mpr ⟨_, hmem, rfl⟩)
      rw [List.mem_cons, List.lookup_cons, beq_self_eq_true]
      constructor
      · rintro (heq | hmem)
        · exact congrArg some (congrArg Prod.snd heq).symm
        · exact absurd hmem hnot
      · intro h
        exact Or.inl (Prod.ext rfl (Option.some.inj h).symm)
    · rw [List.mem_cons, List.lookup_cons, beq_false_of_ne hkey]
      constructor
      · rintro (rfl | hmem)
        · exact absurd rfl hkey
        · exact (ih hrest).mp hmem
      · intro h
        exact Or.inr ((ih hrest).mpr h)

theorem mem_keys_iff {m : OrderedMap α β} {a : α} : a ∈ m.keys ↔ ∃ b, m.lookup a = some b := by
  simp only [keys, List.mem_map, Prod.exists, exists_and_right, exists_eq_right, mem_entries_iff]

theorem mem_values_iff {m : OrderedMap α β} {b : β} :
    b ∈ m.values ↔ ∃ a, m.lookup a = some b := by
  simp only [values, List.mem_map, Prod.exists, exists_eq_right, mem_entries_iff]

theorem lookup_set (m : OrderedMap α β) (a c : α) (b : β) :
    (m.set a b).lookup c = if c = a then some b else m.lookup c := by
  apply Option.ext
  intro d
  rw [← mem_entries_iff]
  unfold set
  split
  · rename_i hmem
    simp only [put, List.mem_map]
    by_cases hc : c = a
    · subst hc
      rw [if_pos rfl]
      constructor
      · rintro ⟨entry, hentry, heq⟩
        split at heq
        · exact congrArg some (congrArg Prod.snd heq)
        · rename_i hne
          exact absurd (congrArg Prod.fst heq) hne
      · intro h
        obtain ⟨entry, hentry, hkey⟩ := List.mem_map.mp hmem
        exact ⟨entry, hentry, by rw [if_pos hkey, Option.some.inj h]⟩
    · rw [if_neg hc, ← mem_entries_iff]
      constructor
      · rintro ⟨entry, hentry, heq⟩
        split at heq
        · exact absurd (congrArg Prod.fst heq).symm hc
        · exact heq ▸ hentry
      · intro h
        exact ⟨(c, d), h, if_neg hc⟩
  · rename_i hnew
    simp only [List.mem_append, List.mem_singleton, Prod.mk.injEq]
    by_cases hc : c = a
    · subst hc
      rw [if_pos rfl]
      constructor
      · rintro (hold | ⟨-, rfl⟩)
        · exact absurd (List.mem_map_of_mem (f := Prod.fst) hold) hnew
        · rfl
      · intro h
        exact Or.inr ⟨rfl, (Option.some.inj h).symm⟩
    · rw [if_neg hc, ← mem_entries_iff]
      exact ⟨fun h => h.resolve_right fun hlast => hc hlast.1, Or.inl⟩

theorem lookup_erase (m : OrderedMap α β) (a c : α) :
    (m.erase a).lookup c = if c = a then none else m.lookup c := by
  apply Option.ext
  intro b
  rw [← mem_entries_iff]
  by_cases hc : c = a
  · rw [if_pos hc]
    simp [erase, hc]
  · rw [if_neg hc, ← mem_entries_iff]
    simp [erase, hc]

end OrderedMap
