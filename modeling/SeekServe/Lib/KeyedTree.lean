import Mathlib

/-!
# Trees whose children have keys

A node keeps its children in the order in which their keys were first used, and some items of
its own. Inserting an item along a path of keys makes the nodes that are missing.
-/

set_option autoImplicit false

inductive KeyedTree (κ ι : Type) where
  | node (children : List (κ × KeyedTree κ ι)) (items : List ι)

namespace KeyedTree
variable {κ ι : Type}

def children : KeyedTree κ ι → List (κ × KeyedTree κ ι)
  | node cs _ => cs

def items : KeyedTree κ ι → List ι
  | node _ is => is

def keys (t : KeyedTree κ ι) : List κ := t.children.map Prod.fst

def empty : KeyedTree κ ι := node [] []

@[simp] theorem children_node (cs : List (κ × KeyedTree κ ι)) (is : List ι) :
    (node cs is).children = cs := rfl

@[simp] theorem items_node (cs : List (κ × KeyedTree κ ι)) (is : List ι) :
    (node cs is).items = is := rfl

theorem sizeOf_lt_of_mem [SizeOf κ] [SizeOf ι] {t : KeyedTree κ ι} {kc : κ × KeyedTree κ ι}
    (h : kc ∈ t.children) : sizeOf kc.2 < sizeOf t := by
  obtain ⟨cs, is⟩ := t
  obtain ⟨k, c⟩ := kc
  have hlt := List.sizeOf_lt_of_mem h
  simp only [children_node, Prod.mk.sizeOf_spec, node.sizeOf_spec] at hlt ⊢
  omega

/-- What holds of a tree whose children have it holds of every tree. -/
@[elab_as_elim]
theorem induct {motive : KeyedTree κ ι → Prop}
    (node : ∀ t : KeyedTree κ ι, (∀ kc ∈ t.children, motive kc.2) → motive t)
    (t : KeyedTree κ ι) : motive t := by
  apply node
  intro kc h
  exact induct node kc.2
termination_by sizeOf t
decreasing_by exact sizeOf_lt_of_mem h

/-- Every item, with the keys on the way to it. -/
def entries : KeyedTree κ ι → List (List κ × ι)
  | node cs is =>
    cs.flatMap (fun kc => (entries kc.2).map fun e => (kc.1 :: e.1, e.2)) ++
      is.map fun i => ([], i)
decreasing_by exact sizeOf_lt_of_mem (t := node cs is) ‹_›

def contents (t : KeyedTree κ ι) : List ι := t.entries.map Prod.snd

/-- No node has two children of one key. -/
inductive Distinct : KeyedTree κ ι → Prop
  | intro {t : KeyedTree κ ι} (keys : t.keys.Nodup) (children : ∀ kc ∈ t.children, Distinct kc.2) :
    Distinct t

theorem entries_empty : (empty : KeyedTree κ ι).entries = [] := by
  unfold empty
  rw [entries]
  rfl

/-- The items under the children of a list. -/
def inside (cs : List (κ × KeyedTree κ ι)) : List (List κ × ι) :=
  cs.flatMap fun kc => kc.2.entries.map fun e => (kc.1 :: e.1, e.2)

theorem entries_eq (t : KeyedTree κ ι) :
    t.entries = inside t.children ++ t.items.map fun i => ([], i) := by
  obtain ⟨cs, is⟩ := t
  rw [entries]
  rfl

theorem entries_of_single {t c : KeyedTree κ ι} {k : κ} (hchildren : t.children = [(k, c)])
    (hitems : t.items = []) : t.entries = c.entries.map fun e => (k :: e.1, e.2) := by
  rw [entries_eq, hchildren, hitems, inside, List.flatMap_singleton, List.map_nil, List.append_nil]

theorem Distinct.empty : Distinct (empty : KeyedTree κ ι) :=
  ⟨List.nodup_nil, fun _ h => absurd h List.not_mem_nil⟩

section Insert
variable [DecidableEq κ]

/-- The child of the key, which is made if there is none, changes by `f`. -/
def update (f : KeyedTree κ ι → KeyedTree κ ι) (k : κ) :
    List (κ × KeyedTree κ ι) → List (κ × KeyedTree κ ι)
  | [] => [(k, f empty)]
  | (k', c) :: cs => if k' = k then (k', f c) :: cs else (k', c) :: update f k cs

def insert (i : ι) : List κ → KeyedTree κ ι → KeyedTree κ ι
  | [], t => node t.children (t.items ++ [i])
  | k :: ks, t => node (update (insert i ks) k t.children) t.items

def find (k : κ) : List (κ × KeyedTree κ ι) → Option (KeyedTree κ ι)
  | [] => none
  | (k', c) :: cs => if k' = k then some c else find k cs

def child (t : KeyedTree κ ι) (k : κ) : Option (KeyedTree κ ι) := find k t.children

/-- The node at the end of a path of keys. -/
def descend : List κ → KeyedTree κ ι → Option (KeyedTree κ ι)
  | [], t => some t
  | k :: ks, t => (t.child k).bind (descend ks)

theorem inside_update {f : KeyedTree κ ι → KeyedTree κ ι} {ks : List κ} {i : ι}
    (hf : ∀ c, (f c).entries.Perm ((ks, i) :: c.entries)) (k : κ)
    (cs : List (κ × KeyedTree κ ι)) :
    (inside (update f k cs)).Perm ((k :: ks, i) :: inside cs) := by
  induction cs with
  | nil =>
    have h := (hf empty).map fun e : List κ × ι => (k :: e.1, e.2)
    rw [entries_empty] at h
    simpa [update, inside] using h
  | cons kc cs ih =>
    obtain ⟨k', c⟩ := kc
    unfold update
    split
    · rename_i hk
      subst hk
      have h := (hf c).map fun e : List κ × ι => (k' :: e.1, e.2)
      exact h.append_right (inside cs)
    · have h := ih.append_left (c.entries.map fun e : List κ × ι => (k' :: e.1, e.2))
      exact h.trans List.perm_middle

/-- An insertion adds its item, under its path, and nothing else. -/
theorem entries_insert (i : ι) (ks : List κ) (t : KeyedTree κ ι) :
    (insert i ks t).entries.Perm ((ks, i) :: t.entries) := by
  induction ks generalizing t with
  | nil =>
    rw [insert, entries_eq, entries_eq]
    simp only [children_node, items_node, List.map_append, List.map_cons, List.map_nil]
    rw [← List.append_assoc]
    exact List.perm_append_singleton _ _
  | cons k ks ih =>
    rw [insert, entries_eq, entries_eq t]
    exact (inside_update ih k t.children).append_right _

theorem entries_foldl_insert (path : ι → List κ) (is : List ι) (t : KeyedTree κ ι) :
    (is.foldl (fun t i => insert i (path i) t) t).entries.Perm
      (t.entries ++ is.map fun i => (path i, i)) := by
  induction is generalizing t with
  | nil =>
    rw [List.foldl_nil, List.map_nil, List.append_nil]
  | cons i is ih =>
    rw [List.foldl_cons, List.map_cons]
    have h := (entries_insert i (path i) t).append_right (is.map fun i => (path i, i))
    exact (ih _).trans (h.trans List.perm_middle.symm)

theorem mem_update {f : KeyedTree κ ι → KeyedTree κ ι} {k : κ} {cs : List (κ × KeyedTree κ ι)}
    {kc : κ × KeyedTree κ ι} (h : kc ∈ update f k cs) :
    kc ∈ cs ∨ ∃ c, kc = (k, f c) ∧ (c = empty ∨ (k, c) ∈ cs) := by
  induction cs with
  | nil => exact .inr ⟨empty, List.mem_singleton.mp h, .inl rfl⟩
  | cons kc' cs ih =>
    obtain ⟨k', c'⟩ := kc'
    unfold update at h
    split at h
    · rename_i hk
      subst hk
      rcases List.mem_cons.mp h with rfl | h
      · exact .inr ⟨c', rfl, .inr List.mem_cons_self⟩
      · exact .inl (List.mem_cons_of_mem _ h)
    · rcases List.mem_cons.mp h with rfl | h
      · exact .inl List.mem_cons_self
      · rcases ih h with h | ⟨c, hkc, hc⟩
        · exact .inl (List.mem_cons_of_mem _ h)
        · exact .inr ⟨c, hkc, hc.imp id (List.mem_cons_of_mem _)⟩

theorem keys_update (f : KeyedTree κ ι → KeyedTree κ ι) (k : κ) (cs : List (κ × KeyedTree κ ι)) :
    (update f k cs).map Prod.fst =
      if k ∈ cs.map Prod.fst then cs.map Prod.fst else cs.map Prod.fst ++ [k] := by
  induction cs with
  | nil => rfl
  | cons kc cs ih =>
    obtain ⟨k', c⟩ := kc
    unfold update
    by_cases hk : k' = k
    · rw [if_pos hk, if_pos (by simp [hk])]
      rfl
    · rw [if_neg hk, List.map_cons, ih]
      by_cases hmem : k ∈ cs.map Prod.fst
      · have hmem' : k ∈ ((k', c) :: cs).map Prod.fst := List.mem_cons_of_mem _ hmem
        rw [if_pos hmem, if_pos hmem']
        rfl
      · have hne : k ∉ ((k', c) :: cs).map Prod.fst := by
          rw [List.map_cons, List.mem_cons, not_or]
          exact ⟨Ne.symm hk, hmem⟩
        rw [if_neg hmem, if_neg hne]
        rfl

theorem Distinct.insert {t : KeyedTree κ ι} (h : t.Distinct) (i : ι) (ks : List κ) :
    (insert i ks t).Distinct := by
  induction ks generalizing t with
  | nil =>
    obtain ⟨hkeys, hchildren⟩ := h
    exact ⟨hkeys, hchildren⟩
  | cons k ks ih =>
    obtain ⟨hkeys, hchildren⟩ := h
    constructor
    · unfold KeyedTree.insert keys
      rw [children_node, keys_update]
      split
      · exact hkeys
      · rename_i hk
        exact List.nodup_append.mpr ⟨hkeys, List.nodup_singleton k, by
          intro a ha b hb heq
          rw [List.mem_singleton.mp hb] at heq
          exact hk (heq ▸ ha)⟩
    · intro kc hkc
      rcases mem_update hkc with hkc | ⟨c, rfl, rfl | hc⟩
      · exact hchildren kc hkc
      · exact ih .empty
      · exact ih (hchildren _ hc)

theorem Distinct.foldl_insert {t : KeyedTree κ ι} (h : t.Distinct) (path : ι → List κ)
    (is : List ι) : (is.foldl (fun t i => KeyedTree.insert i (path i) t) t).Distinct := by
  induction is generalizing t with
  | nil => exact h
  | cons i is ih => exact ih (h.insert i (path i))

theorem mem_of_find {k : κ} {c : KeyedTree κ ι} {cs : List (κ × KeyedTree κ ι)}
    (h : find k cs = some c) : (k, c) ∈ cs := by
  induction cs with
  | nil => cases h
  | cons kc cs ih =>
    obtain ⟨k', c'⟩ := kc
    unfold find at h
    split at h
    · rename_i hk
      cases h
      rw [hk]
      exact List.mem_cons_self
    · exact List.mem_cons_of_mem _ (ih h)

theorem find_of_mem {k : κ} {c : KeyedTree κ ι} {cs : List (κ × KeyedTree κ ι)}
    (hkeys : (cs.map Prod.fst).Nodup) (h : (k, c) ∈ cs) : find k cs = some c := by
  induction cs with
  | nil => cases h
  | cons kc cs ih =>
    obtain ⟨k', c'⟩ := kc
    rw [List.map_cons, List.nodup_cons] at hkeys
    unfold find
    rcases List.mem_cons.mp h with heq | h
    · cases heq
      exact if_pos rfl
    · have hne : k' ≠ k := by
        rintro rfl
        exact hkeys.1 (List.mem_map.mpr ⟨(k', c), h, rfl⟩)
      rw [if_neg hne]
      exact ih hkeys.2 h

theorem sizeOf_child_lt [SizeOf κ] [SizeOf ι] {t c : KeyedTree κ ι} {k : κ}
    (h : t.child k = some c) : sizeOf c < sizeOf t := sizeOf_lt_of_mem (mem_of_find h)

theorem Distinct.child_eq_some_iff {t : KeyedTree κ ι} (ht : t.Distinct) {k : κ}
    {c : KeyedTree κ ι} : t.child k = some c ↔ (k, c) ∈ t.children := by
  obtain ⟨hkeys, -⟩ := ht
  exact ⟨mem_of_find, find_of_mem hkeys⟩

/-- Going through the keys and looking up each child is going through the children. -/
theorem Distinct.flatMap_keys {β : Type} {t : KeyedTree κ ι} (ht : t.Distinct)
    (f : κ → KeyedTree κ ι → List β) :
    (t.keys.flatMap fun k => ((t.child k).map (f k)).getD []) =
      t.children.flatMap fun kc => f kc.1 kc.2 := by
  unfold keys
  rw [List.flatMap_map]
  apply List.flatMap_congr
  intro kc hkc
  rw [ht.child_eq_some_iff.mpr hkc]
  rfl

theorem Distinct.child {t c : KeyedTree κ ι} (ht : t.Distinct) {k : κ} (h : t.child k = some c) :
    c.Distinct := by
  obtain ⟨-, hchildren⟩ := ht
  exact hchildren (k, c) (mem_of_find h)

theorem Distinct.descend {t n : KeyedTree κ ι} (ht : t.Distinct) {p : List κ}
    (h : t.descend p = some n) : n.Distinct := by
  induction p generalizing t with
  | nil =>
    cases h
    exact ht
  | cons k p ih =>
    obtain ⟨c, hc, hn⟩ := Option.bind_eq_some_iff.mp h
    exact ih (ht.child hc) hn

theorem child_isSome_iff (t : KeyedTree κ ι) (k : κ) : (t.child k).isSome = true ↔ k ∈ t.keys := by
  unfold KeyedTree.child keys
  induction t.children with
  | nil => simp [find]
  | cons kc cs ih =>
    obtain ⟨k', c⟩ := kc
    unfold find
    by_cases hk : k' = k
    · simp [hk]
    · rw [if_neg hk, ih, List.map_cons, List.mem_cons]
      exact (or_iff_right (Ne.symm hk)).symm

end Insert

end KeyedTree
