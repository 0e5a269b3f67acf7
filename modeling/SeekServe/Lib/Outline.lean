import SeekServe.Lib.KeyedTree

/-!
# Indented listings of trees

A listing writes the children of a node one level deeper than the node. Reading the levels back
puts every row under the chain of keys that leads to it, so that the listing is the tree.
-/

set_option autoImplicit false

/-- What can be read of a row: its level, and the key or the item that it stands for. -/
structure RowReader (κ ι ρ : Type) where
  depth : ρ → Nat
  key : ρ → Option κ
  item : ρ → Option ι

/-- How rows are made, and in which order a node lists its keys and its items. -/
structure Outline (κ ι ρ : Type) extends RowReader κ ι ρ where
  folderRow : κ → Nat → ρ
  itemRow : ι → Nat → ρ
  sortKeys : List κ → List κ
  sortItems : List ι → List ι
  depth_folderRow : ∀ k d, depth (folderRow k d) = d
  depth_itemRow : ∀ i d, depth (itemRow i d) = d
  key_folderRow : ∀ k d, key (folderRow k d) = some k
  key_itemRow : ∀ i d, key (itemRow i d) = none
  item_folderRow : ∀ k d, item (folderRow k d) = none
  item_itemRow : ∀ i d, item (itemRow i d) = some i
  sortKeys_perm : ∀ ks, (sortKeys ks).Perm ks
  sortItems_perm : ∀ is, (sortItems is).Perm is

namespace RowReader
variable {κ ι ρ : Type} (r : RowReader κ ι ρ)

/-- The keys above the next row, as far as it is deep enough. -/
def advance (stack : List κ) (row : ρ) : List κ :=
  match r.key row with
  | some k => stack.take (r.depth row) ++ [k]
  | none => stack

/-- Every row with the keys above it. -/
def place (stack : List κ) : List ρ → List (List κ × ρ)
  | [] => []
  | row :: rows => (stack.take (r.depth row), row) :: place (r.advance stack row) rows

def stackAfter (stack : List κ) (rows : List ρ) : List κ := rows.foldl r.advance stack

/-- The items of placed rows, with the keys above them. -/
def placedItems (placed : List (List κ × ρ)) : List (List κ × ι) :=
  placed.filterMap fun p => (r.item p.2).map (p.1, ·)

/-- The rows directly under a chain of keys. -/
def under [DecidableEq κ] (chain : List κ) (rows : List ρ) : List ρ :=
  ((r.place [] rows).filter fun p => p.1 = chain).map Prod.snd

theorem place_append (stack : List κ) (rows more : List ρ) :
    r.place stack (rows ++ more) =
      r.place stack rows ++ r.place (r.stackAfter stack rows) more := by
  induction rows generalizing stack with
  | nil => rfl
  | cons row rows ih =>
    rw [List.cons_append, place, place, ih]
    rfl

end RowReader

namespace Outline
open RowReader
variable {κ ι ρ : Type} (o : Outline κ ι ρ)

/-- Below the keys `s`, the rows are placed so, and the next row finds these keys again. -/
def Draws (s : List κ) (rows : List ρ) (placed : List (List κ × ρ)) : Prop :=
  ∀ stack : List κ, stack.take s.length = s →
    o.place stack rows = placed ∧ (o.stackAfter stack rows).take s.length = s

namespace Draws
variable {o} {s : List κ} {rows more : List ρ} {placed morePlaced : List (List κ × ρ)}

theorem nil : o.Draws s [] [] := fun _ h => ⟨rfl, h⟩

theorem append (h : o.Draws s rows placed) (hmore : o.Draws s more morePlaced) :
    o.Draws s (rows ++ more) (placed ++ morePlaced) := by
  intro stack hs
  obtain ⟨hplace, hafter⟩ := h stack hs
  obtain ⟨hplace', hafter'⟩ := hmore _ hafter
  constructor
  · rw [place_append, hplace, hplace']
  · unfold stackAfter at hafter' ⊢
    rw [List.foldl_append]
    exact hafter'

theorem flatMap {α : Type} {xs : List α} {f : α → List ρ} {g : α → List (List κ × ρ)}
    (h : ∀ x ∈ xs, o.Draws s (f x) (g x)) : o.Draws s (xs.flatMap f) (xs.flatMap g) := by
  induction xs with
  | nil => exact nil
  | cons x xs ih =>
    rw [List.flatMap_cons, List.flatMap_cons]
    exact (h x List.mem_cons_self).append (ih fun y hy => h y (List.mem_cons_of_mem x hy))

theorem item (i : ι) : o.Draws s [o.itemRow i s.length] [(s, o.itemRow i s.length)] := by
  intro stack hs
  have hadvance : o.advance stack (o.itemRow i s.length) = stack := by
    unfold advance
    rw [o.key_itemRow]
  constructor
  · rw [place, o.depth_itemRow, hs]
    rfl
  · unfold stackAfter
    rw [List.foldl_cons, List.foldl_nil, hadvance]
    exact hs

theorem items (is : List ι) :
    o.Draws s (is.map fun i => o.itemRow i s.length)
      (is.map fun i => (s, o.itemRow i s.length)) := by
  rw [List.map_eq_flatMap, List.map_eq_flatMap]
  exact flatMap fun i _ => item i

/-- A folder's row, and rows one level deeper under its key. -/
theorem folder (k : κ) (h : o.Draws (s ++ [k]) rows placed) :
    o.Draws s (o.folderRow k s.length :: rows) ((s, o.folderRow k s.length) :: placed) := by
  intro stack hs
  have hadvance : o.advance stack (o.folderRow k s.length) = s ++ [k] := by
    unfold advance
    rw [o.key_folderRow, o.depth_folderRow, hs]
  obtain ⟨hplace, hafter⟩ := h (s ++ [k]) List.take_length
  constructor
  · rw [place, hadvance, hplace, o.depth_folderRow, hs]
  · unfold stackAfter at hafter ⊢
    rw [List.foldl_cons, hadvance]
    have htake := congrArg (List.take s.length) hafter
    rw [List.take_take, List.take_left, List.length_append, Nat.min_eq_left (by omega)] at htake
    exact htake

end Draws

theorem placedItems_append (placed more : List (List κ × ρ)) :
    o.placedItems (placed ++ more) = o.placedItems placed ++ o.placedItems more :=
  List.filterMap_append

theorem placedItems_flatMap {α : Type} (xs : List α) (f : α → List (List κ × ρ)) :
    o.placedItems (xs.flatMap f) = xs.flatMap fun x => o.placedItems (f x) :=
  List.filterMap_flatMap

theorem placedItems_folder (s : List κ) (k : κ) (d : Nat) (placed : List (List κ × ρ)) :
    o.placedItems ((s, o.folderRow k d) :: placed) = o.placedItems placed := by
  unfold placedItems
  rw [List.filterMap_cons, o.item_folderRow]
  rfl

theorem placedItems_items (s : List κ) (d : Nat) (is : List ι) :
    o.placedItems (is.map fun i => (s, o.itemRow i d)) = is.map fun i => (s, i) := by
  induction is with
  | nil => rfl
  | cons i is ih =>
    unfold placedItems at ih ⊢
    rw [List.map_cons, List.filterMap_cons, o.item_itemRow, ih]
    rfl

/-- Where all but one element contribute nothing. -/
theorem flatMap_eq_of_nodup {α β : Type} {xs : List α} (hxs : xs.Nodup) {f : α → List β} {x : α}
    (hother : ∀ y ∈ xs, y ≠ x → f y = []) (hmissing : x ∉ xs → f x = []) :
    xs.flatMap f = f x := by
  induction xs with
  | nil => exact (hmissing List.not_mem_nil).symm
  | cons y ys ih =>
    obtain ⟨hy, hys⟩ := List.nodup_cons.mp hxs
    rw [List.flatMap_cons]
    by_cases hyx : y = x
    · subst hyx
      have hrest : ys.flatMap f = [] := by
        rw [List.flatMap_eq_nil_iff]
        intro z hz
        exact hother z (List.mem_cons_of_mem y hz) fun h => hy (h ▸ hz)
      rw [hrest, List.append_nil]
    · rw [hother y List.mem_cons_self hyx, List.nil_append]
      apply ih hys
      · intro z hz
        exact hother z (List.mem_cons_of_mem y hz)
      · intro hx
        exact hmissing fun h => hx ((List.mem_cons.mp h).resolve_left (Ne.symm hyx))

variable [DecidableEq κ]

/-- The rows of a node of the given depth. -/
def listing (t : KeyedTree κ ι) (d : Nat) : List ρ :=
  (o.sortKeys t.keys).flatMap (fun k =>
    o.folderRow k d ::
      match _ : t.child k with
      | some c => listing c (d + 1)
      | none => []) ++
    (o.sortItems t.items).map fun i => o.itemRow i d
termination_by sizeOf t
decreasing_by exact KeyedTree.sizeOf_child_lt ‹_›

/-- The rows of a node, each with the keys on the way to it. -/
def places (t : KeyedTree κ ι) (s : List κ) : List (List κ × ρ) :=
  (o.sortKeys t.keys).flatMap (fun k =>
    (s, o.folderRow k s.length) ::
      match _ : t.child k with
      | some c => places c (s ++ [k])
      | none => []) ++
    (o.sortItems t.items).map fun i => (s, o.itemRow i s.length)
termination_by sizeOf t
decreasing_by exact KeyedTree.sizeOf_child_lt ‹_›

theorem listing_eq (t : KeyedTree κ ι) (d : Nat) :
    o.listing t d =
      (o.sortKeys t.keys).flatMap (fun k =>
        o.folderRow k d :: ((t.child k).map fun c => o.listing c (d + 1)).getD []) ++
      (o.sortItems t.items).map fun i => o.itemRow i d := by
  rw [listing]
  congr 2
  funext k
  cases t.child k with
  | none => rfl
  | some c => rfl

theorem places_eq (t : KeyedTree κ ι) (s : List κ) :
    o.places t s =
      (o.sortKeys t.keys).flatMap (fun k =>
        (s, o.folderRow k s.length) ::
          ((t.child k).map fun c => o.places c (s ++ [k])).getD []) ++
      (o.sortItems t.items).map fun i => (s, o.itemRow i s.length) := by
  rw [places]
  congr 2
  funext k
  cases t.child k with
  | none => rfl
  | some c => rfl

/-- The levels of a listing say where each row belongs. -/
theorem draws_listing (t : KeyedTree κ ι) (s : List κ) :
    o.Draws s (o.listing t s.length) (o.places t s) := by
  induction t using KeyedTree.induct generalizing s with
  | node t ih =>
    rw [listing_eq, places_eq]
    apply Draws.append
    · apply Draws.flatMap
      intro k _
      apply Draws.folder
      cases hc : t.child k with
      | none => exact .nil
      | some c =>
        have h := ih (k, c) (KeyedTree.mem_of_find hc) (s ++ [k])
        rw [List.length_append, List.length_singleton] at h
        exact h
    · exact Draws.items _

theorem place_listing (t : KeyedTree κ ι) : o.place [] (o.listing t 0) = o.places t [] :=
  (o.draws_listing t [] [] rfl).1

/-- The items of a listing are the items of the tree, each under its keys. -/
theorem placedItems_places {t : KeyedTree κ ι} (ht : t.Distinct) (s : List κ) :
    (o.placedItems (o.places t s)).Perm (t.entries.map fun e => (s ++ e.1, e.2)) := by
  induction t using KeyedTree.induct generalizing s with
  | node t ih =>
    have hblock : ∀ k, o.placedItems ((s, o.folderRow k s.length) ::
        ((t.child k).map fun c => o.places c (s ++ [k])).getD []) =
        ((t.child k).map fun c => o.placedItems (o.places c (s ++ [k]))).getD [] := by
      intro k
      rw [placedItems_folder]
      cases t.child k with
      | none => rfl
      | some c => rfl
    have hkeys := ht.flatMap_keys fun k c => o.placedItems (o.places c (s ++ [k]))
    have hchildren : (t.children.flatMap fun kc => o.placedItems (o.places kc.2 (s ++ [kc.1]))).Perm
        ((KeyedTree.inside t.children).map fun e => (s ++ e.1, e.2)) := by
      unfold KeyedTree.inside
      rw [List.map_flatMap]
      apply List.Perm.flatMap_left
      intro kc hkc
      have hc := ih kc hkc (ht.child (ht.child_eq_some_iff.mpr hkc)) (s ++ [kc.1])
      simpa only [List.map_map, Function.comp_def, List.append_assoc, List.singleton_append]
        using hc
    rw [places_eq, KeyedTree.entries_eq, placedItems_append, placedItems_items, placedItems_flatMap,
      List.map_append]
    apply List.Perm.append
    · simp only [hblock]
      refine ((o.sortKeys_perm t.keys).flatMap_right _).trans ?_
      rw [hkeys]
      exact hchildren
    · rw [List.map_map]
      have hitems := (o.sortItems_perm t.items).map fun i => (s, i)
      simpa only [Function.comp_def, List.append_nil] using hitems

theorem chain_of_mem_places {t : KeyedTree κ ι} {s : List κ} {q : List κ × ρ}
    (h : q ∈ o.places t s) : ∃ p, q.1 = s ++ p := by
  induction t using KeyedTree.induct generalizing s with
  | node t ih =>
    rw [places_eq] at h
    rcases List.mem_append.mp h with h | h
    · obtain ⟨k, -, h⟩ := List.mem_flatMap.mp h
      rcases List.mem_cons.mp h with rfl | h
      · exact ⟨[], (List.append_nil s).symm⟩
      · cases hc : t.child k with
        | none =>
          rw [hc] at h
          cases h
        | some c =>
          rw [hc] at h
          obtain ⟨p, hp⟩ := ih (k, c) (KeyedTree.mem_of_find hc) h
          exact ⟨k :: p, by rw [hp, List.append_assoc, List.singleton_append]⟩
    · obtain ⟨i, -, rfl⟩ := List.mem_map.mp h
      exact ⟨[], (List.append_nil s).symm⟩

/-- Nothing under another chain of keys is found in the rows of a node. -/
theorem filter_places_eq_nil {t : KeyedTree κ ι} {s chain : List κ} (h : ∀ p, s ++ p ≠ chain) :
    ((o.places t s).filter fun q => q.1 = chain) = [] := by
  rw [List.filter_eq_nil_iff]
  intro q hq heq
  obtain ⟨p, hp⟩ := o.chain_of_mem_places hq
  exact h p (hp.symm.trans (of_decide_eq_true heq))

/-- The rows of one child that stand under a chain of keys. -/
def childRows (t : KeyedTree κ ι) (s chain : List κ) (k : κ) : List (List κ × ρ) :=
  ((t.child k).map fun c => (o.places c (s ++ [k])).filter fun q => q.1 = chain).getD []

theorem filter_places_cons (t : KeyedTree κ ι) (s chain : List κ) :
    ((o.places t s).filter fun q => q.1 = chain) =
      (o.sortKeys t.keys).flatMap (fun k =>
        (if s = chain then [(s, o.folderRow k s.length)] else []) ++ o.childRows t s chain k) ++
      if s = chain then (o.sortItems t.items).map fun i => (s, o.itemRow i s.length) else [] := by
  rw [places_eq, List.filter_append, List.filter_flatMap]
  congr 1
  · congr 1
    funext k
    rw [List.filter_cons]
    have hchild : (((t.child k).map fun c => o.places c (s ++ [k])).getD []).filter
        (fun q => q.1 = chain) = o.childRows t s chain k := by
      unfold childRows
      cases t.child k with
      | none => rfl
      | some c => rfl
    rw [hchild]
    by_cases hs : s = chain
    · simp [hs]
    · simp [hs]
  · by_cases hs : s = chain
    · simp [hs]
    · simp [hs]

/-- Directly under the keys of a path stand the keys and the items of the node at its end. -/
theorem filter_places {t : KeyedTree κ ι} (ht : t.Distinct) (s p : List κ) :
    ((o.places t s).filter fun q => q.1 = s ++ p) =
      ((t.descend p).map fun n =>
        (o.sortKeys n.keys).map (fun k => (s ++ p, o.folderRow k (s ++ p).length)) ++
          (o.sortItems n.items).map fun i => (s ++ p, o.itemRow i (s ++ p).length)).getD [] := by
  induction p generalizing t s with
  | nil =>
    have hnone : ∀ k, o.childRows t s s k = [] := by
      intro k
      unfold childRows
      cases t.child k with
      | none => rfl
      | some c =>
        apply o.filter_places_eq_nil
        intro p hp
        simpa using congrArg List.length hp
    rw [List.append_nil, filter_places_cons]
    simp only [hnone, if_true, List.append_nil, KeyedTree.descend, Option.map_some,
      Option.getD_some]
    rw [List.map_eq_flatMap (f := fun k => (s, o.folderRow k s.length))]
  | cons k p ih =>
    have hne : s ≠ s ++ k :: p := by
      intro h
      simpa using congrArg List.length h
    have hkey : o.childRows t s (s ++ k :: p) k =
        ((t.descend (k :: p)).map fun n =>
          (o.sortKeys n.keys).map
            (fun k' => (s ++ k :: p, o.folderRow k' (s ++ k :: p).length)) ++
            (o.sortItems n.items).map
              fun i => (s ++ k :: p, o.itemRow i (s ++ k :: p).length)).getD [] := by
      unfold childRows KeyedTree.descend
      cases hc : t.child k with
      | none => rfl
      | some c =>
        have h := ih (ht.child hc) (s ++ [k])
        rw [List.append_assoc, List.singleton_append] at h
        exact h
    rw [filter_places_cons, if_neg hne, List.append_nil, ← hkey]
    simp only [if_neg hne, List.nil_append]
    obtain ⟨hkeys, -⟩ := ht
    apply flatMap_eq_of_nodup ((o.sortKeys_perm t.keys).nodup_iff.mpr hkeys)
    · intro k' _ hk'
      unfold childRows
      cases t.child k' with
      | none => rfl
      | some c =>
        apply o.filter_places_eq_nil
        intro r hr
        rw [List.append_assoc, List.singleton_append] at hr
        exact hk' (List.cons.inj (List.append_cancel_left hr)).1
    · intro hk
      unfold childRows
      cases hc : t.child k with
      | none => rfl
      | some c =>
        have hmem := (t.child_isSome_iff k).mp (by rw [hc]; rfl)
        exact absurd ((o.sortKeys_perm t.keys).mem_iff.mpr hmem) hk

/-- The rows directly under a chain of keys, in a listing of a whole tree. -/
theorem under_listing {t : KeyedTree κ ι} (ht : t.Distinct) (chain : List κ) :
    o.under chain (o.listing t 0) =
      ((t.descend chain).map fun n =>
        (o.sortKeys n.keys).map (fun k => o.folderRow k chain.length) ++
          (o.sortItems n.items).map fun i => o.itemRow i chain.length).getD [] := by
  unfold under
  rw [place_listing]
  have h := o.filter_places ht [] chain
  rw [List.nil_append] at h
  rw [h]
  cases t.descend chain with
  | none => rfl
  | some n => simp [Function.comp_def]

end Outline
