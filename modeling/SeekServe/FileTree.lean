import SeekServe.Events
import SeekServe.Lib.Outline

/-!
# The file tree

`SsFileTree` groups the files of a torrent by the folders in their paths, skips folders at the
top that hold nothing but one folder, and lists the rest with one row for each folder and file.
-/

namespace SeekServe.SsFileTree

set_option autoImplicit false

/-- A file as `ss_list_files` describes it; its index has 32 bits there. -/
structure FileInfo where
  index : Int32
  path : DartString
  size : Int
  deriving DecidableEq

def lastIndexOf (s : DartString) (c : UInt16) : Option Nat :=
  (s.reverse.findIdx? (· == c)).map fun i => s.length - 1 - i

namespace FileInfo

def name (f : FileInfo) : DartString :=
  match lastIndexOf f.path 47 with
  | some idx => f.path.drop (idx + 1)
  | none => f.path

variable (toLowerCase : DartString → DartString)

def extension (f : FileInfo) : DartString :=
  match lastIndexOf f.name 46 with
  | some idx => toLowerCase (f.name.drop (idx + 1))
  | none => []

def isVideo (f : FileInfo) : Bool :=
  (["mp4", "mkv", "avi", "webm", "ogv", "mov", "wmv", "flv"].map Json.word).contains
    (f.extension toLowerCase)

end FileInfo

abbrev TreeNode := KeyedTree DartString FileInfo

/-- `parts[0]` to `parts[parts.length - 2]` -/
def parentFolders (f : FileInfo) : List DartString := (f.path.splitOn 47).dropLast

/-- Components may be empty. -/
example : parentFolders ⟨0, Json.word "/a//b", 1⟩ = [[], Json.word "a", []] := by decide

def addFile (root : TreeNode) (f : FileInfo) : TreeNode := root.insert f (parentFolders f)

def buildTree (files : List FileInfo) : TreeNode := files.foldl addFile .empty

def join (path name : DartString) : DartString := if path = [] then name else path ++ 47 :: name

/-- The loop of `build`; `none` stands for a loop that has not ended. -/
def skipSingle (fuel : Nat) (effective : TreeNode) (skipped : DartString) :
    Option (TreeNode × DartString) :=
  match effective.items, effective.children, fuel with
  | [], [(_, _)], 0 => none
  | [], [(key, value)], fuel + 1 => skipSingle fuel value (join skipped key)
  | _, _, _ => some (effective, skipped)

/-- `List.sort`, which is not stable: some arrangement in the order of the comparison. -/
structure Sorting {α : Type} (cmp : α → α → Ordering) where
  sort : List α → List α
  perm : ∀ xs, (sort xs).Perm xs
  ordered : ∀ xs, (sort xs).Pairwise fun a b => (cmp a b).isLE = true

instance {α : Type} {cmp : α → α → Ordering} [Std.TransCmp cmp] : Inhabited (Sorting cmp) where
  default :=
    { sort := fun xs => xs.mergeSort fun a b => (cmp a b).isLE
      perm := fun xs => xs.mergeSort_perm _
      ordered := by
        apply List.pairwise_mergeSort
        · exact fun _ _ _ => Std.TransCmp.isLE_trans
        · intro a b
          have hswap : cmp b a = (cmp a b).swap := Std.OrientedCmp.eq_swap
          rw [hswap]
          cases cmp a b with
          | lt => rfl
          | eq => rfl
          | gt => rfl }

/-- By UTF-16 units. -/
def compareTo (a b : DartString) : Ordering := compare a b

/-- The sign of `a.index - b.index`, in 64 bits. -/
def compareIndex (a b : FileInfo) : Ordering :=
  compare (a.index.toInt64 - b.index.toInt64).toInt 0

inductive Row where
  | folder (name : DartString) (depth : Nat) (isExpanded : Bool)
  | file (f : FileInfo) (depth : Nat) (enabled : Bool)
  deriving DecidableEq

def Row.Expanded : Row → Prop
  | .folder _ _ isExpanded => isExpanded = true
  | .file _ _ _ => True

/-- The folder or the file of a row. -/
def Row.content : Row → DartString ⊕ FileInfo
  | .folder name _ _ => .inl name
  | .file f _ _ => .inr f

/-- What a row shows: its indentation, and the folder or the file. -/
def Row.reader : RowReader DartString FileInfo Row where
  depth
    | .folder _ depth _ => depth
    | .file _ depth _ => depth
  key
    | .folder name _ _ => some name
    | .file _ _ _ => none
  item
    | .folder _ _ _ => none
    | .file f _ _ => some f

/-- The files among the rows, each with the names of the folders whose rows it stands under. -/
def filesShown (rows : List Row) : List (List DartString × FileInfo) :=
  Row.reader.placedItems (Row.reader.place [] rows)

/-- The rows directly under a chain of folders. -/
def rowsUnder (folders : List DartString) (rows : List Row) : List Row :=
  Row.reader.under folders rows

/-- Sub-folders in ascending order of their names, and then files in that of their indices. -/
def InOrder (rows : List Row) : Prop :=
  ∃ (names : List DartString) (files : List FileInfo),
    rows.map Row.content = names.map .inl ++ files.map .inr ∧
      (names.Pairwise fun a b => compareTo a b = .lt) ∧
      files.Pairwise fun a b => a.index ≤ b.index

section Build
variable (toLowerCase : DartString → DartString) (sortDirs : Sorting compareTo)
  (sortFiles : Sorting compareIndex) (canTap : Bool)

def fileRow (f : FileInfo) (depth : Nat) : Row :=
  .file f depth (f.isVideo toLowerCase && canTap)

def buildNodes (expanded : Finset DartString) (node : TreeNode) (path : DartString)
    (depth : Nat) : List Row :=
  (sortDirs.sort node.keys).flatMap (fun dir =>
    let fullPath := join path dir
    let isOpen := decide (fullPath ∈ expanded)
    .folder dir depth isOpen ::
      if isOpen then
        -- a key of the map: `node.children[dir]!` is there
        match _ : node.child dir with
        | some child => buildNodes expanded child fullPath (depth + 1)
        | none => []
      else []) ++
    (sortFiles.sort node.items).map fun f => fileRow toLowerCase canTap f depth
termination_by sizeOf node
decreasing_by exact KeyedTree.sizeOf_child_lt ‹_›

theorem buildNodes_eq (expanded : Finset DartString) (node : TreeNode) (path : DartString)
    (depth : Nat) :
    buildNodes toLowerCase sortDirs sortFiles canTap expanded node path depth =
      (sortDirs.sort node.keys).flatMap (fun dir =>
        .folder dir depth (decide (join path dir ∈ expanded)) ::
          if join path dir ∈ expanded then
            ((node.child dir).map fun child =>
              buildNodes toLowerCase sortDirs sortFiles canTap expanded child (join path dir)
                (depth + 1)).getD []
          else []) ++
      (sortFiles.sort node.items).map fun f => fileRow toLowerCase canTap f depth := by
  rw [buildNodes]
  congr 2
  funext dir
  simp only [decide_eq_true_eq]
  congr 2
  cases node.child dir with
  | none => rfl
  | some child => rfl

/-- The rows of a tree in which every folder is expanded. -/
def outline : Outline DartString FileInfo Row where
  toRowReader := Row.reader
  folderRow name depth := .folder name depth true
  itemRow f depth := fileRow toLowerCase canTap f depth
  sortKeys := sortDirs.sort
  sortItems := sortFiles.sort
  depth_folderRow _ _ := rfl
  depth_itemRow _ _ := rfl
  key_folderRow _ _ := rfl
  key_itemRow _ _ := rfl
  item_folderRow _ _ := rfl
  item_itemRow _ _ := rfl
  sortKeys_perm := sortDirs.perm
  sortItems_perm := sortFiles.perm

theorem buildNodes_eq_listing {expanded : Finset DartString} {node : TreeNode}
    {path : DartString} {depth : Nat}
    (h : ∀ row ∈ buildNodes toLowerCase sortDirs sortFiles canTap expanded node path depth,
      row.Expanded) :
    buildNodes toLowerCase sortDirs sortFiles canTap expanded node path depth =
      (outline toLowerCase sortDirs sortFiles canTap).listing node depth := by
  induction node using KeyedTree.induct generalizing path depth with
  | node node ih =>
    rw [buildNodes_eq] at h ⊢
    rw [Outline.listing_eq]
    congr 1
    apply List.flatMap_congr
    intro dir hdir
    have hrows : ∀ row : Row, row ∈ _ :: _ → row.Expanded := fun row hrow =>
      h row (List.mem_append_left _ (List.mem_flatMap.mpr ⟨dir, hdir, hrow⟩))
    have hopen : join path dir ∈ expanded := of_decide_eq_true (hrows _ List.mem_cons_self)
    rw [decide_eq_true hopen, if_pos hopen]
    rw [if_pos hopen] at hrows
    cases hc : node.child dir with
    | none => rfl
    | some child =>
      have hbelow : ∀ row ∈ buildNodes toLowerCase sortDirs sortFiles canTap expanded child
          (join path dir) (depth + 1), row.Expanded := by
        intro row hrow
        apply hrows row
        apply List.mem_cons_of_mem
        rw [hc]
        exact hrow
      rw [Option.map_some, Option.getD_some, ih (dir, child) (KeyedTree.mem_of_find hc) hbelow]
      rfl

/-- The paths of all folders below a node. -/
def folderPaths (node : TreeNode) (path : DartString) : List DartString :=
  node.keys.flatMap fun dir =>
    join path dir ::
      match _ : node.child dir with
      | some child => folderPaths child (join path dir)
      | none => []
termination_by sizeOf node
decreasing_by exact KeyedTree.sizeOf_child_lt ‹_›

theorem folderPaths_eq (node : TreeNode) (path : DartString) :
    folderPaths node path =
      node.keys.flatMap fun dir =>
        join path dir ::
          ((node.child dir).map fun child => folderPaths child (join path dir)).getD [] := by
  rw [folderPaths]
  congr 1
  funext dir
  cases node.child dir with
  | none => rfl
  | some child => rfl

theorem expanded_of_folderPaths {expanded : Finset DartString} {node : TreeNode}
    {path : DartString} (h : ∀ p ∈ folderPaths node path, p ∈ expanded) (depth : Nat) :
    ∀ row ∈ buildNodes toLowerCase sortDirs sortFiles canTap expanded node path depth,
      row.Expanded := by
  induction node using KeyedTree.induct generalizing path depth with
  | node node ih =>
    intro row hrow
    rw [buildNodes_eq] at hrow
    rcases List.mem_append.mp hrow with hrow | hrow
    · obtain ⟨dir, hdir, hrow⟩ := List.mem_flatMap.mp hrow
      have hkey := (sortDirs.perm node.keys).mem_iff.mp hdir
      rw [folderPaths_eq] at h
      have hpaths : ∀ p ∈ join path dir :: _, p ∈ expanded := fun p hp =>
        h p (List.mem_flatMap.mpr ⟨dir, hkey, hp⟩)
      have hopen := hpaths _ List.mem_cons_self
      rcases List.mem_cons.mp hrow with rfl | hrow
      · exact decide_eq_true hopen
      · rw [if_pos hopen] at hrow
        cases hc : node.child dir with
        | none =>
          rw [hc] at hrow
          cases hrow
        | some child =>
          rw [hc] at hrow
          refine ih (dir, child) (KeyedTree.mem_of_find hc) ?_ (depth + 1) row hrow
          intro p hp
          apply hpaths p
          apply List.mem_cons_of_mem
          rw [hc]
          exact hp
    · obtain ⟨f, -, rfl⟩ := List.mem_map.mp hrow
      exact trivial

end Build

/-- Every file is in the tree, under the folders of its path, and nothing else is. -/
theorem entries_buildTree (files : List FileInfo) :
    (buildTree files).entries.Perm (files.map fun f => (parentFolders f, f)) := by
  have h := KeyedTree.entries_foldl_insert parentFolders files .empty
  rw [KeyedTree.entries_empty, List.nil_append] at h
  exact h

theorem distinct_buildTree (files : List FileInfo) : (buildTree files).Distinct :=
  KeyedTree.Distinct.empty.foldl_insert parentFolders files

theorem skipSingle_of_single {t child : TreeNode} {key : DartString} (hitems : t.items = [])
    (hchildren : t.children = [(key, child)]) (fuel : Nat) (skipped : DartString) :
    skipSingle (fuel + 1) t skipped = skipSingle fuel child (join skipped key) := by
  rw [skipSingle.eq_def]
  simp only [hitems, hchildren]

theorem skipSingle_of_not_single {t : TreeNode}
    (h : ∀ key child, t.items = [] → t.children ≠ [(key, child)]) (fuel : Nat)
    (skipped : DartString) : skipSingle fuel t skipped = some (t, skipped) := by
  rw [skipSingle.eq_def]
  split
  · exact absurd ‹_› (h _ _ ‹_›)
  · exact absurd ‹_› (h _ _ ‹_›)
  · rfl

/-- The loop ends at the node under some chain of folders, and nothing stands outside it. -/
theorem skipSingle_ends (t : TreeNode) :
    ∃ chain effective, t.descend chain = some effective ∧
      t.entries = (effective.entries.map fun e => (chain ++ e.1, e.2)) ∧
      ∀ skipped fuel, chain.length ≤ fuel →
        skipSingle fuel t skipped = some (effective, chain.foldl join skipped) := by
  induction t using KeyedTree.induct with
  | node t ih =>
    by_cases hsingle : ∃ key child, t.items = [] ∧ t.children = [(key, child)]
    · obtain ⟨key, child, hitems, hchildren⟩ := hsingle
      obtain ⟨chain, effective, hdescend, hentries, hskip⟩ :=
        ih (key, child) (by rw [hchildren]; exact List.mem_cons_self)
      refine ⟨key :: chain, effective, ?_, ?_, ?_⟩
      · have hchild : t.child key = some child := by
          rw [KeyedTree.child, hchildren, KeyedTree.find, if_pos rfl]
        rw [KeyedTree.descend, hchild]
        exact hdescend
      · rw [KeyedTree.entries_of_single hchildren hitems, hentries, List.map_map]
        rfl
      · intro skipped fuel hlength
        obtain ⟨fuel, rfl⟩ := Nat.exists_eq_add_of_le' (Nat.le_trans (Nat.succ_pos _) hlength)
        rw [skipSingle_of_single hitems hchildren, List.foldl_cons]
        exact hskip (join skipped key) fuel (Nat.le_of_succ_le_succ hlength)
    · refine ⟨[], t, rfl, ?_, ?_⟩
      · exact (List.map_id t.entries).symm
      · intro skipped fuel _
        apply skipSingle_of_not_single
        intro key child hitems hchildren
        exact hsingle ⟨key, child, hitems, hchildren⟩

theorem names_ascending (sortDirs : Sorting compareTo) {names : List DartString}
    (h : names.Nodup) : (sortDirs.sort names).Pairwise fun a b => compareTo a b = .lt := by
  have hnodup := (sortDirs.perm names).nodup_iff.mpr h
  apply ((sortDirs.ordered names).and hnodup).imp
  rintro a b ⟨hle, hne⟩
  cases hcmp : compareTo a b with
  | lt => rfl
  | eq => exact absurd (Std.LawfulEqOrd.eq_of_compare hcmp) hne
  | gt =>
    rw [hcmp] at hle
    cases hle

/-- Differences of indices do not overflow. -/
theorem compareIndex_eq (a b : FileInfo) :
    compareIndex a b = compare a.index.toInt b.index.toInt := by
  have ha := a.index.toInt_lt
  have ha' := a.index.le_toInt
  have hb := b.index.toInt_lt
  have hb' := b.index.le_toInt
  have hsub : (a.index.toInt64 - b.index.toInt64).toInt = a.index.toInt - b.index.toInt := by
    rw [Int64.toInt_sub, Int32.toInt_toInt64, Int32.toInt_toInt64]
    apply Int.bmod_eq_of_le
    · omega
    · omega
  unfold compareIndex
  rw [hsub]
  rcases Int.lt_trichotomy a.index.toInt b.index.toInt with h | h | h
  · rw [Int.compare_eq_lt.mpr h, Int.compare_eq_lt.mpr (by omega)]
  · rw [Int.compare_eq_eq.mpr h, Int.compare_eq_eq.mpr (by omega)]
  · rw [Int.compare_eq_gt.mpr h, Int.compare_eq_gt.mpr (by omega)]

instance : Std.TransCmp compareTo := inferInstanceAs (Std.TransOrd (List UInt16))

instance : Std.TransCmp compareIndex := by
  have h : compareIndex = compareOn fun f : FileInfo => f.index.toInt := by
    funext a b
    exact compareIndex_eq a b
  rw [h]
  infer_instance

theorem files_ascending (sortFiles : Sorting compareIndex) (files : List FileInfo) :
    (sortFiles.sort files).Pairwise fun a b => a.index ≤ b.index := by
  apply (sortFiles.ordered files).imp
  intro a b h
  rw [compareIndex_eq, Int.isLE_compare] at h
  exact Int32.le_iff_toInt_le.mpr h

/-- In a tree whose folders have distinct names, with every folder expanded. -/
theorem rowsUnder_inOrder (toLowerCase : DartString → DartString) (sortDirs : Sorting compareTo)
    (sortFiles : Sorting compareIndex) (canTap : Bool) {node : TreeNode} (h : node.Distinct)
    (folders : List DartString) :
    InOrder (rowsUnder folders
      ((outline toLowerCase sortDirs sortFiles canTap).listing node 0)) := by
  have hunder : rowsUnder folders
      ((outline toLowerCase sortDirs sortFiles canTap).listing node 0) = _ :=
    (outline toLowerCase sortDirs sortFiles canTap).under_listing h folders
  rw [hunder]
  cases hd : node.descend folders with
  | none => exact ⟨[], [], rfl, .nil, .nil⟩
  | some n =>
    obtain ⟨hkeys, -⟩ := h.descend hd
    refine ⟨sortDirs.sort n.keys, sortFiles.sort n.items, ?_, names_ascending sortDirs hkeys,
      files_ascending sortFiles n.items⟩
    rw [Option.map_some, Option.getD_some, List.map_append, List.map_map, List.map_map]
    rfl

theorem file_tree_is_faithful (toLowerCase : DartString → DartString)
    (sortDirs : Sorting compareTo) (sortFiles : Sorting compareIndex) (canTap : Bool)
    (files : List FileInfo) :
    ∃ (chain : List DartString) (effective : TreeNode),
      (∃ n, ∀ fuel, n ≤ fuel →
        skipSingle fuel (buildTree files) [] = some (effective, chain.foldl join [])) ∧
      effective.contents.Perm files ∧
      (∃ expanded, ∀ row ∈ buildNodes toLowerCase sortDirs sortFiles canTap expanded effective
        (chain.foldl join []) 0, row.Expanded) ∧
      ∀ expanded,
        let rows := buildNodes toLowerCase sortDirs sortFiles canTap expanded effective
          (chain.foldl join []) 0
        (∀ row ∈ rows, row.Expanded) →
          ((filesShown rows).map fun shown => (chain ++ shown.1, shown.2)).Perm
            (files.map fun f => (parentFolders f, f)) ∧
          ∀ folders, InOrder (rowsUnder folders rows) := by
  obtain ⟨chain, effective, hdescend, hentries, hskip⟩ := skipSingle_ends (buildTree files)
  have hdistinct : effective.Distinct := (distinct_buildTree files).descend hdescend
  have hperm := entries_buildTree files
  rw [hentries] at hperm
  refine ⟨chain, effective, ⟨chain.length, fun fuel h => hskip [] fuel h⟩, ?_, ?_, ?_⟩
  · have hcontents := hperm.map Prod.snd
    simpa only [KeyedTree.contents, List.map_map, Function.comp_def, List.map_id'] using hcontents
  · refine ⟨(folderPaths effective (chain.foldl join [])).toFinset, ?_⟩
    apply expanded_of_folderPaths
    intro p hp
    exact List.mem_toFinset.mpr hp
  · intro expanded rows hrows
    have hlisting := buildNodes_eq_listing toLowerCase sortDirs sortFiles canTap hrows
    have heq : rows = (outline toLowerCase sortDirs sortFiles canTap).listing effective 0 :=
      hlisting
    rw [heq]
    constructor
    · have hplaced := (outline toLowerCase sortDirs sortFiles canTap).placedItems_places
        hdistinct []
      rw [← Outline.place_listing] at hplaced
      have hshown := hplaced.map fun shown => (chain ++ shown.1, shown.2)
      simp only [List.map_map, Function.comp_def, List.nil_append] at hshown
      exact hshown.trans hperm
    · exact rowsUnder_inOrder toLowerCase sortDirs sortFiles canTap hdistinct

end SeekServe.SsFileTree
