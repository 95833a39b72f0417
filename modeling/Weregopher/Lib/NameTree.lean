import Weregopher.Lib.OrderedMap

/-! # Trees with named branches

A tree of directories. Everything below the root is an item with its path; a path is
the list of names from the root.
-/
namespace Lib

inductive NameTree (κ α : Type)
  | node (children : List (κ × NameTree κ α))
  | leaf (value : α)

namespace NameTree

variable {κ α : Type}

inductive Kind (α : Type)
  | directory (isEmpty : Bool)
  | leaf (value : α)

def kind : NameTree κ α → Kind α
  | .node children => .directory children.isEmpty
  | .leaf value => .leaf value

/-- An item with the names above it put before its path. -/
def under (parent : List κ) (item : List κ × Kind α) : List κ × Kind α := (parent ++ item.1, item.2)

mutual

/-- Every directory comes before what it holds. -/
def items : NameTree κ α → List (List κ × Kind α)
  | .node children => childrenItems children
  | .leaf _ => []

def childrenItems : List (κ × NameTree κ α) → List (List κ × Kind α)
  | [] => []
  | child :: rest => childItems child ++ childrenItems rest

def childItems : κ × NameTree κ α → List (List κ × Kind α)
  | (name, tree) => ([name], tree.kind) :: (items tree).map (under [name])

end

/-- Induction on a tree, with the hypothesis for every child. -/
theorem induct {P : NameTree κ α → Prop} (hLeaf : ∀ value, P (.leaf value))
    (hNode : ∀ children, (∀ child ∈ children, P child.2) → P (.node children)) (tree : NameTree κ α) : P tree := by
  refine @NameTree.rec κ α P (fun children => ∀ child ∈ children, P child.2) (fun child => P child.2)
    ?_ hLeaf ?_ ?_ ?_ tree
  · exact hNode
  · exact List.forall_mem_nil _
  · intro child rest hChild hRest
    exact List.forall_mem_cons.mpr ⟨hChild, hRest⟩
  · intro _ _ hTree
    exact hTree

theorem childrenItems_eq (children : List (κ × NameTree κ α)) :
    childrenItems children = children.flatMap childItems := by
  induction children with
  | nil => rfl
  | cons child rest ih => rw [childrenItems, ih, List.flatMap_cons]

variable {children : List (κ × NameTree κ α)} {kind : Kind α} {path : List κ} {item : List κ × Kind α}
  {tree : NameTree κ α}

theorem mem_items_node : (path, kind) ∈ items (.node children) ↔
      ∃ child ∈ children, (path = [child.1] ∧ kind = child.2.kind) ∨
        ∃ rest, path = child.1 :: rest ∧ (rest, kind) ∈ items child.2 := by
  rw [items, childrenItems_eq]
  simp only [List.mem_flatMap, childItems, List.mem_cons, List.mem_map, Prod.mk.injEq, under, Prod.exists,
    List.singleton_append]
  refine exists_congr fun name => exists_congr fun tree => and_congr_right fun _ => or_congr Iff.rfl ?_
  constructor
  · rintro ⟨rest, _, hMem, rfl, rfl⟩
    exact ⟨rest, rfl, hMem⟩
  · rintro ⟨rest, rfl, hMem⟩
    exact ⟨rest, kind, hMem, rfl, rfl⟩

theorem path_ne_nil (h : item ∈ tree.items) : item.1 ≠ [] := by
  obtain ⟨path, kind⟩ := item
  cases tree with
  | leaf value => cases h
  | node children =>
    obtain ⟨child, -, ⟨rfl, -⟩ | ⟨rest, rfl, -⟩⟩ := mem_items_node.mp h
    · exact List.cons_ne_nil _ _
    · exact List.cons_ne_nil _ _

theorem kind_of_items (h : item ∈ tree.items) : tree.kind = .directory false := by
  cases tree with
  | leaf value => cases h
  | node children =>
    cases children with
    | nil => cases h
    | cons first rest => rfl

theorem directory_mem {whole : List κ} (h : (whole, kind) ∈ tree.items)
    (hNil : path ≠ []) (hPath : path <+: whole) (hNe : path ≠ whole) : (path, .directory false) ∈ tree.items := by
  induction tree using induct generalizing path whole with
  | hLeaf value => cases h
  | hNode children ih =>
    obtain ⟨name, path, rfl⟩ := List.exists_cons_of_ne_nil hNil
    obtain ⟨child, hChild, ⟨rfl, -⟩ | ⟨rest, rfl, hRest⟩⟩ := mem_items_node.mp h
    · obtain ⟨rfl, hEnd⟩ := List.cons_prefix_cons.mp hPath
      rw [List.prefix_nil.mp hEnd] at hNe
      exact absurd rfl hNe
    · obtain ⟨rfl, hEnd⟩ := List.cons_prefix_cons.mp hPath
      refine mem_items_node.mpr ⟨child, hChild, ?_⟩
      by_cases hEmpty : path = []
      · exact Or.inl ⟨by rw [hEmpty], (kind_of_items hRest).symm⟩
      · refine Or.inr ⟨path, rfl, ih child hChild hRest hEmpty hEnd ?_⟩
        rintro rfl
        exact hNe rfl

/-- No directory below the root is empty. -/
def Full (tree : NameTree κ α) : Prop := ∀ item ∈ tree.items, ∀ isEmpty, item.2 = .directory isEmpty → isEmpty = false

theorem Full.child (h : Full (.node children)) {child : κ × NameTree κ α}
    (hChild : child ∈ children) : Full child.2 := by
  intro item hItem
  exact h (child.1 :: item.1, item.2) (mem_items_node.mpr ⟨child, hChild, Or.inr ⟨item.1, rfl, hItem⟩⟩)

theorem Full.child_ne_nil {below : List (κ × NameTree κ α)} (h : Full (.node children)) {name : κ}
    (hChild : (name, .node below) ∈ children) : below ≠ [] := by
  have hItem : ([name], Kind.directory below.isEmpty) ∈ items (.node children) :=
    mem_items_node.mpr ⟨_, hChild, Or.inl ⟨rfl, rfl⟩⟩
  simpa using h _ hItem _ rfl

theorem Full.exists_leaf (h : Full (.node children)) (hNe : children ≠ []) :
    ∃ path value, (path, Kind.leaf value) ∈ items (.node children) := by
  induction hTree : NameTree.node children using induct generalizing children with
  | hLeaf value => cases hTree
  | hNode others ih =>
    cases hTree
    obtain ⟨child, hChild⟩ := List.exists_mem_of_ne_nil _ hNe
    obtain ⟨name, tree⟩ := child
    cases tree with
    | leaf value => exact ⟨_, value, mem_items_node.mpr ⟨_, hChild, Or.inl ⟨rfl, rfl⟩⟩⟩
    | node below =>
      obtain ⟨path, value, hLeaf⟩ := ih _ hChild (h.child hChild) (h.child_ne_nil hChild) rfl
      exact ⟨name :: path, value, mem_items_node.mpr ⟨_, hChild, Or.inr ⟨path, rfl, hLeaf⟩⟩⟩

theorem Full.leaf_above (h : tree.Full) (hItem : item ∈ tree.items) :
    ∃ path value, (path, Kind.leaf value) ∈ tree.items ∧ item.1 <+: path := by
  obtain ⟨whole, kind⟩ := item
  induction tree using induct generalizing whole with
  | hLeaf value => cases hItem
  | hNode children ih =>
    obtain ⟨⟨name, tree⟩, hChild, ⟨rfl, -⟩ | ⟨rest, rfl, hRest⟩⟩ := mem_items_node.mp hItem
    · cases tree with
      | leaf value => exact ⟨[name], value, mem_items_node.mpr ⟨_, hChild, Or.inl ⟨rfl, rfl⟩⟩, List.prefix_rfl⟩
      | node below =>
        obtain ⟨path, value, hLeaf⟩ := (h.child hChild).exists_leaf (h.child_ne_nil hChild)
        exact ⟨name :: path, value, mem_items_node.mpr ⟨_, hChild, Or.inr ⟨path, rfl, hLeaf⟩⟩,
          List.cons_prefix_cons.mpr ⟨rfl, List.nil_prefix⟩⟩
    · obtain ⟨path, value, hLeaf, hPrefix⟩ := ih _ hChild (h.child hChild) rest hRest
      exact ⟨name :: path, value, mem_items_node.mpr ⟨_, hChild, Or.inr ⟨path, rfl, hLeaf⟩⟩,
        List.cons_prefix_cons.mpr ⟨rfl, hPrefix⟩⟩

theorem Full.mem_paths_iff (h : tree.Full) : path ∈ tree.items.map Prod.fst ↔
      path ≠ [] ∧ ∃ whole value, (whole, Kind.leaf value) ∈ tree.items ∧ path <+: whole := by
  constructor
  · intro hPath
    obtain ⟨item, hItem, rfl⟩ := List.mem_map.mp hPath
    exact ⟨path_ne_nil hItem, h.leaf_above hItem⟩
  · rintro ⟨hNil, whole, value, hLeaf, hPrefix⟩
    by_cases hEq : path = whole
    · exact List.mem_map.mpr ⟨_, hLeaf, hEq.symm⟩
    · exact List.mem_map.mpr ⟨_, directory_mem hLeaf hNil hPrefix hEq, rfl⟩

section

variable [LinearOrder κ]

/-- The names in every directory are in order. -/
inductive Ordered : NameTree κ α → Prop
  | leaf (value : α) : Ordered (.leaf value)
  | node {children : List (κ × NameTree κ α)} :
      InOrder children → (∀ child ∈ children, Ordered child.2) → Ordered (.node children)

variable {children : List (κ × NameTree κ α)} {tree : NameTree κ α} {kind : Kind α} {name : κ} {path : List κ}

theorem Ordered.inOrder (h : Ordered (.node children)) : InOrder children := by
  cases h with
  | node hOrder _ => exact hOrder

theorem Ordered.child (h : Ordered (.node children))
    {child : κ × NameTree κ α} (hChild : child ∈ children) : Ordered child.2 := by
  cases h with
  | node _ hChildren => exact hChildren child hChild

/-- Puts a leaf at a path and makes the directories on the way. There is no place below a leaf, nor
where something stands. -/
def place (value : α) : List κ → List (κ × NameTree κ α) → Option (List (κ × NameTree κ α))
  | [], _ => none
  | [name], children =>
    match lookupEntry name children with
    | some _ => none
    | none => some (insertEntry name (.leaf value) children)
  | name :: next :: rest, children =>
    match (lookupEntry name children).getD (.node []) with
    | .leaf _ => none
    | .node below => (place value (next :: rest) below).map fun below => insertEntry name (.node below) children

theorem mem_items_insertEntry (h : InOrder children) :
    (path, kind) ∈ items (.node (insertEntry name tree children)) ↔
      (path = [name] ∧ kind = tree.kind) ∨ (∃ rest, path = name :: rest ∧ (rest, kind) ∈ items tree) ∨
        (path, kind) ∈ items (.node children) ∧ path.head? ≠ some name := by
  rw [mem_items_node, mem_items_node]
  constructor
  · rintro ⟨child, hChild, hItem⟩
    rcases (mem_insertEntry h).mp hChild with rfl | ⟨hChild, hName⟩
    · rcases hItem with hHere | hBelow
      · exact Or.inl hHere
      · exact Or.inr (Or.inl hBelow)
    · refine Or.inr (Or.inr ⟨⟨child, hChild, hItem⟩, ?_⟩)
      rcases hItem with ⟨rfl, -⟩ | ⟨rest, rfl, -⟩ <;> simpa using hName
  · have hNew : (name, tree) ∈ insertEntry name tree children := (mem_insertEntry h).mpr (Or.inl rfl)
    rintro (hHere | hBelow | ⟨⟨child, hChild, hItem⟩, hHead⟩)
    · exact ⟨_, hNew, Or.inl hHere⟩
    · exact ⟨_, hNew, Or.inr hBelow⟩
    · refine ⟨child, (mem_insertEntry h).mpr (Or.inr ⟨hChild, ?_⟩), hItem⟩
      rintro rfl
      rcases hItem with ⟨rfl, -⟩ | ⟨rest, rfl, -⟩ <;> exact hHead rfl

theorem Ordered.mem_items_cons (h : Ordered (.node children)) {rest : List κ} :
    (name :: rest, kind) ∈ items (.node children) ↔
      ∃ tree, lookupEntry name children = some tree ∧ (rest = [] ∧ kind = tree.kind ∨ (rest, kind) ∈ items tree) := by
  rw [mem_items_node]
  simp only [h.inOrder.lookupEntry_eq_some, Prod.exists, List.cons.injEq]
  constructor
  · rintro ⟨_, tree, hChild, ⟨⟨rfl, rfl⟩, hKind⟩ | ⟨_, ⟨rfl, rfl⟩, hRest⟩⟩
    · exact ⟨tree, hChild, Or.inl ⟨rfl, hKind⟩⟩
    · exact ⟨tree, hChild, Or.inr hRest⟩
  · rintro ⟨tree, hChild, ⟨rfl, hKind⟩ | hRest⟩
    · exact ⟨name, tree, hChild, Or.inl ⟨⟨rfl, rfl⟩, hKind⟩⟩
    · exact ⟨name, tree, hChild, Or.inr ⟨rest, ⟨rfl, rfl⟩, hRest⟩⟩

/-- A tree of exactly these leaves: its names are in order and no directory below the root is empty. -/
structure Holds (children : List (κ × NameTree κ α)) (leaves : Set (List κ × α)) : Prop where
  ordered : Ordered (.node children)
  full : Full (.node children)
  leaf_mem : ∀ path value, (path, Kind.leaf value) ∈ items (.node children) ↔ (path, value) ∈ leaves

theorem Holds.empty : Holds ([] : List (κ × NameTree κ α)) ∅ where
  ordered := .node List.Pairwise.nil (List.forall_mem_nil _)
  full _ hItem := nomatch hItem
  leaf_mem _ _ := by simp [items, childrenItems]

theorem Ordered.insertEntry (h : Ordered (.node children))
    (hTree : tree.Ordered) (name : κ) : Ordered (.node (insertEntry name tree children)) := by
  refine .node h.inOrder.insertEntry fun child hChild => ?_
  rcases (mem_insertEntry h.inOrder).mp hChild with rfl | ⟨hOld, -⟩
  · exact hTree
  · exact h.child hOld

theorem Full.insertEntry (h : Full (.node children)) (hOrder : InOrder children)
    (hTree : tree.Full) (hKind : tree.kind ≠ .directory true) (name : κ) :
    Full (.node (insertEntry name tree children)) := by
  rintro ⟨path, kind⟩ hItem isEmpty rfl
  rcases (mem_items_insertEntry hOrder).mp hItem with ⟨-, hHere⟩ | ⟨rest, -, hBelow⟩ | ⟨hOld, -⟩
  · cases isEmpty
    · rfl
    · exact absurd hHere.symm hKind
  · exact hTree _ hBelow _ rfl
  · exact h _ hOld _ rfl

theorem place_ne_nil {value : α} {placed : List (κ × NameTree κ α)}
    (h : place value path children = some placed) : placed ≠ [] := by
  have hInsert (name : κ) (tree : NameTree κ α) : insertEntry name tree children ≠ [] := by
    cases children with
    | nil => exact List.cons_ne_nil _ _
    | cons first rest =>
      rw [Lib.insertEntry]
      split_ifs <;> exact List.cons_ne_nil _ _
  cases path with
  | nil => cases h
  | cons name rest =>
    cases rest with
    | nil =>
      rw [place] at h
      split at h
      · cases h
      · cases h
        exact hInsert _ _
    | cons next more =>
      rw [place] at h
      split at h
      · cases h
      · obtain ⟨below, -, rfl⟩ := Option.map_eq_some_iff.mp h
        exact hInsert _ _

namespace Holds

variable {children : List (κ × NameTree κ α)} {leaves : Set (List κ × α)}

variable (h : Holds children leaves)

include h

theorem path_ne_nil {entry : List κ × α} (hEntry : entry ∈ leaves) : entry.1 ≠ [] :=
  NameTree.path_ne_nil ((h.leaf_mem entry.1 entry.2).mpr hEntry)

theorem below {name : κ} {below : List (κ × NameTree κ α)}
    (hBelow : (lookupEntry name children).getD (.node []) = .node below) :
    Holds below {entry | (name :: entry.1, entry.2) ∈ leaves} := by
  cases hFind : lookupEntry name children with
  | none =>
    rw [hFind] at hBelow
    cases hBelow
    have hNone : {entry : List κ × α | (name :: entry.1, entry.2) ∈ leaves} = ∅ := by
      refine Set.eq_empty_of_forall_notMem fun entry hEntry => ?_
      obtain ⟨tree, hTree, -⟩ := h.ordered.mem_items_cons.mp ((h.leaf_mem _ _).mpr hEntry)
      rw [hFind] at hTree
      cases hTree
    rw [hNone]
    exact .empty
  | some tree =>
    rw [hFind] at hBelow
    obtain rfl : tree = .node below := hBelow
    have hChild := h.ordered.inOrder.lookupEntry_eq_some.mp hFind
    refine ⟨h.ordered.child hChild, h.full.child hChild, fun path value => ?_⟩
    rw [Set.mem_ofPred_eq, ← h.leaf_mem, h.ordered.mem_items_cons]
    constructor
    · exact fun hItem => ⟨_, hFind, Or.inr hItem⟩
    · rintro ⟨tree, hTree, ⟨-, hKind⟩ | hItem⟩
      · rw [hFind] at hTree
        cases hTree
        cases hKind
      · rw [hFind] at hTree
        cases hTree
        exact hItem

/-- Something stands at a name exactly when some leaf is there or below. -/
theorem lookup_eq_none {name : κ} :
    lookupEntry name children = none ↔ ∀ entry ∈ leaves, entry.1.head? ≠ some name := by
  constructor
  · rintro hFind ⟨path, value⟩ hEntry hHead
    obtain ⟨rest, rfl⟩ := List.head?_eq_some_iff.mp hHead
    obtain ⟨tree, hTree, -⟩ := h.ordered.mem_items_cons.mp ((h.leaf_mem _ _).mpr hEntry)
    rw [hFind] at hTree
    cases hTree
  · intro hNone
    cases hFind : lookupEntry name children with
    | none => rfl
    | some tree =>
      exfalso
      have hChild := h.ordered.inOrder.lookupEntry_eq_some.mp hFind
      have hItem : ([name], tree.kind) ∈ items (.node children) := mem_items_node.mpr ⟨_, hChild, Or.inl ⟨rfl, rfl⟩⟩
      obtain ⟨path, value, hLeaf, hPath⟩ := h.full.leaf_above hItem
      obtain ⟨rest, rfl⟩ := hPath
      exact hNone _ ((h.leaf_mem _ _).mp hLeaf) rfl

/-- A leaf finds its place exactly when no other leaf stands at its path, above or below it. -/
theorem place_isSome (value : α) {path : List κ} (hNil : path ≠ []) :
    (place value path children).isSome = true ↔ ∀ entry ∈ leaves, ¬entry.1 <+: path ∧ ¬path <+: entry.1 := by
  induction path generalizing children leaves with
  | nil => exact absurd rfl hNil
  | cons name rest ih =>
    cases rest with
    | nil =>
      have hPlace : (place value [name] children).isSome = true ↔ lookupEntry name children = none := by
        rw [place]
        split <;> simp_all
      rw [hPlace, h.lookup_eq_none]
      refine forall₂_congr fun entry hEntry => ?_
      obtain ⟨first, more, hPath⟩ := List.exists_cons_of_ne_nil (h.path_ne_nil hEntry)
      rw [hPath, List.cons_prefix_cons, List.cons_prefix_cons]
      simp only [List.head?_cons, ne_eq, Option.some.injEq, List.nil_prefix, and_true]
      constructor
      · exact fun hName => ⟨fun hBoth => hName hBoth.1, fun hSame => hName hSame.symm⟩
      · exact fun hBoth hSame => hBoth.2 hSame.symm
    | cons next more =>
      rw [place]
      split
      · rename_i leaf hLeaf
        have hFind : lookupEntry name children = some (.leaf leaf) := by
          cases hFind : lookupEntry name children with
          | none =>
            rw [hFind] at hLeaf
            cases hLeaf
          | some tree =>
            rw [hFind] at hLeaf
            exact congrArg some hLeaf
        have hItem : ([name], leaf) ∈ leaves :=
          (h.leaf_mem _ _).mp (h.ordered.mem_items_cons.mpr ⟨_, hFind, Or.inl ⟨rfl, rfl⟩⟩)
        simp only [Option.isSome_none, Bool.false_eq_true, false_iff]
        intro hApart
        exact (hApart _ hItem).1 (List.cons_prefix_cons.mpr ⟨rfl, List.nil_prefix⟩)
      · rename_i below hBelow
        rw [Option.isSome_map, ih (h.below hBelow) (List.cons_ne_nil _ _)]
        constructor
        · rintro hApart ⟨path, value⟩ hEntry
          obtain ⟨first, rest, rfl⟩ := List.exists_cons_of_ne_nil (h.path_ne_nil hEntry)
          rw [List.cons_prefix_cons, List.cons_prefix_cons]
          by_cases hName : first = name
          · subst hName
            simpa using hApart (rest, value) hEntry
          · exact ⟨fun hBoth => hName hBoth.1, fun hBoth => hName hBoth.1.symm⟩
        · intro hApart entry hEntry
          have hBoth := hApart _ hEntry
          rwa [List.cons_prefix_cons, List.cons_prefix_cons, eq_self, true_and, true_and] at hBoth

theorem place {value : α} {path : List κ} {placed : List (κ × NameTree κ α)}
    (hPlace : place value path children = some placed) : Holds placed (insert (path, value) leaves) := by
  induction path generalizing children leaves placed with
  | nil => cases hPlace
  | cons name rest ih =>
    cases rest with
    | nil =>
      rw [NameTree.place] at hPlace
      split at hPlace
      · cases hPlace
      · rename_i hFind
        cases hPlace
        have hLeaf : Full (.leaf value : NameTree κ α) := by
          intro item hItem
          cases hItem
        refine ⟨h.ordered.insertEntry (.leaf value) name,
          h.full.insertEntry h.ordered.inOrder hLeaf (by simp [kind]) name, fun path other => ?_⟩
        rw [mem_items_insertEntry h.ordered.inOrder, Set.mem_insert_iff, Prod.mk.injEq, h.leaf_mem]
        simp only [kind, Kind.leaf.injEq, items, List.not_mem_nil, and_false, exists_false, false_or]
        refine or_congr Iff.rfl (and_iff_left_of_imp fun hEntry => ?_)
        exact h.lookup_eq_none.mp hFind _ hEntry
    | cons next more =>
      rw [NameTree.place] at hPlace
      split at hPlace
      · cases hPlace
      · rename_i below hBelow
        obtain ⟨placedBelow, hPlaced, rfl⟩ := Option.map_eq_some_iff.mp hPlace
        have hBelowHolds := ih (h.below hBelow) hPlaced
        have hKind : (NameTree.node placedBelow).kind = .directory false := by
          rw [kind, List.isEmpty_eq_false_iff.mpr (place_ne_nil hPlaced)]
        refine ⟨h.ordered.insertEntry hBelowHolds.ordered name,
          h.full.insertEntry h.ordered.inOrder hBelowHolds.full (by simp [hKind]) name, fun path other => ?_⟩
        rw [mem_items_insertEntry h.ordered.inOrder, hKind, h.leaf_mem, Set.mem_insert_iff]
        simp only [reduceCtorEq, and_false, false_or, hBelowHolds.leaf_mem, Set.mem_insert_iff, Set.mem_ofPred_eq,
          Prod.mk.injEq]
        constructor
        · rintro (⟨rest, rfl, ⟨rfl, rfl⟩ | hOld⟩ | ⟨hOld, -⟩)
          · exact Or.inl ⟨rfl, rfl⟩
          · exact Or.inr hOld
          · exact Or.inr hOld
        · rintro (⟨rfl, rfl⟩ | hOld)
          · exact Or.inl ⟨_, rfl, Or.inl ⟨rfl, rfl⟩⟩
          · by_cases hHead : path.head? = some name
            · obtain ⟨rest, rfl⟩ := List.head?_eq_some_iff.mp hHead
              exact Or.inl ⟨rest, rfl, Or.inr hOld⟩
            · exact Or.inr ⟨hOld, hHead⟩

end Holds

end

end NameTree

end Lib
