import TypeDiagram.Proofs.Layout.Transpose
import TypeDiagram.Proofs.Sequence

/-! # What a name refers to

The ends of an edge are names. A name refers to the last child that has a handle of this name, and
only if there is none to the child whose id it is. This is what the boxes that the children are read
as resolve it to.
-/

namespace TypeDiagram.Layout

variable {α κ : Type}

/-- Sizes, coordinates and the orders of handles are numbers, and every handle has an id. -/
structure Child.Typed (c : Child α κ) : Prop where
  numeric : c.Numeric
  handles : ∀ p ∈ c.handles, p.id.isSome = true ∧ ∀ s, p.order ≠ .text s

def Child.handleNames (c : Child α κ) : List Name := c.handles.filterMap Handle.id

def LastWithHandle (children : List (Child α κ)) (name : Name) (c : Child α κ) : Prop :=
  ∃ before after, children = before ++ c :: after ∧ name ∈ c.handleNames ∧
    ∀ later ∈ after, name ∉ later.handleNames

/-- A name refers to the last child with a handle of this name, or, if there is none, to the child
with this id. -/
inductive RefersTo (children : List (Child α κ)) (name : Name) : Child α κ → Prop where
  | handle {c : Child α κ} (h : LastWithHandle children name c) : RefersTo children name c
  | id {c : Child α κ} {id : String} (hNone : ∀ other ∈ children, name ∉ other.handleNames)
      (hChild : c ∈ children) (hId : c.id = some id) (hName : name = .text id) :
      RefersTo children name c

variable [Coordinate α] {children : List (Child α κ)} {boxes : Boxes α}

/-! ## Children -/

theorem readChildren_concat_eq (children : List (Child α κ)) (c : Child α κ) :
    readChildren (children ++ [c]) = readChildren children >>= fun boxes =>
      readChild boxes c children.length >>= fun entry => pure (boxes.insert entry.1 entry.2) := by
  unfold readChildren
  rw [List.zipIdx_append, List.foldlM_append, List.zipIdx_singleton, Nat.zero_add]
  simp only [List.foldlM_cons, List.foldlM_nil, bind_pure]

theorem mem_keys_readChildren_iff (h : readChildren children = .ok boxes) (id : String) :
    id ∈ boxes.keys ↔ ∃ c ∈ children, c.id = some id := by
  have hIds : some id ∈ boxes.keys.map some ↔ some id ∈ children.map Child.id := by
    rw [ids_of_readChildren h]
  simpa [List.mem_map] using hIds

theorem Child.Typed.readHandles {c : Child α κ} (h : c.Typed) :
    ∃ fractions, Layout.readHandles c.handles = .ok fractions ∧
      ∀ k, k ∈ fractions.keys ↔ k ∈ c.handleNames := by
  have hNames : ∀ p ∈ c.handles, p.id = some (p.id.getD .null) := by
    intro p hp
    obtain ⟨id, hId⟩ := Option.isSome_iff_exists.mp (h.handles p hp).1
    rw [hId]
    rfl
  obtain ⟨fractions, hRead, hKeys⟩ := readHandles_eq_ok hNames
  refine ⟨fractions, hRead, fun k => ?_⟩
  rw [hKeys, Child.handleNames, ← List.filterMap_eq_map', List.filterMap_congr hNames]

/-! ## Owners of handles -/

omit [Coordinate α] in
theorem lastWithHandle_concat_iff {name : Name} {c d : Child α κ} :
    LastWithHandle (children ++ [c]) name d ↔ (name ∈ c.handleNames ∧ d = c) ∨
      (name ∉ c.handleNames ∧ LastWithHandle children name d) := by
  constructor
  · rintro ⟨before, after, hSplit, hHas, hLast⟩
    rcases concat_eq_append_cons_iff.mp hSplit with ⟨_, rfl, _⟩ | ⟨rest, hRest, rfl⟩
    · exact .inl ⟨hHas, rfl⟩
    · refine .inr ⟨hLast c (by simp), before, rest, hRest, hHas, fun later hLater => ?_⟩
      exact hLast later (List.mem_append_left _ hLater)
  · rintro (⟨hHas, rfl⟩ | ⟨hNot, before, after, hSplit, hHas, hLast⟩)
    · exact ⟨children, [], rfl, hHas, nofun⟩
    · refine ⟨before, after ++ [c], concat_eq_append_cons_iff.mpr (.inr ⟨after, hSplit, rfl⟩), hHas,
        fun later hLater => ?_⟩
      rcases List.mem_append.mp hLater with hLater | hLater
      · exact hLast later hLater
      · exact List.mem_singleton.mp hLater ▸ hNot

omit [Coordinate α] in
theorem exists_lastWithHandle {name : Name} {c : Child α κ} (hChild : c ∈ children)
    (hHas : name ∈ c.handleNames) : ∃ d, LastWithHandle children name d := by
  induction children using List.reverseRecOn with
  | nil => cases hChild
  | append_singleton children last ih =>
    simp only [lastWithHandle_concat_iff]
    by_cases hLast : name ∈ last.handleNames
    · exact ⟨last, .inl ⟨hLast, rfl⟩⟩
    · rcases List.mem_append.mp hChild with hIn | hIn
      · obtain ⟨d, hd⟩ := ih hIn
        exact ⟨d, .inr ⟨hLast, hd⟩⟩
      · exact absurd (List.mem_singleton.mp hIn ▸ hHas) hLast

omit [Coordinate α] in
theorem get?_handleOwners_insert {id : String} (hNew : id ∉ boxes.keys) (b : Box α) (name : Name) :
    (handleOwners (boxes.insert id b)).get? name =
      if name ∈ b.handles.keys then some id else (handleOwners boxes).get? name := by
  unfold handleOwners
  rw [OrderedMap.insert_of_not_mem hNew, List.flatMap_append, List.flatMap_singleton,
    OrderedMap.ofList, List.foldl_append, OrderedMap.get?_foldl_insert_same]
  rfl

theorem get?_handleOwners_iff (hTyped : ∀ c ∈ children, c.Typed)
    (h : readChildren children = .ok boxes) (name : Name) (id : String) :
    (handleOwners boxes).get? name = some id ↔
      ∃ c, LastWithHandle children name c ∧ c.id = some id := by
  induction children using List.reverseRecOn generalizing boxes with
  | nil =>
    cases h
    refine iff_of_false nofun ?_
    rintro ⟨c, ⟨before, after, hSplit, _⟩, _⟩
    cases before <;> cases hSplit
  | append_singleton children c ih =>
    rw [readChildren_concat_eq] at h
    obtain ⟨old, hOld, h⟩ := bind_eq_ok_iff.mp h
    obtain ⟨⟨newId, b⟩, hChild, h⟩ := bind_eq_ok_iff.mp h
    cases h
    obtain ⟨hNew, hBox⟩ := boxOf_of_readChild hChild
    obtain ⟨fractions, hHandles, hKeys⟩ := (hTyped c (by simp)).readHandles
    cases hBox.handles.symm.trans hHandles
    simp only [get?_handleOwners_insert hNew, lastWithHandle_concat_iff, ← hKeys]
    by_cases hHas : name ∈ b.handles.keys
    · simp only [hHas, if_true, not_true_eq_false, false_and, or_false, true_and, exists_eq_left,
        hBox.id]
    · simp only [hHas, if_false, false_and, false_or, not_false_eq_true, true_and]
      exact ih (fun c hc => hTyped c (List.mem_append_left _ hc)) hOld

omit [Coordinate α] in
theorem LastWithHandle.mem {name : Name} {c : Child α κ} (h : LastWithHandle children name c) :
    c ∈ children := by
  obtain ⟨before, after, rfl, _⟩ := h
  simp

omit [Coordinate α] in
theorem LastWithHandle.has {name : Name} {c : Child α κ} (h : LastWithHandle children name c) :
    name ∈ c.handleNames := by
  obtain ⟨_, _, _, hHas, _⟩ := h
  exact hHas

theorem boxNamed?_eq_none_iff (hTyped : ∀ c ∈ children, c.Typed)
    (h : readChildren children = .ok boxes) (name : Name) :
    boxNamed? boxes (handleOwners boxes) name = none ↔ ¬ ∃ c, RefersTo children name c := by
  unfold boxNamed?
  cases hOwner : (handleOwners boxes).get? name with
  | some id =>
    obtain ⟨c, hLast, hId⟩ := (get?_handleOwners_iff hTyped h name id).mp hOwner
    have hIn : boxes.contains id = true := by
      rw [OrderedMap.contains_iff, mem_keys_readChildren_iff h]
      exact ⟨c, hLast.mem, hId⟩
    refine iff_of_false ?_ (not_not.mpr ⟨c, .handle hLast⟩)
    simp [hIn]
  | none =>
    have hNone : ∀ c ∈ children, name ∉ c.handleNames := by
      intro c hc hHas
      obtain ⟨last, hLast⟩ := exists_lastWithHandle hc hHas
      obtain ⟨id, _, _, hBox⟩ := exists_box_of_mem h hLast.mem
      cases hOwner.symm.trans ((get?_handleOwners_iff hTyped h name id).mpr ⟨last, hLast, hBox.id⟩)
    have hRefers : (∃ c, RefersTo children name c) ↔ ∃ id, name = .text id ∧ id ∈ boxes.keys := by
      simp only [mem_keys_readChildren_iff h]
      constructor
      · rintro ⟨c, hLast | ⟨_, hChild, hId, hName⟩⟩
        · exact absurd hLast.has (hNone c hLast.mem)
        · exact ⟨_, hName, c, hChild, hId⟩
      · rintro ⟨id, hName, c, hChild, hId⟩
        exact ⟨c, .id hNone hChild hId hName⟩
    rw [hRefers]
    cases name with
    | text s => simp [Name.text?, OrderedMap.contains_iff]
    | null | number v => simp [Name.text?]

end TypeDiagram.Layout
