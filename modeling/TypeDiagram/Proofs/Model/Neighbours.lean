import TypeDiagram.Proofs.Model.Names

/-! # Neighbours of models

The neighbours of a model are declared with it. Their ids are joined with `:` between them; as long
as no declared name is empty or has a `:`, the joined texts tell the lists of ids apart, repetitions
included.
-/

namespace TypeDiagram

/-! ## Joined names -/

/-- The name can be found again in a list of names that were joined with `:` between them. -/
def Joinable (name : String) : Prop := name ≠ "" ∧ ':' ∉ name.toList

theorem toList_intercalate_eq_nil_iff {names : List String} (h : ∀ s ∈ names, Joinable s) :
    (":".intercalate names).toList = [] ↔ names = [] := by
  rw [String.toList_intercalate]
  constructor
  · intro hNone
    cases names with
    | nil => rfl
    | cons first names =>
      have hFirst : first.toList = [] := by
        cases names with
        | nil => simpa using hNone
        | cons second names => simp [List.intercalate] at hNone
      exact absurd (String.toList_eq_nil_iff.mp hFirst) (h first List.mem_cons_self).1
  · rintro rfl
    rfl

theorem intercalate_inj {xs ys : List String} (hx : ∀ s ∈ xs, Joinable s)
    (hy : ∀ s ∈ ys, Joinable s) : ":".intercalate xs = ":".intercalate ys ↔ xs = ys := by
  refine ⟨fun hSame => ?_, fun hSame => hSame ▸ rfl⟩
  by_cases hNone : xs = []
  · rw [hNone, eq_comm, ← toList_intercalate_eq_nil_iff hy, ← hSame,
      toList_intercalate_eq_nil_iff hx, hNone]
  · have hSome : ys ≠ [] := by
      rwa [ne_eq, ← toList_intercalate_eq_nil_iff hy, ← hSame, toList_intercalate_eq_nil_iff hx]
    have hSplit : ∀ {names : List String}, (∀ s ∈ names, Joinable s) → names ≠ [] →
        (":".intercalate names).toList.splitOn ':' = names.map String.toList := by
      intro names hNames hNe
      rw [String.toList_intercalate]
      refine List.splitOn_intercalate ':' ?_ (by simpa using hNe)
      intro letters hLetters
      obtain ⟨s, hs, rfl⟩ := List.mem_map.mp hLetters
      exact (hNames s hs).2
    have hLists := congrArg (fun s : String => s.toList.splitOn ':') hSame
    simp only [hSplit hx hNone, hSplit hy hSome] at hLists
    exact List.map_injective_iff.mpr (fun _ _ => String.toList_injective) hLists

namespace Model

/-! ## Neighbours are declared -/

/-- The neighbours of the model are some of the given ones. -/
def Within (known : List ModelRef) (m : Model) : Prop :=
  m.dependencies ⊆ known ∧ m.dependants ⊆ known

theorem forall_mem_modify {β : Type} {P : β → Prop} {f : β → β} {xs : List β}
    (h : ∀ x ∈ xs, P x) (hf : ∀ x, P x → P (f x)) (i : Nat) : ∀ x ∈ xs.modify i f, P x := by
  intro x hx
  obtain ⟨j, hj⟩ := List.mem_iff_getElem?.mp hx
  rw [List.getElem?_modify] at hj
  obtain ⟨old, hOld, rfl⟩ := Option.map_eq_some_iff.mp hj
  have hIn := h old (List.mem_of_getElem? hOld)
  split
  · exact hf old hIn
  · exact hIn

theorem within_link {known : List ModelRef} {ms : List Model} (h : ∀ m ∈ ms, m.Within known)
    {source target : ModelRef} (hSource : source ∈ known) (hTarget : target ∈ known) :
    ∀ m ∈ link ms source target, m.Within known := by
  unfold link
  refine forall_mem_modify (forall_mem_modify h (fun m hm => ?_) _) (fun m hm => ?_) _
  · exact ⟨List.append_subset.mpr ⟨hm.1, by simpa using hTarget⟩, hm.2⟩
  · exact ⟨hm.1, List.append_subset.mpr ⟨hm.2, by simpa using hSource⟩⟩

theorem within_ofDeclarations {ds : List Declaration} {m : Model} (hm : m ∈ ofDeclarations ds) :
    m.Within (Declaration.references ds) := by
  let known := Declaration.references ds
  have hFold : ∀ (links : List (ModelRef × ModelRef)) (ms : List Model),
      (∀ l ∈ links, l.1 ∈ known ∧ l.2 ∈ known) → (∀ m ∈ ms, m.Within known) →
      ∀ m ∈ links.foldl (fun ms l => link ms l.1 l.2) ms, m.Within known := by
    intro links
    induction links with
    | nil => exact fun _ _ h => h
    | cons l links ih =>
      intro ms hLinks hAll
      obtain ⟨hSource, hTarget⟩ := hLinks l List.mem_cons_self
      exact ih _ (fun l' hl' => hLinks l' (List.mem_cons_of_mem l hl'))
        (within_link hAll hSource hTarget)
  refine hFold _ _ ?_ ?_ m hm
  · intro l hl
    obtain ⟨⟨source, unlinked⟩, hIn, hTargets⟩ := List.mem_flatMap.mp hl
    obtain ⟨target, hTarget, rfl⟩ := List.mem_map.mp hTargets
    obtain ⟨f, hField, hReference⟩ := List.mem_flatMap.mp hTarget
    obtain ⟨d, _, rfl⟩ := List.mem_map.mp (List.of_mem_zip hIn).2
    obtain ⟨declared, _, rfl⟩ := List.mem_map.mp hField
    exact ⟨(List.of_mem_zip hIn).1, references_classify_subset known declared hReference⟩
  · intro unlinked hUnlinked
    obtain ⟨d, _, rfl⟩ := List.mem_map.mp hUnlinked
    exact ⟨List.nil_subset _, List.nil_subset _⟩

/-! ## What the joined ids tell -/

/-- All neighbours of the model have names that can be found again. -/
def NamesNeighbours (m : Model) : Prop :=
  (∀ id ∈ m.dependencyIds, Joinable id) ∧ ∀ id ∈ m.dependantIds, Joinable id

theorem namesNeighbours_ofDeclarations {ds : List Declaration} (h : ∀ d ∈ ds, Joinable d.name)
    {m : Model} (hm : m ∈ ofDeclarations ds) : m.NamesNeighbours := by
  obtain ⟨hDependencies, hDependants⟩ := within_ofDeclarations hm
  have hKnown : ∀ target ∈ Declaration.references ds, Joinable target.id := by
    intro target hTarget
    obtain ⟨⟨d, place⟩, hd, rfl⟩ := List.mem_map.mp hTarget
    exact h d (List.fst_mem_of_mem_zipIdx hd)
  constructor
  · intro id hId
    obtain ⟨target, hTarget, rfl⟩ := List.mem_map.mp hId
    exact hKnown target (hDependencies hTarget)
  · intro id hId
    obtain ⟨target, hTarget, rfl⟩ := List.mem_map.mp hId
    exact hKnown target (hDependants hTarget)

/-- Models have the same joined ids exactly if they have the same neighbours, in the same order and
equally often. -/
theorem topologyHash_eq_iff {m m' : Model} (h : m.NamesNeighbours) (h' : m'.NamesNeighbours) :
    m.topologyHash = m'.topologyHash ↔
      m.dependantIds = m'.dependantIds ∧ m.dependencyIds = m'.dependencyIds := by
  rw [topologyHash, topologyHash, TopologyHash.mk.injEq, intercalate_inj h.2 h'.2,
    intercalate_inj h.1 h'.1]

end Model

end TypeDiagram
