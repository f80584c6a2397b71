import Mathlib.Data.List.Nodup
import TypeDiagram.Model.Graph

/-! # Names of models

The models built from declarations bear their names in order. A field refers to nothing but models
of the same graph.
-/

namespace TypeDiagram

namespace Model

theorem map_modify_of_comp_eq {α β : Type} {g : α → β} {f : α → α} (h : ∀ a, g (f a) = g a)
    (i : Nat) (l : List α) : (l.modify i f).map g = l.map g := by
  apply List.ext_getElem?
  intro j
  simp only [List.getElem?_map, List.getElem?_modify]
  cases l[j]? <;> simp [h, apply_ite g]

/-- What does not depend on the neighbours of a model is as its declaration has it. -/
theorem map_ofDeclarations {β : Type} {g : Model → β}
    (hDependencies : ∀ m dependencies, g { m with dependencies := dependencies } = g m)
    (hDependants : ∀ m dependants, g { m with dependants := dependants } = g m)
    (ds : List Declaration) : (ofDeclarations ds).map g =
      ds.map fun d => g (ofDeclaration (Declaration.references ds) d) := by
  have hFold : ∀ (links : List (ModelRef × ModelRef)) (ms : List Model),
      (links.foldl (fun ms l => link ms l.1 l.2) ms).map g = ms.map g := by
    intro links
    induction links with
    | nil => exact fun _ => rfl
    | cons l links ih =>
      intro ms
      rw [List.foldl_cons, ih, link, map_modify_of_comp_eq fun m => hDependants m _,
        map_modify_of_comp_eq fun m => hDependencies m _]
  rw [ofDeclarations, hFold, List.map_map]
  rfl

theorem ids_ofDeclarations (ds : List Declaration) :
    (ofDeclarations ds).map Model.id = ds.map Declaration.name :=
  map_ofDeclarations (fun _ _ => rfl) (fun _ _ => rfl) ds

theorem schemas_ofDeclarations (ds : List Declaration) :
    (ofDeclarations ds).map Model.schema =
      ds.map fun d => d.fields.map (classify (Declaration.references ds)) :=
  map_ofDeclarations (fun _ _ => rfl) (fun _ _ => rfl) ds

/-! ## References -/

theorem findModel?_mem {known : List ModelRef} {name : String} {m : ModelRef}
    (h : findModel? known name = some m) : m ∈ known :=
  List.mem_reverse.mp (List.mem_of_find?_eq_some h)

theorem target?_resolve_mem {known : List ModelRef} {text : String} {m : ModelRef}
    (h : (resolve known text).target? = some m) : m ∈ known := by
  unfold resolve at h
  split at h
  · rename_i target hFind
    exact Option.some.inj h ▸ findModel?_mem hFind
  · cases h

theorem references_classify_subset (known : List ModelRef) (f : DeclaredField) :
    (classify known f).references ⊆ known := by
  intro m hm
  unfold classify at hm
  split at hm
  · exact target?_resolve_mem (Option.mem_toList.mp hm)
  · split at hm
    · cases hm
    · obtain ⟨argument, hArgument, hTarget⟩ := List.mem_filterMap.mp hm
      obtain ⟨text, _, rfl⟩ := List.mem_map.mp hArgument
      exact target?_resolve_mem hTarget
  · split at hm
    · rename_i target hFind
      exact List.mem_singleton.mp hm ▸ findModel?_mem hFind
    · cases hm
  · cases hm

theorem references_ofDeclarations {ds : List Declaration} {m : Model} (hm : m ∈ ofDeclarations ds)
    {f : Field} (hf : f ∈ m.schema) {target : ModelRef} (hTarget : target ∈ f.references) :
    target.id ∈ (ofDeclarations ds).map Model.id := by
  have hSchema : m.schema ∈ (ofDeclarations ds).map Model.schema := List.mem_map_of_mem hm
  rw [schemas_ofDeclarations] at hSchema
  obtain ⟨d, _, hFields⟩ := List.mem_map.mp hSchema
  rw [← hFields] at hf
  obtain ⟨declared, _, rfl⟩ := List.mem_map.mp hf
  obtain ⟨⟨e, place⟩, he, rfl⟩ :=
    List.mem_map.mp (references_classify_subset _ declared hTarget)
  rw [ids_ofDeclarations]
  exact List.mem_map_of_mem (List.fst_mem_of_mem_zipIdx he)

structure Sound (models : List Model) : Prop where
  distinct : (models.map Model.id).Nodup
  plain : ∀ m ∈ models, '-' ∉ m.id.toList
  closed : ∀ m ∈ models, ∀ f ∈ m.schema, ∀ target ∈ f.references,
    target.id ∈ models.map Model.id

theorem sound_ofDeclarations {ds : List Declaration} (hDistinct : (ds.map Declaration.name).Nodup)
    (hPlain : ∀ d ∈ ds, '-' ∉ d.name.toList) : Sound (ofDeclarations ds) where
  distinct := ids_ofDeclarations ds ▸ hDistinct
  plain m hm := by
    have hId : m.id ∈ (ofDeclarations ds).map Model.id := List.mem_map_of_mem hm
    rw [ids_ofDeclarations] at hId
    obtain ⟨d, hd, hName⟩ := List.mem_map.mp hId
    exact hName ▸ hPlain d hd
  closed _ hm _ hf _ hTarget := references_ofDeclarations hm hf hTarget

end Model

end TypeDiagram
