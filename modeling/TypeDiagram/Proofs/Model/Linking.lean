import Mathlib.Data.List.Induction
import TypeDiagram.Proofs.Model.Names

/-! # The neighbours of a model, from the schemas

The graph is built by recording one link after the other at both of its ends. Links are told apart
by places, not by names, so a model depends on exactly what its own fields refer to, in their order,
and its dependants come declaration by declaration, each as often as it refers to the model.
-/

namespace TypeDiagram

def Declaration.targets (known : List ModelRef) (d : Declaration) : List ModelRef :=
  (d.fields.map (classify known)).flatMap Field.references

theorem mem_references_iff {ds : List Declaration} {r : ModelRef} :
    r ∈ Declaration.references ds ↔ ∃ d, ds[r.place]? = some d ∧ d.name = r.id := by
  simp only [Declaration.references, List.mem_map, Prod.exists, List.mem_zipIdx_iff_getElem?]
  constructor
  · rintro ⟨d, place, hd, rfl⟩
    exact ⟨d, hd, rfl⟩
  · rintro ⟨d, hd, hName⟩
    exact ⟨d, r.place, hd, by rw [hName]⟩

theorem Declaration.targets_subset (known : List ModelRef) (d : Declaration) :
    d.targets known ⊆ known := by
  intro target hTarget
  obtain ⟨f, hf, hReference⟩ := List.mem_flatMap.mp hTarget
  obtain ⟨declared, _, rfl⟩ := List.mem_map.mp hf
  exact Model.references_classify_subset known declared hReference

namespace Model

theorem getElem?_link (ms : List Model) (source target : ModelRef) (i : Nat) :
    (link ms source target)[i]? = ms[i]?.map fun m => { m with
      dependencies := m.dependencies ++ if source.place = i then [target] else []
      dependants := m.dependants ++ if target.place = i then [source] else [] } := by
  simp only [link, List.getElem?_modify, Option.map_eq_map, Option.map_map]
  congr 1
  funext m
  by_cases hSource : source.place = i <;> by_cases hTarget : target.place = i <;>
    simp [hSource, hTarget]

theorem getElem?_foldl_link (links : List (ModelRef × ModelRef)) (ms : List Model) (i : Nat) :
    (links.foldl (fun ms l => link ms l.1 l.2) ms)[i]? = ms[i]?.map fun m => { m with
      dependencies := m.dependencies ++ (links.filter fun l => l.1.place == i).map Prod.snd
      dependants := m.dependants ++ (links.filter fun l => l.2.place == i).map Prod.fst } := by
  induction links generalizing ms with
  | nil => simp
  | cons l links ih =>
    rw [List.foldl_cons, ih, getElem?_link, Option.map_map]
    congr 1
    funext m
    by_cases hSource : l.1.place = i <;> by_cases hTarget : l.2.place = i <;>
      simp [hSource, hTarget]

def linksOf (known : List ModelRef) (ds : List Declaration) : List (ModelRef × ModelRef) :=
  ds.zipIdx.flatMap fun (d, place) => (d.targets known).map fun target => (⟨place, d.name⟩, target)

theorem ofDeclarations_eq_foldl (ds : List Declaration) :
    ofDeclarations ds = (linksOf (Declaration.references ds) ds).foldl
      (fun ms l => link ms l.1 l.2) (ds.map (ofDeclaration (Declaration.references ds))) := by
  have hZip : (Declaration.references ds).zip
      (ds.map (ofDeclaration (Declaration.references ds))) = ds.zipIdx.map fun (d, place) =>
        (⟨place, d.name⟩, ofDeclaration (Declaration.references ds) d) := by
    nth_rewrite 3 [← List.zipIdx_map_fst 0 ds]
    rw [Declaration.references, List.map_map, List.zip_map', ← Declaration.references]
    rfl
  unfold ofDeclarations linksOf
  simp only [hZip, List.flatMap_map]
  rfl

theorem flatMap_fst_zipIdx {β γ : Type} (f : β → List γ) (xs : List β) :
    (xs.zipIdx.flatMap fun x => f x.1) = xs.flatMap f := by
  rw [← List.flatMap_map Prod.fst, List.zipIdx_map_fst]

theorem flatMap_zipIdx_pick {β γ : Type} (f : β × Nat → List γ) (xs : List β) (i : Nat) :
    (xs.zipIdx.flatMap fun x => if x.2 = i then f x else []) =
      (xs[i]?.map fun x => f (x, i)).getD [] := by
  induction xs using List.reverseRecOn with
  | nil => simp
  | append_singleton xs x ih =>
    rw [List.zipIdx_append, List.flatMap_append, ih]
    rcases Nat.lt_trichotomy i xs.length with hLt | rfl | hGt
    · simp [List.getElem?_append_left hLt, hLt, Nat.ne_of_gt hLt]
    · simp
    · have hOut : (xs ++ [x])[i]? = none := by
        rw [List.getElem?_eq_none_iff, List.length_append]
        exact hGt
      rw [hOut, List.getElem?_eq_none (Nat.le_of_lt hGt)]
      simp [Nat.ne_of_lt hGt]

theorem linksOf_from (known : List ModelRef) (ds : List Declaration) (i : Nat) :
    ((linksOf known ds).filter fun l => l.1.place == i).map Prod.snd =
      (ds[i]?.map (Declaration.targets known)).getD [] := by
  rw [linksOf, List.filter_flatMap, List.map_flatMap,
    ← flatMap_zipIdx_pick (fun x => x.1.targets known) ds i]
  congr 1
  funext ⟨d, place⟩
  by_cases hPlace : place = i <;> simp [hPlace, Function.comp_def, List.filter_map]

theorem linksOf_to (known : List ModelRef) (ds : List Declaration) (i : Nat) :
    ((linksOf known ds).filter fun l => l.2.place == i).map Prod.fst =
      ds.zipIdx.flatMap fun (d, place) =>
        List.replicate ((d.targets known).countP fun t => t.place == i) ⟨place, d.name⟩ := by
  rw [linksOf, List.filter_flatMap, List.map_flatMap]
  congr 1
  funext ⟨d, place⟩
  simp only [List.filter_map, List.map_map, List.countP_eq_length_filter]
  exact List.map_const'

theorem ofDeclarations_eq (ds : List Declaration) :
    let known := Declaration.references ds
    ofDeclarations ds = ds.zipIdx.map fun (d, place) => {
      id := d.name
      schema := d.fields.map (classify known)
      dependencies := d.targets known
      dependants := ds.zipIdx.flatMap fun (source, from_) =>
        List.replicate ((source.targets known).countP fun t => t.place == place)
          ⟨from_, source.name⟩ } := by
  intro known
  apply List.ext_getElem?
  intro i
  rw [ofDeclarations_eq_foldl, getElem?_foldl_link, linksOf_from, linksOf_to, List.getElem?_map,
    List.getElem?_map, List.getElem?_zipIdx]
  cases ds[i]? <;> simp [ofDeclaration, known]

variable {ds : List Declaration} {m : Model}

theorem dependencies_eq (hm : m ∈ ofDeclarations ds) :
    m.dependencies = m.schema.flatMap Field.references := by
  rw [ofDeclarations_eq] at hm
  obtain ⟨⟨d, place⟩, _, rfl⟩ := List.mem_map.mp hm
  rfl

theorem id_of_mem_dependencies (hm : m ∈ ofDeclarations ds) {target : ModelRef}
    (hTarget : target ∈ m.dependencies) :
    (ofDeclarations ds)[target.place]?.map Model.id = some target.id := by
  rw [ofDeclarations_eq] at hm
  obtain ⟨⟨d, place⟩, _, rfl⟩ := List.mem_map.mp hm
  obtain ⟨e, he, hName⟩ := mem_references_iff.mp (d.targets_subset _ hTarget)
  rw [← List.getElem?_map, ids_ofDeclarations, List.getElem?_map, he, Option.map_some, hName]

end Model

end TypeDiagram
