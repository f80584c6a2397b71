import Mathlib.Algebra.Ring.Nat
import TypeDiagram.Proofs.Model.Permutation

/-! # The graph that a list of declarations describes

What a name and a type text stand for, what becomes of a field and which models are neighbours is
said in terms of the declarations alone. The graph that is built is the only one that fits, also
where names repeat and where models refer to themselves.
-/

namespace TypeDiagram

structure IsLatest (ds : List Declaration) (name : String) (r : ModelRef) : Prop where
  id : r.id = name
  declared : ds[r.place]?.map Declaration.name = some name
  latest : ∀ place, ds[place]?.map Declaration.name = some name → place ≤ r.place

/-- What a text stands for: the last declaration of the name within its blanks, or itself. -/
inductive Denotes (ds : List Declaration) (text : String) : TypeRef → Prop where
  | model {r : ModelRef} (h : IsLatest ds (Text.trim text) r) : Denotes ds text (.model r)
  | text (h : Text.trim text ∉ ds.map Declaration.name) : Denotes ds text (.text text)

inductive Classifies (ds : List Declaration) (f : DeclaredField) : Field → Prop where
  | array {element : String} {t : TypeRef} (hShape : f.shape = .array element)
      (h : Denotes ds element t) : Classifies ds f (.array f.name t)
  | generic {name : String} {arguments : List String} {ts : List TypeRef}
      (hShape : f.shape = .generic name arguments) (hName : name ≠ "")
      (h : List.Forall₂ (Denotes ds) arguments ts) : Classifies ds f (.reference f.name name ts)
  | model {r : ModelRef} (hShape : f.shape = .name) (h : IsLatest ds f.typeText r) :
      Classifies ds f (.model f.name r)
  | nameless {arguments : List String} (hShape : f.shape = .generic "" arguments) :
      Classifies ds f (.primitive f.name f.typeText)
  | undeclared (hShape : f.shape = .name) (h : f.typeText ∉ ds.map Declaration.name) :
      Classifies ds f (.primitive f.name f.typeText)
  | other (hShape : f.shape = .other) : Classifies ds f (.primitive f.name f.typeText)

/-- The model has the name and the fields of its declaration, and depends on what these refer to, in
their order. -/
structure Describes (ds : List Declaration) (d : Declaration) (m : Model) : Prop where
  id : m.id = d.name
  schema : List.Forall₂ (Classifies ds) d.fields m.schema
  dependencies : m.dependencies = m.schema.flatMap Field.references

/-- The models are those of the declarations, in order, and the dependants of each come in this
order, too, each as often as it depends on the model. -/
structure IsGraph (ds : List Declaration) (ms : List Model) : Prop where
  models : List.Forall₂ (Describes ds) ds ms
  dependants : ∀ place m, ms[place]? = some m → m.dependants =
    ms.zipIdx.flatMap fun (source, from_) =>
      List.replicate (source.dependencies.count ⟨place, m.id⟩) ⟨from_, source.id⟩

variable {ds : List Declaration} {name : String} {r : ModelRef}

/-! ## Names -/

theorem IsLatest.unique {r' : ModelRef} (h : IsLatest ds name r) (h' : IsLatest ds name r') :
    r = r' := by
  have hPlace : r.place = r'.place :=
    Nat.le_antisymm (h'.latest _ h.declared) (h.latest _ h'.declared)
  cases r
  cases r'
  cases hPlace
  cases h.id
  cases h'.id
  rfl

theorem isLatest_concat_self (ds : List Declaration) (d : Declaration) :
    IsLatest (ds ++ [d]) d.name ⟨ds.length, d.name⟩ where
  id := rfl
  declared := by simp
  latest place hPlace := by
    obtain ⟨_, hDeclared, _⟩ := Option.map_eq_some_iff.mp hPlace
    have hLt := (List.getElem?_eq_some_iff.mp hDeclared).1
    rw [List.length_append, List.length_singleton] at hLt
    exact Nat.le_of_lt_succ hLt

theorem IsLatest.concat_of_ne (h : IsLatest ds name r) {d : Declaration} (hName : d.name ≠ name) :
    IsLatest (ds ++ [d]) name r where
  id := h.id
  declared := by
    obtain ⟨e, he, hSame⟩ := Option.map_eq_some_iff.mp h.declared
    rw [List.getElem?_append_left (List.getElem?_eq_some_iff.mp he).1]
    exact h.declared
  latest place hPlace := by
    by_cases hOld : place < ds.length
    · rw [List.getElem?_append_left hOld] at hPlace
      exact h.latest place hPlace
    · obtain ⟨e, he, hSame⟩ := Option.map_eq_some_iff.mp hPlace
      rw [List.getElem?_append_right (Nat.le_of_not_lt hOld), List.getElem?_singleton] at he
      split at he
      · exact absurd hSame (Option.some.inj he ▸ hName)
      · cases he

theorem findModel?_concat (known : List ModelRef) (m : ModelRef) (name : String) :
    findModel? (known ++ [m]) name = if m.id = name then some m else findModel? known name := by
  unfold findModel?
  rw [List.reverse_concat, List.find?_cons]
  by_cases h : m.id = name
  · rw [if_pos h, beq_iff_eq.mpr h]
  · rw [if_neg h, beq_eq_false_iff_ne.mpr h]

theorem references_concat (ds : List Declaration) (d : Declaration) :
    Declaration.references (ds ++ [d]) = Declaration.references ds ++ [⟨ds.length, d.name⟩] := by
  simp [Declaration.references, List.zipIdx_append]

/-- The index of the declarations finds the last one of a name that is declared, and no other. -/
theorem findModel?_references (ds : List Declaration) (name : String) :
    (∃ r, findModel? (Declaration.references ds) name = some r ∧ IsLatest ds name r) ∨
      findModel? (Declaration.references ds) name = none ∧ name ∉ ds.map Declaration.name := by
  induction ds using List.reverseRecOn with
  | nil => exact .inr ⟨rfl, List.not_mem_nil⟩
  | append_singleton ds d ih =>
    rw [references_concat, findModel?_concat]
    by_cases hName : d.name = name
    · subst hName
      exact .inl ⟨_, if_pos rfl, isLatest_concat_self ds d⟩
    · rw [if_neg hName]
      rcases ih with ⟨r, hFind, hLatest⟩ | ⟨hNone, hNew⟩
      · exact .inl ⟨r, hFind, hLatest.concat_of_ne hName⟩
      · refine .inr ⟨hNone, ?_⟩
        rw [List.map_append, List.mem_append, List.map_singleton, List.mem_singleton, not_or]
        exact ⟨hNew, Ne.symm hName⟩

theorem IsLatest.mem (h : IsLatest ds name r) : name ∈ ds.map Declaration.name := by
  obtain ⟨d, hd, hName⟩ := Option.map_eq_some_iff.mp h.declared
  exact hName ▸ List.mem_map_of_mem (List.mem_of_getElem? hd)

theorem findModel?_references_eq_some_iff :
    findModel? (Declaration.references ds) name = some r ↔ IsLatest ds name r := by
  rcases findModel?_references ds name with ⟨r', hFind, hLatest⟩ | ⟨hNone, hNew⟩
  · rw [hFind, Option.some.injEq]
    exact ⟨fun hSame => hSame ▸ hLatest, hLatest.unique⟩
  · rw [hNone]
    exact ⟨nofun, fun hLatest => absurd hLatest.mem hNew⟩

theorem findModel?_references_eq_none_iff :
    findModel? (Declaration.references ds) name = none ↔ name ∉ ds.map Declaration.name := by
  rcases findModel?_references ds name with ⟨r', hFind, hLatest⟩ | ⟨hNone, hNew⟩
  · rw [hFind]
    exact ⟨nofun, fun hNew => absurd hLatest.mem hNew⟩
  · exact iff_of_true hNone hNew

/-! ## Fields -/

theorem denotes_iff {text : String} {t : TypeRef} :
    Denotes ds text t ↔ resolve (Declaration.references ds) text = t := by
  unfold resolve
  constructor
  · intro h
    cases h with
    | model h => rw [findModel?_references_eq_some_iff.mpr h]
    | text h => rw [findModel?_references_eq_none_iff.mpr h]
  · rintro rfl
    cases hFind : findModel? (Declaration.references ds) (Text.trim text) with
    | some r => exact .model (findModel?_references_eq_some_iff.mp hFind)
    | none => exact .text (findModel?_references_eq_none_iff.mp hFind)

theorem forall₂_iff_map_eq_map {β γ δ : Type} {R : β → γ → Prop} {f : β → δ} {g : γ → δ}
    (h : ∀ x y, R x y ↔ f x = g y) (xs : List β) (ys : List γ) :
    List.Forall₂ R xs ys ↔ xs.map f = ys.map g := by
  obtain rfl : R = fun x y => f x = g y := funext₂ fun x y => propext (h x y)
  have hEq : List.Forall₂ Eq (xs.map f) (ys.map g) ↔ xs.map f = ys.map g := by
    rw [List.forall₂_eq_eq_eq]
  rw [← hEq, List.forall₂_map_left_iff, List.forall₂_map_right_iff]

theorem forall₂_denotes_iff {texts : List String} {ts : List TypeRef} :
    List.Forall₂ (Denotes ds) texts ts ↔ texts.map (resolve (Declaration.references ds)) = ts := by
  rw [forall₂_iff_map_eq_map (R := Denotes ds) (g := id) fun _ _ => denotes_iff, List.map_id]

theorem classifies_iff {f : DeclaredField} {field : Field} :
    Classifies ds f field ↔ classify (Declaration.references ds) f = field := by
  unfold classify
  constructor
  · intro h
    cases h with
    | array hShape h => simp only [hShape, denotes_iff.mp h]
    | generic hShape hName h =>
      simp only [hShape, String.isEmpty_iff, hName, if_false, forall₂_denotes_iff.mp h]
    | model hShape h => simp only [hShape, findModel?_references_eq_some_iff.mpr h]
    | nameless hShape => simp [hShape]
    | undeclared hShape h => simp only [hShape, findModel?_references_eq_none_iff.mpr h]
    | other hShape => simp only [hShape]
  · rintro rfl
    split
    · exact .array ‹_› (denotes_iff.mpr rfl)
    · rename_i name arguments hShape
      by_cases hName : name = ""
      · subst hName
        exact .nameless hShape
      · rw [if_neg (mt String.isEmpty_iff.mp hName)]
        exact .generic hShape hName (forall₂_denotes_iff.mpr rfl)
    · split
      · exact .model ‹_› (findModel?_references_eq_some_iff.mp ‹_›)
      · exact .undeclared ‹_› (findModel?_references_eq_none_iff.mp ‹_›)
    · exact .other ‹_›

/-! ## The graph -/

def Model.outline (m : Model) : String × List Field × List ModelRef :=
  (m.id, m.schema, m.dependencies)

def Declaration.outline (known : List ModelRef) (d : Declaration) :
    String × List Field × List ModelRef :=
  (d.name, d.fields.map (classify known), d.targets known)

variable {ms ms' : List Model}

theorem forall₂_classifies_iff {fields : List DeclaredField} {schema : List Field} :
    List.Forall₂ (Classifies ds) fields schema ↔
      fields.map (classify (Declaration.references ds)) = schema := by
  rw [forall₂_iff_map_eq_map (R := Classifies ds) (g := id) fun _ _ => classifies_iff, List.map_id]

theorem describes_iff {d : Declaration} {m : Model} :
    Describes ds d m ↔ d.outline (Declaration.references ds) = m.outline := by
  simp only [Declaration.outline, Declaration.targets, Model.outline, Prod.mk.injEq]
  constructor
  · rintro ⟨hId, hSchema, hDependencies⟩
    rw [forall₂_classifies_iff.mp hSchema]
    exact ⟨hId.symm, rfl, hDependencies.symm⟩
  · rintro ⟨hId, hSchema, hDependencies⟩
    refine ⟨hId.symm, forall₂_classifies_iff.mpr hSchema, ?_⟩
    rw [← hDependencies, hSchema]

theorem forall₂_describes_iff :
    List.Forall₂ (Describes ds) ds ms ↔
      ds.map (Declaration.outline (Declaration.references ds)) = ms.map Model.outline :=
  forall₂_iff_map_eq_map (R := Describes ds) (fun _ _ => describes_iff) ds ms

theorem dependants_of_outlines (ms : List Model) (target : ModelRef) :
    (ms.zipIdx.flatMap fun (source, from_) =>
      List.replicate (source.dependencies.count target) (⟨from_, source.id⟩ : ModelRef)) =
    (ms.map Model.outline).zipIdx.flatMap fun (source, from_) =>
      List.replicate (source.2.2.count target) ⟨from_, source.1⟩ := by
  rw [List.zipIdx_map, List.flatMap_map]
  rfl

theorem IsGraph.unique (h : IsGraph ds ms) (h' : IsGraph ds ms') : ms = ms' := by
  have hOutlines : ms.map Model.outline = ms'.map Model.outline :=
    (forall₂_describes_iff.mp h.models).symm.trans (forall₂_describes_iff.mp h'.models)
  apply List.ext_getElem?
  intro place
  have hPlace : ms[place]?.map Model.outline = ms'[place]?.map Model.outline := by
    rw [← List.getElem?_map, ← List.getElem?_map, hOutlines]
  cases hm : ms[place]? with
  | none =>
    rw [hm, Option.map_none, eq_comm, Option.map_eq_none_iff] at hPlace
    exact hPlace.symm
  | some m =>
    rw [hm, Option.map_some, eq_comm, Option.map_eq_some_iff] at hPlace
    obtain ⟨m', hm', hOutline⟩ := hPlace
    simp only [Model.outline, Prod.mk.injEq] at hOutline
    obtain ⟨hId, hSchema, hDependencies⟩ := hOutline
    have hDependants : m.dependants = m'.dependants := by
      rw [h.dependants place m hm, h'.dependants place m' hm', dependants_of_outlines,
        dependants_of_outlines, hOutlines, hId]
    rw [hm']
    cases m
    cases m'
    simp_all

theorem countP_targets {place : Nat} {d : Declaration} (hd : ds[place]? = some d)
    (source : Declaration) :
    (source.targets (Declaration.references ds)).countP (fun t => t.place == place) =
      (source.targets (Declaration.references ds)).count ⟨place, d.name⟩ := by
  rw [List.count_eq_countP]
  refine List.countP_congr fun t ht => ?_
  obtain ⟨e, he, hName⟩ := mem_references_iff.mp (source.targets_subset _ ht)
  rw [beq_iff_eq, beq_iff_eq]
  constructor
  · rintro rfl
    rw [Option.some.inj (hd.symm.trans he), hName]
  · rintro rfl
    rfl

theorem isGraph_ofDeclarations (ds : List Declaration) : IsGraph ds (Model.ofDeclarations ds) := by
  have hOutlines : ds.map (Declaration.outline (Declaration.references ds)) =
      (Model.ofDeclarations ds).map Model.outline := by
    calc ds.map (Declaration.outline (Declaration.references ds))
      _ = (ds.zipIdx.map Prod.fst).map (Declaration.outline (Declaration.references ds)) := by
        rw [List.zipIdx_map_fst]
      _ = (Model.ofDeclarations ds).map Model.outline := by
        rw [Model.ofDeclarations_eq, List.map_map, List.map_map]
        rfl
  refine ⟨forall₂_describes_iff.mpr hOutlines, fun place m hm => ?_⟩
  rw [dependants_of_outlines, ← hOutlines, List.zipIdx_map, List.flatMap_map]
  rw [Model.ofDeclarations_eq, List.getElem?_map, List.getElem?_zipIdx, Option.map_map,
    Option.map_eq_some_iff] at hm
  obtain ⟨d, hd, rfl⟩ := hm
  simp only [Function.comp_apply, Nat.zero_add]
  refine List.flatMap_congr fun source _ => congrArg (List.replicate · _) ?_
  exact countP_targets hd source.1

theorem IsGraph.count_eq (h : IsGraph ds ms) {i j : Nat} {x y : Model} (hx : ms[i]? = some x)
    (hy : ms[j]? = some y) :
    y.dependants.count ⟨i, x.id⟩ = x.dependencies.count ⟨j, y.id⟩ := by
  rw [h.dependants j y hy]
  have hKeys : (ms.zipIdx.map fun e => (⟨e.2, e.1.id⟩ : ModelRef)).Nodup := by
    apply List.Nodup.of_map ModelRef.place
    rw [List.map_map]
    change (ms.zipIdx.map Prod.snd).Nodup
    rw [List.zipIdx_map_snd]
    exact List.nodup_range'
  have hMem : (x, i) ∈ ms.zipIdx := List.mem_zipIdx_iff_getElem?.mpr hx
  exact count_flatMap_replicate hKeys (fun e => e.1.dependencies.count ⟨j, y.id⟩) hMem

theorem IsGraph.dependencies (h : IsGraph ds ms) :
    ∀ m ∈ ms, m.dependencies = m.schema.flatMap Field.references := by
  have hAll : ∀ (ds' : List Declaration) (ms' : List Model),
      List.Forall₂ (Describes ds) ds' ms' →
      ∀ m ∈ ms', m.dependencies = m.schema.flatMap Field.references := by
    intro ds' ms' hModels
    induction hModels with
    | nil => exact fun _ hm => nomatch hm
    | cons hFirst _ ih => exact List.forall_mem_cons.mpr ⟨hFirst.dependencies, ih⟩
  exact hAll ds ms h.models

/-- The graph of the declarations is the one that they describe, and there is no other. Of any two
models, also of one and itself, one depends on the other as often as it is a dependant of it, and as
often as its fields refer to it. -/
theorem graph_is_the_described_one (ds : List Declaration) :
    let ms := Model.ofDeclarations ds
    IsGraph ds ms ∧ (∀ ms', IsGraph ds ms' → ms' = ms) ∧
      ∀ (i j : Nat) (x y : Model), ms[i]? = some x → ms[j]? = some y →
        x.dependencies.count ⟨j, y.id⟩ = y.dependants.count ⟨i, x.id⟩ ∧
        x.dependencies.count ⟨j, y.id⟩ =
          (x.schema.map fun f => f.references.count ⟨j, y.id⟩).sum := by
  intro ms
  have h : IsGraph ds ms := isGraph_ofDeclarations ds
  refine ⟨h, fun ms' h' => h'.unique h, fun i j x y hx hy => ⟨(h.count_eq hx hy).symm, ?_⟩⟩
  rw [h.dependencies x (List.mem_of_getElem? hx), List.count_flatMap]
  rfl

/-- A name is declared twice. Every field that names it refers to the second declaration, also the
field of the first one, that of the second one itself, and both arguments of one type. -/
theorem graph_of_repeated_name_is_the_described_one :
    let ds : List Declaration :=
      [⟨"A", [⟨"next", "A", .name⟩], 1⟩,
        ⟨"B", [⟨"all", "Map<A, A>", .generic "Map" ["A", " A "]⟩, ⟨"text", "string", .name⟩], 2⟩,
        ⟨"A", [⟨"self", "A", .name⟩, ⟨"rest", "Map<B, A>", .generic "Map" ["B", "A"]⟩], 3⟩]
    let ms := Model.ofDeclarations ds
    ms.map Model.dependants =
      [[], [⟨2, "A"⟩], [⟨0, "A"⟩, ⟨1, "B"⟩, ⟨1, "B"⟩, ⟨2, "A"⟩, ⟨2, "A"⟩]] ∧
    ∃ x y, ms[1]? = some x ∧ ms[2]? = some y ∧
      x.dependencies.count ⟨2, y.id⟩ = y.dependants.count ⟨1, x.id⟩ ∧
      x.dependencies.count ⟨2, y.id⟩ =
        (x.schema.map fun f => f.references.count ⟨2, y.id⟩).sum := by
  intro ds ms
  obtain ⟨_, _, hCounts⟩ := graph_is_the_described_one ds
  obtain ⟨x, hx⟩ := Option.isSome_iff_exists.mp (show ms[1]?.isSome = true by decide +kernel)
  obtain ⟨y, hy⟩ := Option.isSome_iff_exists.mp (show ms[2]?.isSome = true by decide +kernel)
  exact ⟨by decide +kernel, x, y, hx, hy, hCounts 1 2 x y hx hy⟩

end TypeDiagram
