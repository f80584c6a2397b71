import Mathlib.Data.List.Perm.Basic
import TypeDiagram.Proofs.Model.Linking

/-! # The order of declarations does not matter

A name is looked up among all declared names, before and after the place where it is used. So what a
field refers to depends on which names are declared, and the places of the models are all that the
order of the declarations decides. Dependants are recorded while other declarations are gone
through; they come in the order of those declarations.
-/

namespace TypeDiagram

/-! ## References without places -/

def ModelRef.unplaced (r : ModelRef) : ModelRef := ⟨0, r.id⟩

def TypeRef.unplaced : TypeRef → TypeRef
  | .model target => .model target.unplaced
  | .text s => .text s

def Field.unplaced : Field → Field
  | .primitive name type => .primitive name type
  | .array name element => .array name element.unplaced
  | .reference name referenceName arguments =>
    .reference name referenceName (arguments.map TypeRef.unplaced)
  | .model name target => .model name target.unplaced

@[simp] theorem TypeRef.toDocument_unplaced {ν : Type} (t : TypeRef) :
    (t.unplaced.toDocument : Document ν) = t.toDocument := by cases t <;> rfl

theorem TypeRef.target?_unplaced (t : TypeRef) :
    t.unplaced.target? = t.target?.map ModelRef.unplaced := by cases t <;> rfl

theorem Field.toDocument_unplaced {ν : Type} (f : Field) :
    (f.unplaced.toDocument : Document ν) = f.toDocument := by
  cases f with
  | primitive | model => rfl
  | array | reference => simp [unplaced, toDocument]

theorem Field.ids_references_unplaced (f : Field) :
    f.unplaced.references.map ModelRef.id = f.references.map ModelRef.id := by
  cases f with
  | primitive | model => rfl
  | array name element => cases element <;> rfl
  | reference name referenceName arguments =>
    simp only [unplaced, references, List.filterMap_map, List.map_filterMap, Function.comp_apply,
      TypeRef.target?_unplaced, Option.map_map]
    rfl

/-! ## Resolution by names -/

section Resolution

variable {known known' : List ModelRef}

theorem findModel?_unplaced (known : List ModelRef) (name : String) :
    (findModel? known name).map ModelRef.unplaced =
      if name ∈ known.map ModelRef.id then some ⟨0, name⟩ else none := by
  unfold findModel?
  cases hFind : known.reverse.find? fun m => m.id == name with
  | none =>
    rw [if_neg, Option.map_none]
    simpa using hFind
  | some m =>
    have hName : m.id = name := by simpa using List.find?_some hFind
    rw [if_pos (List.mem_map.mpr ⟨m, Model.findModel?_mem hFind, hName⟩), ← hName]
    rfl

theorem resolve_unplaced (known : List ModelRef) (text : String) :
    (resolve known text).unplaced =
      if Text.trim text ∈ known.map ModelRef.id then .model ⟨0, Text.trim text⟩
      else .text text := by
  have hFind := findModel?_unplaced known (Text.trim text)
  unfold resolve
  cases hModel : findModel? known (Text.trim text) <;> rw [hModel] at hFind <;>
    split at hFind <;> simp_all [TypeRef.unplaced]

variable (h : ∀ name, name ∈ known.map ModelRef.id ↔ name ∈ known'.map ModelRef.id)

include h

/-- What a field refers to by name depends on no more than the names that are declared. -/
theorem classify_unplaced (f : DeclaredField) :
    (classify known f).unplaced = (classify known' f).unplaced := by
  have hResolve : ∀ text, (resolve known text).unplaced = (resolve known' text).unplaced := by
    simp [resolve_unplaced, h]
  unfold classify
  cases f.shape with
  | array element => exact congrArg (Field.array f.name) (hResolve element)
  | generic name arguments =>
    dsimp only
    split
    · rfl
    · simp [Field.unplaced, Function.comp_def, hResolve]
  | name =>
    have hFind := findModel?_unplaced known f.typeText
    rw [if_congr (h _) rfl rfl, ← findModel?_unplaced known'] at hFind
    cases hModel : findModel? known f.typeText <;>
      cases hModel' : findModel? known' f.typeText <;> simp_all [Field.unplaced]
  | other => rfl

theorem schema_toDocument {ν : Type} (fields : List DeclaredField) :
    ((fields.map (classify known)).map Field.toDocument : List (Document ν)) =
      (fields.map (classify known')).map Field.toDocument := by
  simp only [List.map_map]
  refine List.map_congr_left fun f _ => ?_
  rw [Function.comp_apply, ← Field.toDocument_unplaced, classify_unplaced h,
    Field.toDocument_unplaced]
  rfl

theorem targetIds_eq (d : Declaration) :
    (d.targets known).map ModelRef.id = (d.targets known').map ModelRef.id := by
  simp only [Declaration.targets, List.flatMap_map, List.map_flatMap]
  refine List.flatMap_congr fun f _ => ?_
  rw [← Field.ids_references_unplaced, classify_unplaced h, Field.ids_references_unplaced]

end Resolution

theorem ids_references (ds : List Declaration) :
    (Declaration.references ds).map ModelRef.id = ds.map Declaration.name := by
  nth_rewrite 2 [← List.zipIdx_map_fst 0 ds]
  rw [Declaration.references, List.map_map, List.map_map]
  rfl

theorem filter_eq_singleton {β κ : Type} [DecidableEq κ] {key : β → κ} {xs : List β}
    (h : (xs.map key).Nodup) {x : β} (hx : x ∈ xs) :
    xs.filter (fun y => key y == key x) = [x] := by
  induction xs with
  | nil => cases hx
  | cons y ys ih =>
    obtain ⟨hNew, hRest⟩ := List.nodup_cons.mp h
    rcases List.mem_cons.mp hx with rfl | hLater
    · rw [List.filter_cons_of_pos (by simp), List.filter_eq_nil_iff.mpr]
      intro z hz hSame
      exact hNew (beq_iff_eq.mp hSame ▸ List.mem_map_of_mem hz)
    · rw [List.filter_cons_of_neg, ih hRest hLater]
      intro hSame
      exact hNew (beq_iff_eq.mp hSame ▸ List.mem_map_of_mem hLater)

theorem count_flatMap_replicate {β κ : Type} [DecidableEq κ] {key : β → κ} {xs : List β}
    (h : (xs.map key).Nodup) (times : β → Nat) {x : β} (hx : x ∈ xs) :
    (xs.flatMap fun y => List.replicate (times y) (key y)).count (key x) = times x := by
  induction xs with
  | nil => cases hx
  | cons y ys ih =>
    obtain ⟨hNew, hRest⟩ := List.nodup_cons.mp h
    rw [List.flatMap_cons, List.count_append, List.count_replicate]
    rcases List.mem_cons.mp hx with rfl | hLater
    · rw [if_pos (beq_self_eq_true _), List.count_eq_zero.mpr, Nat.add_zero]
      intro hIn
      obtain ⟨z, hz, hKey⟩ := List.mem_flatMap.mp hIn
      exact hNew ((List.mem_replicate.mp hKey).2 ▸ List.mem_map_of_mem hz)
    · have hOther : key y ≠ key x := fun hSame => hNew (hSame ▸ List.mem_map_of_mem hLater)
      rw [ih hRest hLater, if_neg (by simpa using hOther), Nat.zero_add]

namespace Model

variable {ds ds' : List Declaration}

/-- Where names are distinct, a reference to a place is one to the name that is declared there. -/
theorem place_eq_iff (hDistinct : (ds.map Declaration.name).Nodup) {t : ModelRef}
    (ht : t ∈ Declaration.references ds) {d : Declaration} {place : Nat}
    (hd : ds[place]? = some d) : t.place = place ↔ t.id = d.name := by
  obtain ⟨e, he, hName⟩ := mem_references_iff.mp ht
  rw [← hName]
  constructor
  · rintro rfl
    rw [Option.some.inj (he.symm.trans hd)]
  · intro hNamesake
    have hLt : t.place < (ds.map Declaration.name).length := by
      rw [List.length_map]
      exact (List.getElem?_eq_some_iff.mp he).1
    exact (List.getElem?_inj hLt hDistinct).mp (by simp [he, hd, hNamesake])

theorem exists_named (hDistinct : (ds.map Declaration.name).Nodup) {d : Declaration}
    (hd : d ∈ ds) :
    let known := Declaration.references ds
    ∃ m, (ofDeclarations ds).filter (fun m => m.id == d.name) = [m] ∧
      m.schema = d.fields.map (classify known) ∧
      m.dependencyIds = (d.targets known).map ModelRef.id ∧
      m.dependantIds = ds.flatMap fun e =>
        List.replicate (((e.targets known).map ModelRef.id).count d.name) e.name := by
  intro known
  obtain ⟨place, hPlace⟩ := List.mem_iff_getElem?.mp hd
  have hModels := ofDeclarations_eq ds
  have hIn : (d, place) ∈ ds.zipIdx := List.mem_zipIdx_iff_getElem?.mpr hPlace
  have hIds : ((ofDeclarations ds).map Model.id).Nodup := ids_ofDeclarations ds ▸ hDistinct
  rw [hModels] at hIds ⊢
  refine ⟨_, filter_eq_singleton hIds (List.mem_map_of_mem hIn), rfl, rfl, ?_⟩
  have hCount : ∀ e : Declaration, ((e.targets known).map ModelRef.id).count d.name =
      (e.targets known).countP fun t => t.place == place := by
    intro e
    rw [List.count, List.countP_map]
    refine List.countP_congr fun t ht => ?_
    rw [Function.comp_apply, beq_iff_eq, beq_iff_eq]
    exact (place_eq_iff hDistinct (e.targets_subset known ht) hPlace).symm
  simp only [hCount, dependantIds, List.map_flatMap, List.map_replicate]
  exact flatMap_fst_zipIdx
    (fun e => List.replicate ((e.targets known).countP fun t => t.place == place) e.name) ds

/-- However the declarations are ordered, each name has one model, with the same fields as documents
show them and the same dependencies. Its dependants are the same, equally often; each is named by
the declarations in turn, all its references at once. -/
theorem order_of_declarations_is_irrelevant (hPerm : ds.Perm ds')
    (hDistinct : (ds.map Declaration.name).Nodup) :
    ∀ d ∈ ds, ∃ m m', (ofDeclarations ds).filter (fun m => m.id == d.name) = [m] ∧
      (ofDeclarations ds').filter (fun m => m.id == d.name) = [m'] ∧
      (∀ ν : Type, m.schema.map (Field.toDocument (ν := ν)) = m'.schema.map Field.toDocument) ∧
      m.dependencyIds = m'.dependencyIds ∧ m.dependantIds.Perm m'.dependantIds ∧
      m'.dependantIds =
        ds'.flatMap fun e => List.replicate (m.dependantIds.count e.name) e.name := by
  intro d hd
  have hDistinct' : (ds'.map Declaration.name).Nodup := (hPerm.map _).nodup_iff.mp hDistinct
  have hNames : ∀ name, name ∈ (Declaration.references ds).map ModelRef.id ↔
      name ∈ (Declaration.references ds').map ModelRef.id := by
    intro name
    rw [ids_references, ids_references]
    exact (hPerm.map _).mem_iff
  obtain ⟨m, hOnly, hSchema, hDependencies, hDependants⟩ := exists_named hDistinct hd
  obtain ⟨m', hOnly', hSchema', hDependencies', hDependants'⟩ :=
    exists_named hDistinct' (hPerm.mem_iff.mp hd)
  refine ⟨m, m', hOnly, hOnly', ?_, ?_, ?_, ?_⟩
  · intro ν
    rw [hSchema, hSchema', schema_toDocument hNames]
  · rw [hDependencies, hDependencies', targetIds_eq hNames]
  · rw [hDependants, hDependants']
    simp only [targetIds_eq hNames]
    exact hPerm.flatMap_right _
  · rw [hDependants']
    refine List.flatMap_congr fun e he => ?_
    rw [hDependants, count_flatMap_replicate hDistinct _ (hPerm.mem_iff.mpr he),
      targetIds_eq hNames]

/-- Three models refer to themselves and to one another, and two of them to the first. Reversing the
declarations reverses the models that refer to it, not what each of them says. -/
theorem order_of_declarations_of_cycle_is_irrelevant :
    let ds : List Declaration :=
      [⟨"A", [⟨"next", "B", .name⟩, ⟨"all", "A[]", .array "A"⟩], 1⟩,
        ⟨"B", [⟨"both", "Map<A, C>", .generic "Map" ["A", "C"]⟩], 5⟩,
        ⟨"C", [⟨"first", "A", .name⟩, ⟨"rest", "Map<A, B>", .generic "Map" ["A", "B"]⟩], 8⟩]
    ∃ m m', (ofDeclarations ds).filter (fun m => m.id == "A") = [m] ∧
      (ofDeclarations ds.reverse).filter (fun m => m.id == "A") = [m'] ∧
      m.dependencyIds = ["B", "A"] ∧ m.dependencyIds = m'.dependencyIds ∧
      m.dependantIds = ["A", "B", "C", "C"] ∧ m'.dependantIds = ["C", "C", "B", "A"] ∧
      m.dependantIds.Perm m'.dependantIds := by
  intro ds
  obtain ⟨m, m', hOnly, hOnly', _, hDependencies, hDependants, _⟩ :=
    order_of_declarations_is_irrelevant (List.reverse_perm ds).symm (by decide) ⟨"A", _, 1⟩
      List.mem_cons_self
  have hFirst : ((ofDeclarations ds).filter fun m => m.id == "A").map
      (fun m => (m.dependencyIds, m.dependantIds)) = [(["B", "A"], ["A", "B", "C", "C"])] := by
    decide +kernel
  have hLast : ((ofDeclarations ds.reverse).filter fun m => m.id == "A").map dependantIds =
      [["C", "C", "B", "A"]] := by
    decide +kernel
  rw [hOnly, List.map_singleton, List.singleton_inj, Prod.mk.injEq] at hFirst
  rw [hOnly', List.map_singleton, List.singleton_inj] at hLast
  exact ⟨m, m', hOnly, hOnly', hFirst.1, hDependencies, hFirst.2, hLast, hDependants⟩

end Model

end TypeDiagram
