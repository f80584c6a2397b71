import TypeDiagram.Proofs.OrderedMap
import TypeDiagram.Proofs.Sequence
import TypeDiagram.Source.Reading

/-! # The register of declarations

Whatever is filed in a register, its map sends each name to its place. So a declaration is filed
where the one of its name stands, and what is declared at last can be told without the map: the
last declaration of each name, where the name comes first.
-/

namespace TypeDiagram.Source

variable {ds : List Declaration} {d e : Declaration}

/-! ## Places of names -/

namespace Register

variable {r : Register}

/-- The map sends each name to its place, and other names nowhere. -/
def IsIndexed (r : Register) : Prop := ∀ name place,
  r.places.get? name = some place ↔ (r.declarations.map Declaration.name)[place]? = some name

theorem isIndexed_empty : empty.IsIndexed := fun _ _ => ⟨nofun, nofun⟩

theorem getElem?_concat_eq_some_iff {names : List String} {new name : String} {place : Nat} :
    (names ++ [new])[place]? = some name ↔
      names[place]? = some name ∨ place = names.length ∧ new = name := by
  rcases Nat.lt_trichotomy place names.length with h | rfl | h <;> grind

theorem map_name_set {place : Nat} (h : (ds.map Declaration.name)[place]? = some d.name) :
    (ds.set place d).map Declaration.name = ds.map Declaration.name := by
  obtain ⟨hIn, hName⟩ := List.getElem?_eq_some_iff.mp h
  rw [List.map_set, ← hName, List.set_getElem_self]

theorem IsIndexed.not_mem_names (h : r.IsIndexed) {name : String}
    (hNone : r.places.get? name = none) : name ∉ r.declarations.map Declaration.name := by
  intro hIn
  obtain ⟨place, hPlace⟩ := List.mem_iff_getElem?.mp hIn
  rw [(h name place).mpr hPlace] at hNone
  cases hNone

theorem IsIndexed.file (h : r.IsIndexed) (d : Declaration) : (r.file d).IsIndexed := by
  intro name place
  unfold Register.file
  split
  · rename_i old hOld
    rw [map_name_set ((h d.name old).mp hOld)]
    exact h name place
  · rename_i hNone
    rw [OrderedMap.get?_insert, List.map_append, List.map_singleton, getElem?_concat_eq_some_iff,
      List.length_map]
    by_cases hName : name = d.name
    · have hNowhere : (r.declarations.map Declaration.name)[place]? ≠ some name := fun hPlace =>
        h.not_mem_names hNone (hName ▸ List.mem_of_getElem? hPlace)
      rw [if_pos hName, Option.some_inj]
      exact ⟨fun hEnd => .inr ⟨hEnd.symm, hName.symm⟩,
        fun hPlace => (hPlace.resolve_left hNowhere).1.symm⟩
    · rw [if_neg hName]
      exact (h name place).trans ⟨.inl, fun hPlace =>
        hPlace.resolve_right fun hEnd => hName hEnd.2.symm⟩

theorem isIndexed_foldl (ds : List Declaration) : (ds.foldl Register.file empty).IsIndexed := by
  induction ds using List.reverseRecOn with
  | nil => exact isIndexed_empty
  | append_singleton ds d ih =>
    rw [List.foldl_append]
    exact ih.file d

end Register

/-! ## Filing by name -/

def addDeclaration (ds : List Declaration) (d : Declaration) : List Declaration :=
  if ds.any fun e => e.name == d.name then ds.map fun e => if e.name == d.name then d else e
  else ds ++ [d]

theorem any_name_eq_iff (ds : List Declaration) (d : Declaration) :
    (ds.any fun e => e.name == d.name) = true ↔ d.name ∈ ds.map Declaration.name := by
  simp [List.any_eq_true, List.mem_map]

theorem Register.IsIndexed.declarations_file {r : Register} (h : r.IsIndexed) (d : Declaration) :
    (r.file d).declarations = addDeclaration r.declarations d := by
  unfold Register.file addDeclaration
  split
  · rename_i place hPlace
    have hThere := (h d.name place).mp hPlace
    rw [if_pos ((any_name_eq_iff _ d).mpr (List.mem_of_getElem? hThere))]
    apply List.ext_getElem?
    intro i
    rw [List.getElem?_map]
    by_cases hSame : place = i
    · subst hSame
      rw [List.getElem?_map, Option.map_eq_some_iff] at hThere
      obtain ⟨old, hOld, hName⟩ := hThere
      have hIn := (List.getElem?_eq_some_iff.mp hOld).1
      rw [List.getElem?_set_self hIn, hOld, Option.map_some, if_pos (beq_iff_eq.mpr hName)]
    · rw [List.getElem?_set_ne hSame]
      cases hKept : r.declarations[i]? with
      | none => rfl
      | some kept =>
        have hName : kept.name ≠ d.name := fun hName => hSame (Option.some.inj
          (hPlace.symm.trans ((h d.name i).mpr (by rw [List.getElem?_map, hKept, ← hName]; rfl))))
        rw [Option.map_some, if_neg (mt beq_iff_eq.mp hName)]
  · rename_i hNone
    rw [if_neg (mt (any_name_eq_iff _ d).mp (h.not_mem_names hNone))]

theorem declared_eq (statements : List Node) :
    declared statements = (stated statements).foldl addDeclaration [] := by
  rw [declared]
  induction stated statements using List.reverseRecOn with
  | nil => rfl
  | append_singleton ds d ih =>
    rw [List.foldl_append, List.foldl_append, List.foldl_cons, List.foldl_nil, List.foldl_cons,
      List.foldl_nil, (Register.isIndexed_foldl ds).declarations_file, ih]

/-! ## The last declaration of each name -/

/-- The declaration is one of the list, and no later one has its name. -/
def IsFinal (ds : List Declaration) (d : Declaration) : Prop :=
  ∃ before after, ds = before ++ d :: after ∧ d.name ∉ after.map Declaration.name

theorem isFinal_concat_iff :
    IsFinal (ds ++ [e]) d ↔ d = e ∨ IsFinal ds d ∧ d.name ≠ e.name := by
  constructor
  · rintro ⟨before, after, hSplit, hName⟩
    rcases concat_eq_append_cons_iff.mp hSplit with ⟨_, hSame, _⟩ | ⟨rest, hRest, rfl⟩
    · exact .inl hSame.symm
    · rw [List.map_append, List.mem_append, not_or] at hName
      refine .inr ⟨⟨before, rest, hRest, hName.1⟩, fun hSame => hName.2 ?_⟩
      exact List.mem_singleton.mpr hSame
  · rintro (rfl | ⟨⟨before, after, rfl, hName⟩, hNe⟩)
    · exact ⟨ds, [], rfl, List.not_mem_nil⟩
    · refine ⟨before, after ++ [e], List.append_assoc _ _ _, ?_⟩
      rw [List.map_append, List.mem_append, not_or]
      exact ⟨hName, fun hSame => hNe (List.mem_singleton.mp hSame)⟩

theorem mem_addDeclaration_iff : d ∈ addDeclaration ds e ↔ d = e ∨ d ∈ ds ∧ d.name ≠ e.name := by
  unfold addDeclaration
  split
  · rename_i hAny
    obtain ⟨old, hOld, hName⟩ := List.any_eq_true.mp hAny
    rw [List.mem_map]
    constructor
    · rintro ⟨kept, hKept, rfl⟩
      by_cases hSame : kept.name = e.name
      · exact .inl (if_pos (beq_iff_eq.mpr hSame))
      · rw [if_neg (mt beq_iff_eq.mp hSame)]
        exact .inr ⟨hKept, hSame⟩
    · rintro (rfl | ⟨hKept, hNe⟩)
      · exact ⟨old, hOld, if_pos hName⟩
      · exact ⟨d, hKept, if_neg (mt beq_iff_eq.mp hNe)⟩
  · rename_i hNone
    have hNew : d ∈ ds → d.name ≠ e.name := fun hd hSame =>
      hNone (List.any_eq_true.mpr ⟨d, hd, beq_iff_eq.mpr hSame⟩)
    rw [List.mem_append, List.mem_singleton]
    exact ⟨fun h => h.symm.imp_right fun hd => ⟨hd, hNew hd⟩, fun h => h.symm.imp_left And.left⟩

theorem mem_declared_iff {statements : List Node} :
    d ∈ declared statements ↔ IsFinal (stated statements) d := by
  rw [declared_eq]
  induction stated statements using List.reverseRecOn with
  | nil => simp [IsFinal]
  | append_singleton ds e ih =>
    rw [List.foldl_append, List.foldl_cons, List.foldl_nil, mem_addDeclaration_iff, ih,
      isFinal_concat_iff]

theorem exists_declarationOf?_of_mem_declared {statements : List Node}
    (h : d ∈ declared statements) :
    ∃ n ∈ soundDeclarations statements, declarationOf? n = some d := by
  obtain ⟨before, after, hStated, _⟩ := mem_declared_iff.mp h
  have hIn : d ∈ stated statements := hStated ▸ List.mem_append_right before List.mem_cons_self
  exact List.mem_filterMap.mp hIn

theorem names_addDeclaration (ds : List Declaration) (d : Declaration) :
    (addDeclaration ds d).map Declaration.name =
      if d.name ∈ ds.map Declaration.name then ds.map Declaration.name
      else ds.map Declaration.name ++ [d.name] := by
  unfold addDeclaration
  by_cases h : d.name ∈ ds.map Declaration.name
  · rw [if_pos ((any_name_eq_iff ds d).mpr h), if_pos h, List.map_map]
    apply List.map_congr_left
    intro e _
    by_cases he : e.name = d.name <;> simp [he]
  · rw [if_neg (mt (any_name_eq_iff ds d).mp h), if_neg h, List.map_append]
    rfl

theorem names_declared (statements : List Node) : (declared statements).map Declaration.name =
    ((stated statements).map Declaration.name).eraseDups := by
  rw [declared_eq]
  induction stated statements using List.reverseRecOn with
  | nil => rfl
  | append_singleton ds e ih =>
    rw [List.foldl_append, List.foldl_cons, List.foldl_nil, names_addDeclaration, List.map_append,
      List.map_singleton, eraseDups_concat]
    simp only [ih, List.mem_eraseDups]

theorem nodup_names (statements : List Node) :
    ((declared statements).map Declaration.name).Nodup := by
  rw [names_declared]
  exact nodup_eraseDups _

end TypeDiagram.Source
