import TypeDiagram.Proofs.Source.DeclaredName
import TypeDiagram.Proofs.Source.Register

/-! # Names that are declared again

A source declares a name as its last sound declaration states it, at the place of its first one.
Statements that are no sound declarations might as well be missing.
-/

namespace TypeDiagram.Source

/-- A statement without a sound declaration counts for nothing, wherever it stands. -/
theorem declared_of_no_sound_declaration {m : Node} (h : soundDeclarations [m] = [])
    (before after : List Node) : declared (before ++ m :: after) = declared (before ++ after) := by
  have hSplit (ns ms : List Node) :
      soundDeclarations (ns ++ ms) = soundDeclarations ns ++ soundDeclarations ms := by
    simp only [soundDeclarations, List.filterMap_append, List.filter_append]
  rw [declared, declared, stated, stated, hSplit, ← List.singleton_append, hSplit, h,
    List.nil_append, hSplit]

/-- Some statements have one entry for each name that the sound declarations among them state: the
last one of them, at the place of the first. So no name comes twice, and a statement without a sound
declaration could be left out. Those of a source text are what it declares, and each interface and
each alias among them with nothing wrong in it is stated under its name. -/
theorem last_sound_declaration_wins (statements : List Node) :
    (∀ d, d ∈ declared statements ↔ IsFinal (stated statements) d) ∧
      (declared statements).map Declaration.name =
        ((stated statements).map Declaration.name).eraseDups ∧
      ((declared statements).map Declaration.name).Nodup ∧
      (∀ before m after, statements = before ++ m :: after → soundDeclarations [m] = [] →
        declared statements = declared (before ++ after)) ∧
      ∀ source, topLevel source = statements → declarations source = declared statements ∧
        (stated statements).map (fun d => some d.name) =
          (soundDeclarations statements).map fun n => (n.child? .name).map Node.text := by
  refine ⟨fun d => mem_declared_iff, names_declared _, nodup_names _, ?_, ?_⟩
  · rintro before m after rfl hNone
    exact declared_of_no_sound_declaration hNone before after
  · rintro source rfl
    exact ⟨rfl, names_stated source⟩

def propertyB : Node :=
  .branch none (.category .propertySignature)
    [token 4 (some .name) (.renamed .propertyIdentifier) " " "b",
      .branch (some .type) (.category .typeAscription)
        [mark 4 "" ":", token 4 none (.renamed .typeIdentifier) " " "B"]]

/-- Aliases on four lines: of `A`, of `A` without a type, of `B`, and of `A` with a property. -/
def aliases : List Node :=
  [aliasOf 1 "" "A" (objectOf 1 []), aliasOf 2 "\n" "A" (token 2 (some .value) .missing "" ""),
    aliasOf 3 "\n" "B" (objectOf 3 []),
    aliasOf 4 "\n" "A" (objectOf 4 [propertyB, token 4 none (.terminal .automaticSemicolon) "" ""]),
    token 4 none (.terminal .endOfSource) "" ""]

/-- `A` stands in front of `B` and is what the last line says of it, and the second line, where a
type is missing, could be left out. -/
theorem last_alias_wins_over_malformed :
    let first : Declaration := ⟨"A", [], 1⟩
    let last : Declaration := ⟨"A", [⟨"b", "B", .name⟩], 4⟩
    textOf aliases = "type A = {};\ntype A =;\ntype B = {};\ntype A = { b: B};" ∧
      stated aliases = [first, ⟨"B", [], 3⟩, last] ∧
      (declared aliases).map Declaration.name = ["A", "B"] ∧
      last ∈ declared aliases ∧ first ∉ declared aliases ∧
      declared aliases = declared (aliases.eraseIdx 1) := by
  intro first last
  obtain ⟨hMem, hNames, _, hSkips, _⟩ := last_sound_declaration_wins aliases
  have hStated : stated aliases = [first, ⟨"B", [], 3⟩, last] := by decide
  rw [hStated] at hMem hNames
  refine ⟨by decide, hStated, hNames.trans (by decide), ?_, fun hFirst => ?_,
    hSkips [aliasOf 1 "" "A" (objectOf 1 [])] _ _ rfl (by decide)⟩
  · exact (hMem last).mpr ⟨[first, ⟨"B", [], 3⟩], [], rfl, List.not_mem_nil⟩
  · obtain ⟨before, after, hSplit, hName⟩ := (hMem first).mp hFirst
    cases before with
    | nil =>
      obtain rfl := (List.cons.inj hSplit).2
      exact hName (by decide)
    | cons d before =>
      have hIn : first ∈ [⟨"B", [], 3⟩, last] :=
        (List.cons.inj hSplit).2 ▸ List.mem_append_right before List.mem_cons_self
      exact absurd hIn (by decide)

end TypeDiagram.Source
