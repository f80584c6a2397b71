import TypeDiagram.Proofs.Model.Neighbours
import TypeDiagram.Proofs.Source.Cutting

/-! # Names of declarations

Behind the keyword of an interface or an alias stands an identifier, and only a word of the text is
read as one. So each of them that has nothing wrong with it is declared under its name, and no name
that is declared holds a mark.
-/

namespace TypeDiagram.Source

/-- If there is nothing wrong with the declaration, its name is a word. -/
def IsNamed (n : Node) : Prop :=
  isDeclaration n = true → n.isSound = true →
    ∃ name, n.child? .name = some name ∧ isWholeWord name.text.toList = true

theorem exists_category_of_isDeclaration {n : Node} (h : isDeclaration n = true) :
    ∃ c : Category, n.label = .category c ∧
      (c = .interfaceDeclaration ∨ c = .typeAliasDeclaration) := by
  rw [isDeclaration, Bool.or_eq_true, beq_iff_eq, beq_iff_eq] at h
  rcases h with hInterface | hAlias
  · exact ⟨_, hInterface, .inl rfl⟩
  · exact ⟨_, hAlias, .inr rfl⟩

namespace Subtree

theorem IsDerived.terminal {t : Subtree} {code : Nat} (h : IsDerived t)
    (hFits : t.FitsSymbol (.terminal code)) :
    t.children = [] ∧ t.facts.origin = .symbol (.terminal code) := by
  obtain ⟨y, hOrigin, rfl | ⟨g, hGroup, _⟩⟩ := hFits
  · refine ⟨?_, hOrigin⟩
    cases h with
    | leaf h => exact h.children
    | production _ hGroup =>
      cases hOrigin.symm.trans hGroup
    | skipped hError =>
      rw [facts] at hOrigin
      rw [hOrigin] at hError
      cases hError
  · cases hGroup

/-- A terminal is shown as one leaf. If it is an identifier that the text does not lack, the leaf
holds a word. -/
theorem exists_leaf {t : Subtree} {own : List Char} (h : t.Spells own) (hNone : t.children = [])
    (role? : Option Role) (shownAs? : Option Alias) (line : Nat) (rest : List Char) :
    ∃ l, (t.cut role? shownAs? line (own ++ rest)).1 = [.leaf role? l] ∧
      (t.facts.origin = .symbol (.terminal Terminal.identifier.code) →
        (Node.leaf role? l).isSound = true →
          isWholeWord (Node.leaf role? l).text.toList = true) := by
  cases h with
  | @leaf f gap own hPadding hSize _ hWord =>
    refine ⟨_, cut_leaf hPadding hSize role? shownAs? line rest, fun hOrigin hSound => ?_⟩
    rw [toList_text, Node.leaves, Node.spelling, List.flatMap_nil, List.append_nil]
    refine hWord (.inl hOrigin) (Bool.eq_false_iff.mpr fun hMissing => ?_)
    rw [Node.isSound, if_pos hMissing] at hSound
    cases hSound
  | node => cases hNone

/-- Where a production has a terminal, its leaf stands behind leaves and errors without a role. -/
theorem cutAll_of_terminal {ts : List Subtree} {cs : List Char} {code : Nat} {xs : List Symbol}
    (h : ∀ t ∈ ts, IsDerived t) (hSpell : SpellAll ts cs)
    (hSteps : List.Forall₂ FitsSymbol (bound ts) (.terminal code :: xs)) (form : Form)
    (place line : Nat) (rest : List Char) : ∃ before l line' more later,
      (cutAll form none place line (cs ++ rest) ts).1 = before ++
        .leaf (form.role? place) l :: (cutAll form none (place + 1) line' (more ++ rest) later).1 ∧
      (∀ m ∈ before, m.role? = none) ∧
      (code = Terminal.identifier.code → (Node.leaf (form.role? place) l).isSound = true →
        isWholeWord (Node.leaf (form.role? place) l).text.toList = true) ∧
      (∀ t ∈ later, IsDerived t) ∧ SpellAll later more ∧
      List.Forall₂ FitsSymbol (bound later) xs := by
  generalize hBound : bound ts = bounds at hSteps
  cases hSteps with
  | @cons first _ bounds _ hFits hSteps =>
    obtain ⟨before, line', own, more, line'', later, hCut, hBefore, hSpells, hMem, hLater, hRest⟩ :=
      cutAll_of_bound h hSpell hBound place line rest
    obtain ⟨hFirst, hBehind⟩ := List.forall_mem_cons.mp hMem
    obtain ⟨hNone, hOrigin⟩ := (h first hFirst).terminal hFits
    obtain ⟨l, hLeaf, hWord⟩ := exists_leaf hSpells hNone (form.role? place)
      (form.shownAs? place) line' (more ++ rest)
    rw [hLeaf, List.singleton_append] at hCut
    exact ⟨before, l, line'', more, later, hCut, hBefore, fun hCode => hWord (hCode ▸ hOrigin),
      fun t ht => h t (hBehind t ht), hLater, hRest ▸ hSteps⟩

theorem isNamed_cut : HoldsWhereCut IsNamed where
  leaf {f} h role? shownAs? l hLabel hDeclaration hSound := by
    obtain ⟨c, hCategory, hDeclares⟩ := exists_category_of_isDeclaration hDeclaration
    rw [Node.label, hLabel] at hCategory
    split at hCategory
    · cases hCategory
    · obtain ⟨p, hp, hGroup, _, hSteps, _⟩ := h.exists_production hCategory
      obtain ⟨_, _, _, hSplit, _⟩ := Production.steps_of_declaration hp hDeclares hGroup
      rw [hSplit] at hSteps
      cases hSteps
  branch {f children cs} h hSpell role? shownAs? line rest hDeclaration hSound := by
    obtain ⟨c, hCategory, hDeclares⟩ := exists_category_of_isDeclaration hDeclaration
    obtain ⟨p, hp, hGroup, hForm, hSteps, hChildren⟩ := h.exists_production hCategory
    obtain ⟨keyword, name, steps, hSplit, ⟨code, hKeyword⟩, hNoRole, hName, hRole⟩ :=
      Production.steps_of_declaration hp hDeclares hGroup
    have hRoles : f.form.role? 0 = none ∧ f.form.role? 1 = some .name := by
      rw [hForm, Production.form, hSplit, ← hNoRole, ← hRole]
      exact ⟨rfl, rfl⟩
    rw [hSplit, List.map_cons, List.map_cons, hKeyword, hName] at hSteps
    obtain ⟨before, l, line', more, later, hCut, hBefore, _, hDerived, hLater, hSteps⟩ :=
      cutAll_of_terminal hChildren hSpell hSteps f.form 0 line rest
    obtain ⟨between, l', _, _, _, hCut', hBetween, hWord, _⟩ :=
      cutAll_of_terminal hDerived hLater hSteps f.form 1 line' rest
    rw [hRoles.1] at hCut
    rw [hRoles.2] at hCut' hWord
    rw [hCut', ← List.cons_append, ← List.append_assoc] at hCut
    rw [hCut] at hSound ⊢
    have hFirst (m : Node) (hm : m ∈ before ++ .leaf none l :: between) : m.role? ≠ some .name := by
      intro hNamed
      rcases List.mem_append.mp hm with hm | hm
      · cases (hBefore m hm).symm.trans hNamed
      · rcases List.mem_cons.mp hm with rfl | hm
        · cases hNamed
        · cases (hBetween m hm).symm.trans hNamed
    refine ⟨_, Frame.child?_fill (c := ⟨role?, label shownAs? f, _, _⟩) hFirst rfl, hWord rfl ?_⟩
    rw [Node.isSound, Bool.and_eq_true, areSound_append, Bool.and_eq_true, Node.areSound,
      Bool.and_eq_true] at hSound
    exact hSound.2.2.1

end Subtree

variable {source : String} {n : Node}

theorem mem_nodesOf_of_soundDeclarations {statements : List Node}
    (h : n ∈ soundDeclarations statements) : n ∈ Node.nodesOf statements := by
  obtain ⟨statement, hStatement, hExported⟩ := List.mem_filterMap.mp (List.mem_filter.mp h).1
  refine mem_nodesOf_iff.mpr ⟨statement, hStatement, ?_⟩
  unfold exported? at hExported
  split at hExported
  · exact mem_nodes_of_mem_children (child?_mem_children hExported) (mem_nodes_self statement)
  · rw [← Option.some.inj hExported]
    exact mem_nodes_self statement

theorem map_name_declarationOf? (n : Node) :
    (declarationOf? n).map Declaration.name = (n.child? .name).map Node.text := by
  unfold declarationOf?
  cases n.child? .name <;> rfl

theorem exists_name_of_sound (h : n ∈ soundDeclarations (topLevel source)) :
    ∃ d, declarationOf? n = some d ∧ isWholeWord d.name.toList = true := by
  have hSound := (Bool.and_eq_true _ _).mp (List.mem_filter.mp h).2
  obtain ⟨name, hName, hWord⟩ := holds_of_mem_topLevel Subtree.isNamed_cut
    (mem_nodesOf_of_soundDeclarations h) hSound.1 hSound.2
  have hStated := map_name_declarationOf? n
  rw [hName, Option.map_some, Option.map_eq_some_iff] at hStated
  obtain ⟨d, hDeclared, hSame⟩ := hStated
  exact ⟨d, hDeclared, by rw [hSame, hWord]⟩

/-- Each interface and each alias at the top level that has nothing wrong with it is stated under
its name, in the order of the text. -/
theorem names_stated (source : String) : (stated (topLevel source)).map (fun d => some d.name) =
    (soundDeclarations (topLevel source)).map fun n => (n.child? .name).map Node.text := by
  have hNames (ns : List Node) (h : ∀ n ∈ ns, ∃ d, declarationOf? n = some d) :
      (ns.filterMap declarationOf?).map (fun d => some d.name) =
        ns.map fun n => (n.child? .name).map Node.text := by
    induction ns with
    | nil => rfl
    | cons n ns ih =>
      obtain ⟨⟨d, hd⟩, hns⟩ := List.forall_mem_cons.mp h
      rw [List.filterMap_cons_some hd, List.map_cons, List.map_cons, ih hns,
        ← map_name_declarationOf?, hd]
      rfl
  exact hNames _ fun n hn => (exists_name_of_sound hn).imp fun _ hd => hd.1

theorem declareWords_topLevel (source : String) : DeclareWords (topLevel source) := by
  intro d hd
  obtain ⟨n, hn, hDeclared⟩ := exists_declarationOf?_of_mem_declared hd
  obtain ⟨e, hSame, hWord⟩ := exists_name_of_sound hn
  rwa [Option.some.inj (hDeclared.symm.trans hSame)]

theorem plain_declarations (source : String) : ∀ d ∈ declarations source, '-' ∉ d.name.toList :=
  fun d hd => mark_not_mem_of_isWholeWord (by decide) (declareWords_topLevel source d hd)

theorem joinable_declarations (source : String) :
    ∀ d ∈ declarations source, Joinable d.name := by
  intro d hd
  have hName := declareWords_topLevel source d hd
  refine ⟨fun hEmpty => ?_, mark_not_mem_of_isWholeWord (by decide) hName⟩
  rw [hEmpty] at hName
  exact absurd hName (by decide)

end TypeDiagram.Source
