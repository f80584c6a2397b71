import TypeDiagram.Proofs.Source.Place
import TypeDiagram.Proofs.Source.Word
import TypeDiagram.Source.Subtree

/-! # What trees spell

A tree reaches as far as the text that its leaves spell one behind another, and an identifier among
them is a word. The trees that are made while a text is read keep this.
-/

namespace TypeDiagram.Source

namespace Subtree

/-- Only terminals take up text without having children. -/
def IsBuilt (t : Subtree) : Prop :=
  t.children = [] → (∃ n, t.facts.origin = .symbol (.terminal n)) ∨ t.extent = .none

mutual
/-- The leaves of the tree spell the text, with what stands in front of it. An identifier that the
text does not lack is a word, and so is a keyword that could be one. -/
inductive Spells : Subtree → List Char → Prop
  | leaf {f : Facts} {gap own : List Char} (hPadding : f.padding = .of gap)
      (hSize : f.size = .of own) (hExtra : f.isExtra = true → IsBuilt (.node f []))
      (hWord : f.origin = .symbol (.terminal Terminal.identifier.code) ∨ f.isKeyword = true →
        f.isMissing = false → isWholeWord own = true) : Spells (.node f []) (gap ++ own)
  | node {f : Facts} {c : Subtree} {cs : List Subtree} {text : List Char}
      (hExtent : f.padding + f.size = .of text) (hChildren : SpellAll (c :: cs) text) :
      Spells (.node f (c :: cs)) text
inductive SpellAll : List Subtree → List Char → Prop
  | nil : SpellAll [] []
  | cons {t : Subtree} {ts : List Subtree} {text rest : List Char} (hFirst : Spells t text)
      (hRest : SpellAll ts rest) : SpellAll (t :: ts) (text ++ rest)
end

variable {t : Subtree} {ts us : List Subtree} {text rest : List Char}

theorem Spells.extent_eq (h : t.Spells text) : t.extent = .of text := by
  cases h with
  | leaf hPadding hSize =>
    rw [extent, facts, hPadding, hSize, Extent.of_append]
  | node hExtent => exact hExtent

theorem SpellAll.singleton (h : t.Spells text) : SpellAll [t] text := by
  have hAll := SpellAll.cons h .nil
  rwa [List.append_nil] at hAll

theorem SpellAll.append (h : SpellAll ts text) (h' : SpellAll us rest) :
    SpellAll (ts ++ us) (text ++ rest) := by
  induction ts generalizing text with
  | nil =>
    cases h
    exact h'
  | cons t ts ih =>
    cases h with
    | cons hFirst hRest =>
      rw [List.append_assoc]
      exact .cons hFirst (ih hRest)

theorem SpellAll.exists_append (h : SpellAll (ts ++ us) text) :
    ∃ first second, text = first ++ second ∧ SpellAll ts first ∧ SpellAll us second := by
  induction ts generalizing text with
  | nil => exact ⟨[], text, rfl, .nil, h⟩
  | cons t ts ih =>
    cases h with
    | cons hFirst hRest =>
      obtain ⟨first, second, rfl, hInit, hTail⟩ := ih hRest
      exact ⟨_, second, (List.append_assoc _ _ _).symm, .cons hFirst hInit, hTail⟩

/-! ## Making trees -/

theorem isBuilt_of_terminal {n : Nat} (h : t.facts.origin = .symbol (.terminal n)) : t.IsBuilt :=
  fun _ => .inl ⟨n, h⟩

theorem Spells.isBuilt_of_extra (h : t.Spells text) (hExtra : t.facts.isExtra = true) :
    t.IsBuilt := by
  cases h with
  | leaf _ _ hBuilt => exact hBuilt hExtra
  | node => exact fun h => by cases h

theorem Spells.children (h : t.Spells text) (hBuilt : t.IsBuilt)
    (hOrigin : ∀ n, t.facts.origin ≠ .symbol (.terminal n)) : SpellAll t.children text := by
  have hExtent := h.extent_eq
  cases h with
  | leaf =>
    rcases hBuilt rfl with ⟨n, hTerminal⟩ | hNone
    · exact absurd hTerminal (hOrigin n)
    · rw [hNone] at hExtent
      rw [Extent.eq_nil_of_octets (congrArg Extent.octets hExtent).symm]
      exact .nil
  | node _ hChildren => exact hChildren

theorem padding_addChildren (f : Facts) (place : Nat) (cs : List Subtree) :
    (f.addChildren false place cs).padding = f.padding := by
  induction cs generalizing f place with
  | nil => rfl
  | cons c cs ih => exact ih (f.addChild false place c) _

theorem size_addChildren (h : SpellAll ts text) (f : Facts) (place : Nat) :
    (f.addChildren false place ts).size = f.size + .of text := by
  induction ts generalizing f place text with
  | nil =>
    cases h
    rfl
  | cons t ts ih =>
    cases h with
    | @cons _ _ text rest hFirst hRest =>
      rw [Facts.addChildren, ih hRest, Extent.of_append, ← Extent.add_assoc, ← hFirst.extent_eq]
      rfl

theorem spells_make (h : SpellAll ts text) (origin : Origin) (form : Form)
    (hOrigin : ts = [] → origin ≠ .symbol (.terminal Terminal.identifier.code)) :
    (make origin form ts).Spells text := by
  cases h with
  | nil =>
    refine @Spells.leaf _ [] [] rfl rfl (fun h => by cases h) fun hWord _ => ?_
    rcases hWord with hWord | hWord
    · exact absurd hWord (hOrigin rfl)
    · cases hWord
  | @cons t ts text rest hFirst hRest =>
    refine .node ?_ (.cons hFirst hRest)
    dsimp only
    rw [Facts.addChildren, padding_addChildren, size_addChildren hRest, Extent.of_append,
      ← Extent.add_assoc, ← hFirst.extent_eq]
    rfl

theorem isBuilt_make (origin : Origin) (form : Form) (ts : List Subtree) :
    (make origin form ts).IsBuilt := by
  cases ts with
  | nil => exact fun _ => .inr rfl
  | cons => exact fun h => by cases h

theorem IsBuilt.asExtra (h : t.IsBuilt) : t.asExtra.IsBuilt := by
  cases t
  exact h

theorem Spells.asExtra (h : t.Spells text) (hBuilt : t.IsBuilt) : t.asExtra.Spells text := by
  cases h with
  | leaf hPadding hSize _ hWord => exact .leaf hPadding hSize (fun _ => hBuilt.asExtra) hWord
  | node hExtent hChildren => exact .node hExtent hChildren

theorem IsBuilt.addWeight (h : t.IsBuilt) (w : Int) : (t.addWeight w).IsBuilt := by
  cases t
  exact h

theorem Spells.addWeight (h : t.Spells text) (w : Int) : (t.addWeight w).Spells text := by
  cases h with
  | leaf hPadding hSize hExtra hWord =>
    exact .leaf hPadding hSize (fun hSome => (hExtra hSome).addWeight w) hWord
  | node hExtent hChildren => exact .node hExtent hChildren

theorem spells_missing (terminal : Nat) : (missing terminal).Spells [] :=
  @Spells.leaf _ [] [] rfl rfl (fun h => by cases h) fun _ hThere => by cases hThere

end Subtree

end TypeDiagram.Source
