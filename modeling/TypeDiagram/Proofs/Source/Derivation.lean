import Mathlib.Data.List.TakeWhile
import TypeDiagram.Proofs.Source.Production
import TypeDiagram.Source.Subtree

/-! # Trees that productions derive

In a tree of the grammar, the children of a node spell out a production of its category, apart from
those that may stand anywhere, and they are named as the production says. Only errors hold anything
else.
-/

namespace TypeDiagram.Source

namespace Subtree

/-- The tree was made of a symbol that stands for the given one. -/
def FitsSymbol (t : Subtree) (x : Symbol) : Prop :=
  ∃ y : Symbol, t.facts.origin = .symbol y ∧ y.StandsFor x

def bound (ts : List Subtree) : List Subtree := ts.filter fun t => !t.facts.isExtra

theorem splitExtras_append (ts : List Subtree) : (splitExtras ts).1 ++ (splitExtras ts).2 = ts :=
  List.take_append_drop _ ts

theorem splitExtras_eq (ts : List Subtree) :
    splitExtras ts = ((ts.reverse.dropWhile fun t => t.facts.isExtra).reverse,
      (ts.reverse.takeWhile fun t => t.facts.isExtra).reverse) := by
  have hSplit : ts = (ts.reverse.dropWhile fun t => t.facts.isExtra).reverse ++
      (ts.reverse.takeWhile fun t => t.facts.isExtra).reverse := by
    rw [← List.reverse_append, List.takeWhile_append_dropWhile, List.reverse_reverse]
  exact Prod.ext ((congrArg (List.take _) hSplit).trans (List.take_left' List.length_reverse))
    ((congrArg (List.drop _) hSplit).trans (List.drop_left' List.length_reverse))

theorem isExtra_of_mem_splitExtras {ts : List Subtree} {t : Subtree} (h : t ∈ (splitExtras ts).2) :
    t.facts.isExtra = true := by
  rw [splitExtras_eq] at h
  have hTaken := List.mem_reverse.mp h
  exact List.mem_takeWhile_imp (p := fun t : Subtree => t.facts.isExtra) hTaken

theorem bound_splitExtras (ts : List Subtree) : bound (splitExtras ts).1 = bound ts := by
  have hNone : bound (splitExtras ts).2 = [] := List.filter_eq_nil_iff.mpr fun t ht => by
    rw [isExtra_of_mem_splitExtras ht]
    decide
  calc bound (splitExtras ts).1
      = bound (splitExtras ts).1 ++ bound (splitExtras ts).2 := by rw [hNone, List.append_nil]
    _ = bound ((splitExtras ts).1 ++ (splitExtras ts).2) := (List.filter_append _ _).symm
    _ = bound ts := by rw [splitExtras_append]

theorem getLast?_bound {ts : List Subtree} {t : Subtree}
    (h : (splitExtras ts).1.getLast? = some t) : (bound ts).getLast? = some t := by
  have hBound : t.facts.isExtra = false := by
    have hFirst : (ts.reverse.dropWhile fun t => t.facts.isExtra).head? = some t := by
      rw [splitExtras_eq, List.getLast?_reverse] at h
      exact h
    have hNot := List.head?_dropWhile_not (fun t : Subtree => t.facts.isExtra) ts.reverse
    rw [hFirst] at hNot
    simpa using hNot
  rw [← bound_splitExtras, ← List.dropLast_append_getLast? t h, bound, List.filter_append,
    List.filter_cons_of_pos (by rw [hBound]; rfl), List.filter_nil, List.getLast?_concat]

/-- The tree is a terminal, or text that begins none. -/
structure IsLeaf (t : Subtree) : Prop where
  children : t.children = []
  origin : ∀ g, t.facts.origin ≠ .symbol (.group g)

/-- The productions of the grammar derive the tree, but for what stands in errors. -/
inductive IsDerived : Subtree → Prop
  | leaf {t : Subtree} (h : t.IsLeaf) : IsDerived t
  | production {f : Facts} {children : List Subtree} {p : Production} (hp : p ∈ Production.all)
      (hOrigin : f.origin = .symbol (.group p.group)) (hForm : f.form = p.form)
      (hExtra : f.isExtra = false)
      (hSteps : List.Forall₂ FitsSymbol (bound children) (p.steps.map Step.symbol))
      (hChildren : ∀ c ∈ children, IsDerived c) : IsDerived (.node f children)
  | skipped {f : Facts} {children : List Subtree} (hOrigin : f.origin.isError = true)
      (hForm : f.form = .plain) (hExtra : f.isExtra = true → f.origin = .error)
      (hChildren : ∀ c ∈ children, IsDerived c) : IsDerived (.node f children)

variable {t c : Subtree} {f : Facts} {cs : List Subtree}

namespace IsDerived

theorem child (h : IsDerived t) (hc : c ∈ t.children) : IsDerived c := by
  cases h with
  | leaf h =>
    rw [h.children] at hc
    cases hc
  | production _ _ _ _ _ hChildren => exact hChildren c hc
  | skipped _ _ _ hChildren => exact hChildren c hc

theorem extra (h : IsDerived t) (hExtra : t.facts.isExtra = true) :
    t.children = [] ∨ t.facts.origin = .error := by
  cases h with
  | leaf h => exact .inl h.children
  | production _ _ _ hBound => exact absurd hExtra (by rw [facts, hBound]; exact Bool.false_ne_true)
  | skipped _ _ hError => exact .inr (hError hExtra)

end IsDerived

/-! ## Making trees -/

/-- What a node was made of, and how it names its children, does not hang on the children. -/
theorem facts_addChildren (f : Facts) (isFirst : Bool) (place : Nat) (cs : List Subtree) :
    (f.addChildren isFirst place cs).origin = f.origin ∧
      (f.addChildren isFirst place cs).form = f.form ∧
      (f.addChildren isFirst place cs).isExtra = f.isExtra := by
  induction cs generalizing f isFirst place with
  | nil => exact ⟨rfl, rfl, rfl⟩
  | cons c cs ih => exact ih (f.addChild isFirst place c) false _

theorem exists_make (origin : Origin) (form : Form) (cs : List Subtree) :
    ∃ f, make origin form cs = .node f cs ∧ f.origin = origin ∧ f.form = form ∧
      f.isExtra = false := by
  obtain ⟨hOrigin, hForm, hExtra⟩ := facts_addChildren
    ⟨origin, form, .none, .none, false, false, false, 0, 0, 0, 0⟩ true 0 cs
  exact ⟨_, rfl, hOrigin, hForm, hExtra⟩

theorem isExtra_asExtra (t : Subtree) : t.asExtra.facts.isExtra = true := by
  cases t
  rfl

theorem facts_addWeight (t : Subtree) (w : Int) :
    (t.addWeight w).facts.origin = t.facts.origin ∧
      (t.addWeight w).facts.isExtra = t.facts.isExtra := by
  cases t
  exact ⟨rfl, rfl⟩

namespace IsDerived

theorem asExtra_of_leaf (h : t.IsLeaf) : IsDerived t.asExtra := by
  cases t
  exact .leaf ⟨h.children, h.origin⟩

theorem errorRun (h : ∀ c ∈ cs, IsDerived c) : IsDerived (make .errorRun .plain cs) := by
  obtain ⟨f, hMake, hOrigin, hForm, hExtra⟩ := exists_make .errorRun .plain cs
  rw [hMake]
  refine .skipped (by rw [hOrigin]; rfl) hForm (fun h => ?_) h
  rw [hExtra] at h
  cases h

theorem error (h : ∀ c ∈ cs, IsDerived c) : IsDerived (make .error .plain cs) := by
  obtain ⟨f, hMake, hOrigin, hForm, _⟩ := exists_make .error .plain cs
  rw [hMake]
  exact .skipped (by rw [hOrigin]; rfl) hForm (fun _ => hOrigin) h

theorem asExtra_error (h : ∀ c ∈ cs, IsDerived c) :
    IsDerived (make .error .plain cs).asExtra := by
  obtain ⟨f, hMake, hOrigin, hForm, _⟩ := exists_make .error .plain cs
  rw [hMake]
  exact .skipped (f := { f with isExtra := true }) (by rw [hOrigin]; rfl) hForm (fun _ => hOrigin) h

theorem addWeight (h : IsDerived t) (w : Int) : IsDerived (t.addWeight w) := by
  cases h with
  | leaf h =>
    cases t
    exact .leaf ⟨h.children, h.origin⟩
  | production hp hOrigin hForm hExtra hSteps hChildren =>
    exact .production hp hOrigin hForm hExtra hSteps hChildren
  | skipped hOrigin hForm hExtra hChildren => exact .skipped hOrigin hForm hExtra hChildren

theorem make_production {p : Production} (hp : p ∈ Production.all)
    (hSteps : List.Forall₂ FitsSymbol (bound cs) (p.steps.map Step.symbol))
    (h : ∀ c ∈ cs, IsDerived c) :
    IsDerived (make (.symbol (.group p.group)) p.form cs) := by
  obtain ⟨f, hMake, hOrigin, hForm, hExtra⟩ := exists_make (.symbol (.group p.group)) p.form cs
  rw [hMake]
  exact .production hp hOrigin hForm hExtra hSteps h

end IsDerived

end Subtree

end TypeDiagram.Source
