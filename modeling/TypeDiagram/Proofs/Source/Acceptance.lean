import TypeDiagram.Proofs.Source.Reduction

/-! # Readings of the whole text

The ways down from a head that is accepted end where the text begins, so their trees spell all that
has been read. The root has the children of the last tree that may not stand anywhere instead of
this tree, and no text is lost by this: the tree is a program or an error, and no terminal.
-/

namespace TypeDiagram.Source

open Subtree

namespace Stack

variable {text : List Char} {a : Automaton} {s : Stack} {n v state below : Nat} {t : Subtree}
  {tree? : Option Subtree} {p : Path} {GoesOn : Path → Prop}

theorem Descent.of_push (h : Descent (s.push v tree? state) GoesOn n p) (hn : n < s.layers.size)
    (hSound : s.IsSound text a) : Descent s GoesOn n p := by
  induction h with
  | top => exact .top
  | @down p link _ hOn hLink ih =>
    refine ih.down hOn ?_
    rwa [show (s.push v tree? state).layer p.layer = s.layer p.layer from
      layer_push_of_lt (ih.layer_lt hSound hn)] at hLink

/-- A layer that lies on one other only has one way down, which passes the tree between them. -/
theorem Descent.below_single (h : Descent s (fun _ => True) n p)
    (hLinks : (s.layer n).links = [⟨below, some t⟩]) : p = ⟨n, [], 0⟩ ∨
      ∃ q, Descent s (fun _ => True) below q ∧ q.layer = p.layer ∧ p.trees = q.trees ++ [t] := by
  induction h with
  | top => exact .inl rfl
  | @down p link _ _ hLink ih =>
    right
    rcases ih with rfl | ⟨q, hDescent, hLayer, hTrees⟩
    · rw [hLinks] at hLink
      rw [List.mem_singleton.mp hLink]
      exact ⟨⟨below, [], 0⟩, .top, rfl, rfl⟩
    · rw [← hLayer] at hLink
      refine ⟨q.down link, hDescent.down trivial hLink, ?_, ?_⟩
      · rw [Path.layer_down, Path.layer_down]
      · unfold Path.down
        split
        · exact congrArg _ hTrees
        · exact hTrees

/-- Whichever way one goes down from the layer, no terminal is the last tree that may not stand
anywhere. -/
def IsClosed (s : Stack) (n : Nat) : Prop :=
  ∀ p, Descent s (fun _ => True) n p → EndsInGroup p.trees

theorem isClosed_push (hv : v < s.heads.size) (hExtra : t.facts.isExtra = false)
    (hOrigin : ∀ n, t.facts.origin ≠ .symbol (.terminal n)) :
    (s.push v (some t) state).IsClosed ((s.push v (some t) state).head v).layer := by
  intro p hp u hu
  rw [layer_head_push _ _ hv] at hp
  rcases hp.below_single (by rw [layer_push_top, links_layerOn]) with rfl | ⟨q, _, _, hTrees⟩
  · cases hu
  · rw [hTrees, bound, List.filter_append, List.filter_cons_of_pos (by rw [hExtra]; rfl),
      List.filter_nil, List.getLast?_concat] at hu
    rw [← Option.some.inj hu]
    exact hOrigin

end Stack

namespace Reader

variable {text : List Char} {a : Automaton} {p : Progress} {v : Nat} {trees : List Subtree}
  {ahead root : Subtree} {above : Place}

theorem rootOf_eq (trees : List Subtree) : rootOf trees = ((splitExtras trees).1.getLast?).map
    fun t => .make t.facts.origin t.facts.form
      ((splitExtras trees).1.dropLast ++ t.children ++ (splitExtras trees).2) := by
  have hAfter : (trees.reverse.takeWhile fun t => t.facts.isExtra).reverse =
      (splitExtras trees).2 := by rw [splitExtras_eq]
  have hRest : trees.take (trees.length - (splitExtras trees).2.length) =
      (splitExtras trees).1 := by
    have hSplit := splitExtras_append trees
    have hLength := congrArg List.length hSplit
    rw [List.length_append] at hLength
    rw [show trees.length - (splitExtras trees).2.length = (splitExtras trees).1.length by omega]
    exact (congrArg (List.take _) hSplit.symm).trans List.take_left
  unfold rootOf
  dsimp only
  rw [hAfter, hRest]

theorem rootOf_derived (h : Stack.AreDerived trees) (hRoot : rootOf trees = some root) :
    ∀ t ∈ root.children, t.IsDerived := by
  rw [rootOf_eq] at hRoot
  obtain ⟨node, hNode, rfl⟩ := Option.map_eq_some_iff.mp hRoot
  obtain ⟨f, hMake, _⟩ := exists_make node.facts.origin node.facts.form _
  rw [hMake]
  rw [Stack.AreDerived, ← splitExtras_append trees] at h
  obtain ⟨hInit, hAfter⟩ := List.forall_mem_append.mp h
  intro t ht
  rcases List.mem_append.mp ht with ht | ht
  · rcases List.mem_append.mp ht with ht | ht
    · exact hInit t (List.dropLast_subset _ ht)
    · exact (hInit node (List.mem_of_getLast? hNode)).child ht
  · exact hAfter t ht

/-- The root spells all that the trees spell, or all but the terminal at their end. -/
theorem rootOf_spells {cs : List Char} (h : SpellAll (trees ++ [ahead]) cs)
    (hBuilt : ∀ t ∈ trees, t.IsBuilt) (hClosed : Stack.EndsInGroup trees)
    (hAhead : ahead.children = []) (hRoot : rootOf (trees ++ [ahead]) = some root) :
    ∃ ds, SpellAll root.children ds ∧ ds <+: cs := by
  rw [rootOf_eq] at hRoot
  obtain ⟨node, hNode, rfl⟩ := Option.map_eq_some_iff.mp hRoot
  obtain ⟨f, hMake, _⟩ := exists_make node.facts.origin node.facts.form
    ((splitExtras (trees ++ [ahead])).1.dropLast ++ node.children ++
      (splitExtras (trees ++ [ahead])).2)
  rw [hMake]
  change ∃ ds, SpellAll (_ ++ node.children ++ _) ds ∧ ds <+: cs
  have hSpell := h
  rw [← splitExtras_append (trees ++ [ahead]), ← List.dropLast_append_getLast? node hNode] at hSpell
  obtain ⟨most, after, rfl, hMost, hAfter⟩ := hSpell.exists_append
  obtain ⟨before, own, rfl, hBefore, hOwn⟩ := hMost.exists_append
  cases hExtra : ahead.facts.isExtra with
  | true =>
    have hBound : bound (trees ++ [ahead]) = bound trees := by
      rw [bound, List.filter_append, List.filter_cons_of_neg (by rw [hExtra]; decide),
        List.filter_nil, List.append_nil, bound]
    have hLast := getLast?_bound hNode
    rw [hBound] at hLast
    have hMem := List.mem_of_mem_filter (List.mem_of_getLast? hLast)
    cases hOwn with
    | @cons _ _ own _ hOwn hNone =>
      cases hNone
      rw [List.append_nil]
      refine ⟨_, (hBefore.append (hOwn.children (hBuilt node hMem) (hClosed node hLast))).append
        hAfter, List.prefix_refl _⟩
  | false =>
    have hSplit : splitExtras (trees ++ [ahead]) = (trees ++ [ahead], []) := by
      rw [splitExtras_eq, List.reverse_append, List.reverse_singleton, List.singleton_append,
        List.dropWhile_cons_of_neg (by rw [hExtra]; decide),
        List.takeWhile_cons_of_neg (by rw [hExtra]; decide)]
      simp
    rw [hSplit] at hNode hBefore hAfter ⊢
    rw [List.getLast?_concat] at hNode
    rw [← Option.some.inj hNode, hAhead, List.append_nil, List.append_nil]
    exact ⟨before, hBefore, List.append_assoc before own after ▸ List.prefix_append _ _⟩

theorem isSound_push_end {s : Stack} (h : s.IsSound text a) (hLeaf : ahead.IsLeaf)
    (hSpans : Stack.Spans (s.top v).place (some ahead) above) :
    (s.push v (some ahead) Automaton.initial).IsSound text a :=
  have hJoins : Stack.Joins a (s.top v).state (some ahead) Automaton.initial :=
    ⟨.leaf hLeaf, .inr (.inl rfl)⟩
  h.push hJoins hSpans

theorem isReading_of_popAll {s : Stack} (h : s.IsSound text a) (hv : v < s.heads.size)
    (hLeaf : ahead.IsLeaf) (hSpans : Stack.Spans (s.top v).place (some ahead) above)
    (hClosed : s.IsClosed (s.head v).layer) {slice : Stack.Slice}
    (hSlice : slice ∈ ((s.push v (some ahead) Automaton.initial).popAll v).2)
    (hTrees : trees ∈ slice.readings) (hRoot : rootOf trees = some root) :
    root.IsReading text := by
  have hPushed := isSound_push_end h hLeaf hSpans
  have hTop := h.head_layer_lt v
  obtain ⟨q, ⟨hDescent, hGround⟩, rfl, _⟩ :=
    (Stack.popAll_taken hPushed v).exists_way hSlice hTrees
  have hLie := hDescent.lie hPushed
  rw [hPushed.ground _ (hDescent.layer_lt hPushed (hPushed.head_layer_lt v)) hGround] at hLie
  rw [Stack.layer_head_push _ _ hv] at hDescent
  have hLinks : ((s.push v (some ahead) Automaton.initial).layer s.layers.size).links =
      [⟨(s.head v).layer, some ahead⟩] := by
    rw [Stack.layer_push_top, Stack.links_layerOn]
  rcases hDescent.below_single hLinks with rfl | ⟨r, hBelow, _, hSplit⟩
  · rw [hLinks] at hGround
    cases hGround
  · have hOld := hBelow.of_push hTop h
    rw [hSplit] at hLie hRoot
    obtain ⟨hDerived, cs, hSpell, hReaches⟩ := hLie
    obtain ⟨ds, hChildren, hPrefix⟩ :=
      rootOf_spells hSpell (hOld.isBuilt h) (hClosed r hOld) hLeaf.children hRoot
    exact ⟨rootOf_derived hDerived hRoot, ds, hChildren,
      hPrefix.trans ⟨_, hReaches.ahead.symm⟩⟩

theorem accept_keeps (h : p.IsSound text a) (hv : v < p.stack.heads.size)
    (hLeaf : ahead.IsLeaf) (hSpans : Stack.Spans (p.stack.top v).place (some ahead) above)
    (hClosed : p.stack.IsClosed (p.stack.head v).layer) :
    Ensures text (accept v ahead) a p fun _ _ _ => True := by
  have hHalt : Keeps 0 (modifyStack (·.halt v)) :=
    .zero fun _ _ _ h => .modifyStack h (h.stack.halt v) trivial
  have hRemove (w : Nat) : Keeps 0 (modifyStack (·.removeHead w)) :=
    .zero fun _ _ _ h => .modifyStack h (h.stack.removeHead w) trivial
  unfold accept
  refine Ensures.bind (Q := fun _ _ q => q.stack = p.stack.push v (some ahead) Automaton.initial)
    (.modifyStack h (isSound_push_end h.stack hLeaf hSpans) rfl) fun _ b q _ hq hStack => ?_
  refine Ensures.bind (Q := fun slices _ _ => ∀ x ∈ slices, ∀ trees ∈ x.readings, ∀ root,
      rootOf trees = some root → root.IsReading text) (.onStack hq ?_ ?_)
    fun slices c r _ hr hSlices => ?_
  · exact (Stack.popAll_taken hq.stack v).sound
  · rw [hStack]
    exact fun x hx trees ht root hRoot =>
      isReading_of_popAll h.stack hv hLeaf hSpans hClosed hx ht hRoot
  · refine Ensures.keeps_bind (n := 0) (Q := fun _ _ _ => True)
      (.forIn hr trivial fun trees hTrees _ d u hu _ => ?_) fun _ => ?_
    · obtain ⟨x, hx, ht⟩ := List.mem_flatMap.mp hTrees
      have hRoots := hSlices x hx trees ht
      refine Ensures.bind (Q := fun _ _ _ => True)
        (.modify hu ⟨hu.automaton, hu.stack, fun root hRoot => ?_⟩ trivial)
        fun _ _ _ _ hw _ => .pure hw trivial
      dsimp only at hRoot
      split at hRoot
      · rename_i kept found hKept hFound
        split at hRoot
        · exact hRoots root (hFound.trans hRoot)
        · exact hu.finished root (hKept.trans hRoot)
      · exact hRoots root hRoot
      · exact hu.finished root hRoot
    · split
      · exact hHalt
      · exact .bind (hRemove _) fun _ => hHalt

end Reader

end TypeDiagram.Source
