import TypeDiagram.Proofs.Source.Advance
import TypeDiagram.Proofs.Source.Slice

/-! # Nodes of a text that is read

The nodes of a source text are cut off it along the tree that was read, so each leaf gets the text
that its tree spells. What holds of every node that is made of a derived tree holds of all nodes.
-/

namespace TypeDiagram.Source

namespace Subtree

variable {P : Node → Prop} {t first : Subtree} {ts bounds : List Subtree} {cs : List Char}
  {role? : Option Role} {shownAs? : Option Alias} {line : Nat} {text : List Char}

/-! ## What is left of the text -/

mutual
theorem rest_cut {t : Subtree} {cs : List Char} (h : t.Spells cs) (role? : Option Role)
    (shownAs? : Option Alias) (line : Nat) (rest : List Char) :
    (t.cut role? shownAs? line (cs ++ rest)).2.2 = rest := by
  cases h with
  | @leaf f gap own hPadding hSize =>
    rw [cut, hPadding, hSize]
    change ((gap ++ own ++ rest).drop gap.length).drop own.length = rest
    rw [List.append_assoc, List.drop_left, List.drop_left]
  | @node f _ _ _ _ hChildren =>
    rw [cut]
    split
    · exact rest_cutAll hChildren f.form role? 0 line rest
    · exact rest_cutAll hChildren f.form none 0 line rest
theorem rest_cutAll {ts : List Subtree} {cs : List Char} (h : SpellAll ts cs) (form : Form)
    (inherited? : Option Role) (place line : Nat) (rest : List Char) :
    (cutAll form inherited? place line (cs ++ rest) ts).2.2 = rest := by
  cases h with
  | nil => rfl
  | cons hFirst hRest =>
    rw [cutAll, List.append_assoc]
    dsimp only
    rw [rest_cut hFirst]
    exact rest_cutAll hRest form inherited? _ _ rest
end

theorem cut_leaf {f : Facts} {gap own : List Char} (hPadding : f.padding = .of gap)
    (hSize : f.size = .of own) (role? : Option Role) (shownAs? : Option Alias) (line : Nat)
    (rest : List Char) : ((node f []).cut role? shownAs? line (gap ++ own ++ rest)).1 =
      [.leaf role? ⟨if f.isMissing then .missing else label shownAs? f, gap, own,
        line + gap.count '\n'⟩] := by
  have hGap : (gap ++ own ++ rest).take gap.length = gap := by
    rw [List.append_assoc, List.take_left]
  have hOwn : ((gap ++ own ++ rest).drop gap.length).take own.length = own := by
    rw [List.append_assoc, List.drop_left, List.take_left]
  rw [cut, hPadding, hSize]
  change [Node.leaf role? ⟨_, (gap ++ own ++ rest).take gap.length,
    ((gap ++ own ++ rest).drop gap.length).take own.length,
    line + ((gap ++ own ++ rest).take gap.length).count '\n'⟩] = _
  rw [hGap, hOwn]

/-! ## Children and their places -/

theorem exists_node_of_not_isSpliced {t : Subtree} (h : isSpliced shownAs? t.facts = false)
    (role? : Option Role) (line : Nat) (text : List Char) :
    ∃ n, (t.cut role? shownAs? line text).1 = [n] ∧ n.role? = role? := by
  obtain ⟨f, children⟩ := t
  cases children with
  | nil => exact ⟨_, rfl, rfl⟩
  | cons c cs =>
    rw [facts] at h
    rw [cut, if_neg (by rw [h]; exact Bool.false_ne_true)]
    exact ⟨_, rfl, rfl⟩

theorem exists_node_of_extra {t : Subtree} (h : IsDerived t) (hExtra : t.facts.isExtra = true)
    (line : Nat) (text : List Char) :
    ∃ n, (t.cut none none line text).1 = [n] ∧ n.role? = none := by
  rcases h.extra hExtra with hLeaf | hError
  · obtain ⟨f, children⟩ := t
    obtain rfl : children = [] := hLeaf
    exact ⟨_, rfl, rfl⟩
  · refine exists_node_of_not_isSpliced ?_ none line text
    rw [isSpliced, hError]
    rfl

/-- The first child that may not stand anywhere is named as the form says, and those in front of it
have no role. -/
theorem cutAll_of_bound {form : Form} (h : ∀ t ∈ ts, IsDerived t) (hSpell : SpellAll ts cs)
    (hFirst : bound ts = first :: bounds) (place line : Nat) (rest : List Char) :
    ∃ before line' own more line'' later,
      (cutAll form none place line (cs ++ rest) ts).1 = before ++
        ((first.cut (form.role? place) (form.shownAs? place) line' (own ++ (more ++ rest))).1 ++
          (cutAll form none (place + 1) line'' (more ++ rest) later).1) ∧
      (∀ m ∈ before, m.role? = none) ∧ first.Spells own ∧ (∀ t ∈ first :: later, t ∈ ts) ∧
      SpellAll later more ∧ bound later = bounds := by
  induction ts generalizing cs line with
  | nil => cases hFirst
  | cons t ts ih =>
    cases hSpell with
    | @cons _ _ own more hOwn hMore =>
      rw [cutAll, List.append_assoc]
      dsimp only
      rw [rest_cut hOwn]
      cases hExtra : t.facts.isExtra with
      | true =>
        rw [bound, List.filter_cons, hExtra, if_neg (by decide)] at hFirst
        obtain ⟨m, hNode, hRole⟩ :=
          exists_node_of_extra (h t List.mem_cons_self) hExtra line (own ++ (more ++ rest))
        obtain ⟨before, line', own', more', line'', later, hSplit, hBefore, hSpells, hMem,
          hLater⟩ := ih (fun t ht => h t (List.mem_cons_of_mem _ ht)) hMore hFirst
            (t.cut none none line (own ++ (more ++ rest))).2.1
        refine ⟨m :: before, line', own', more', line'', later, ?_,
          List.forall_mem_cons.mpr ⟨hRole, hBefore⟩, hSpells,
          fun t ht => List.mem_cons_of_mem _ (hMem t ht), hLater⟩
        simp only [if_true, hNode, hSplit, List.cons_append, List.nil_append]
      | false =>
        rw [bound, List.filter_cons, hExtra, if_pos (by decide)] at hFirst
        obtain ⟨rfl, hBounds⟩ := List.cons.inj hFirst
        have hInherited : (form.role? place <|> none) = form.role? place := by
          cases form.role? place <;> rfl
        refine ⟨[], line, own, more, (t.cut (form.role? place) (form.shownAs? place) line
          (own ++ (more ++ rest))).2.1, ts, ?_, fun _ hm => absurd hm List.not_mem_nil, hOwn,
          fun _ ht => ht, hMore, hBounds⟩
        simp only [Bool.false_eq_true, if_false, hInherited, List.nil_append]

theorem origin_of_label {f : Facts} {c : Category} (h : label shownAs? f = .category c) :
    f.origin = .symbol (.group c.code) := by
  unfold label at h
  split at h
  · cases h
  · split at h <;> cases h
  · rename_i g hOrigin
    cases hCategory : Category.ofCode? g with
    | none =>
      rw [hCategory] at h
      cases h
    | some c =>
      rw [hCategory] at h
      cases h
      rw [hOrigin, Category.code_of_ofCode? hCategory]
  · cases h
  · cases h

/-- The children of a tree that is shown under a category spell out a production of it. -/
theorem IsDerived.exists_production {f : Facts} {children : List Subtree} {c : Category}
    (h : IsDerived (.node f children)) (hLabel : label shownAs? f = .category c) :
    ∃ p ∈ Production.all, p.group = c.code ∧ f.form = p.form ∧
      List.Forall₂ FitsSymbol (bound children) (p.steps.map Step.symbol) ∧
        ∀ t ∈ children, IsDerived t := by
  have hOrigin := origin_of_label hLabel
  cases h with
  | leaf h => exact absurd hOrigin (h.origin c.code)
  | skipped hError =>
    rw [hOrigin] at hError
    cases hError
  | @production _ _ p hp hGroup hForm _ hSteps hChildren =>
    have hSame := Symbol.group.inj (Origin.symbol.inj (hGroup.symm.trans hOrigin))
    exact ⟨p, hp, hSame, hForm, hSteps, hChildren⟩

/-! ## All nodes -/

/-- The property holds of each node that is made of a derived tree, whatever holds of others. -/
structure HoldsWhereCut (P : Node → Prop) : Prop where
  leaf : ∀ {f : Facts}, IsDerived (.node f []) → ∀ (role? : Option Role) (shownAs? : Option Alias)
    (l : Leaf), l.label = (if f.isMissing then .missing else label shownAs? f) → P (.leaf role? l)
  branch : ∀ {f : Facts} {children : List Subtree} {cs : List Char},
    IsDerived (.node f children) → SpellAll children cs →
      ∀ (role? : Option Role) (shownAs? : Option Alias) (line : Nat) (rest : List Char),
        P (.branch role? (label shownAs? f) (cutAll f.form none 0 line (cs ++ rest) children).1)

mutual
theorem holds_cut (hP : HoldsWhereCut P) {t : Subtree} {cs : List Char} (h : IsDerived t)
    (hSpells : t.Spells cs) (role? : Option Role) (shownAs? : Option Alias) (line : Nat)
    (rest : List Char) : ∀ n ∈ Node.nodesOf (t.cut role? shownAs? line (cs ++ rest)).1, P n := by
  cases hSpells with
  | leaf =>
    rw [cut]
    intro n hn
    obtain rfl := List.mem_singleton.mp hn
    exact hP.leaf h role? shownAs? _ rfl
  | @node f c ts _ _ hAll =>
    have hChildren (t : Subtree) (ht : t ∈ c :: ts) : IsDerived t := h.child ht
    rw [cut]
    split
    · exact holds_cutAll hP hChildren hAll f.form role? 0 line rest
    · intro n hn
      rw [Node.nodesOf, Node.nodesOf, List.append_nil, Node.nodes] at hn
      rcases List.mem_cons.mp hn with rfl | hn
      · exact hP.branch h hAll role? shownAs? line rest
      · exact holds_cutAll hP hChildren hAll f.form none 0 line rest n hn
theorem holds_cutAll (hP : HoldsWhereCut P) {ts : List Subtree} {cs : List Char}
    (h : ∀ t ∈ ts, IsDerived t) (hSpell : SpellAll ts cs) (form : Form)
    (inherited? : Option Role) (place line : Nat) (rest : List Char) :
    ∀ n ∈ Node.nodesOf (cutAll form inherited? place line (cs ++ rest) ts).1, P n := by
  cases hSpell with
  | nil => exact fun n hn => absurd hn List.not_mem_nil
  | @cons t ts _ _ hFirst hRest =>
    intro n hn
    rw [cutAll, List.append_assoc] at hn
    dsimp only at hn
    rw [rest_cut hFirst] at hn
    obtain ⟨m, hm, hn⟩ := mem_nodesOf_iff.mp hn
    rcases List.mem_append.mp hm with hm | hm
    · exact holds_cut hP (h t List.mem_cons_self) hFirst _ _ _ _ n
        (mem_nodesOf_iff.mpr ⟨m, hm, hn⟩)
    · exact holds_cutAll hP (fun t ht => h t (List.mem_cons_of_mem _ ht)) hRest _ _ _ _ _ n
        (mem_nodesOf_iff.mpr ⟨m, hm, hn⟩)
end

end Subtree

theorem holds_of_mem_topLevel {P : Node → Prop} (hP : Subtree.HoldsWhereCut P) {source : String}
    {n : Node} (h : n ∈ Node.nodesOf (topLevel source)) : P n := by
  obtain ⟨statement, hStatement, hn⟩ := mem_nodesOf_iff.mp h
  obtain ⟨⟨f, children⟩, hRead, m, hm, hChild⟩ := mem_topLevel hStatement
  obtain ⟨hDerived, cs, hSpell, rest, hSource⟩ := Reader.isReading_of_read? hRead
  have hAll (role? : Option Role) := Subtree.holds_cutAll hP hDerived hSpell f.form role? 0 1 rest
  rw [← hSource] at hm
  cases children with
  | nil =>
    rw [Subtree.cut] at hm
    obtain rfl := List.mem_singleton.mp hm
    cases hChild
  | cons t ts =>
    rw [Subtree.cut] at hm
    split at hm
    · have hNode : n ∈ m.nodes := mem_nodes_iff.mpr (.inr ⟨statement, hChild, hn⟩)
      exact hAll none n (mem_nodesOf_iff.mpr ⟨m, hm, hNode⟩)
    · obtain rfl := List.mem_singleton.mp hm
      exact hAll none n (mem_nodesOf_iff.mpr ⟨statement, hChild, hn⟩)

end TypeDiagram.Source
