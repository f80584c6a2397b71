import Mathlib.Data.List.Forall2
import TypeDiagram.Proofs.Source.Production

/-! # Items come from productions

The tables of the grammar number items and tell which item stands behind the next symbol. Who
follows the items from one in front of a production reads its symbols, and ends with an item that
names the parts as the production does. Items that are not told apart are numbered once; what
follows is then the same for each of the productions that share them.
-/

namespace TypeDiagram.Source

/-- From the item with the number, the symbols lead to an item at the end of its production. -/
inductive Continues (items : Array Item) : Nat → List Symbol → Item → Prop
  | done {code : Nat} {i : Item} (hItem : items[code]? = some i) (hDone : i.next? = none) :
      Continues items code [] i
  | next {code : Nat} {i last : Item} {x : Symbol} {xs : List Symbol}
      (hItem : items[code]? = some i) (hNext : i.next? = some x)
      (hRest : Continues items i.after xs last) : Continues items code (x :: xs) last

/-- The item makes nodes of the production. -/
structure Item.Ends (i : Item) (p : Production) : Prop where
  group : i.group = p.group
  length : i.length = p.steps.length
  form : i.form = p.form

/-- The item with the number stands in the production behind the first `dot` steps. -/
structure StandsAt (items : Array Item) (code : Nat) (p : Production) (dot : Nat) : Prop where
  item : ∃ i, items[code]? = some i ∧ i.dot = dot
  bound : dot ≤ p.steps.length
  ends : ∃ last, Continues items code (p.symbolsFrom dot) last ∧ last.Ends p

def IsPrefixOf {α : Type} (xs ys : Array α) : Prop :=
  ∀ (n : Nat) (x : α), xs[n]? = some x → ys[n]? = some x

theorem isPrefixOf_push {α : Type} (xs : Array α) (x : α) : IsPrefixOf xs (xs.push x) := by
  intro n y h
  rw [Array.getElem?_push, if_neg, h]
  exact Nat.ne_of_lt (Array.getElem?_eq_some_iff.mp h).1

theorem Continues.mono {items items' : Array Item} {code : Nat} {xs : List Symbol} {last : Item}
    (h : Continues items code xs last) (hPrefix : IsPrefixOf items items') :
    Continues items' code xs last := by
  induction h with
  | done hItem hDone => exact .done (hPrefix _ _ hItem) hDone
  | next hItem hNext _ ih => exact .next (hPrefix _ _ hItem) hNext ih

theorem Continues.unique {items : Array Item} {code : Nat} {xs ys : List Symbol} {last last' : Item}
    (h : Continues items code xs last) (h' : Continues items code ys last') :
    xs = ys ∧ last = last' := by
  induction h generalizing ys with
  | done hItem hDone =>
    cases h' with
    | done hItem' _ => exact ⟨rfl, Option.some.inj (hItem.symm.trans hItem')⟩
    | next hItem' hNext _ =>
      obtain rfl := Option.some.inj (hItem.symm.trans hItem')
      rw [hDone] at hNext
      cases hNext
  | next hItem hNext _ ih =>
    cases h' with
    | done hItem' hDone =>
      obtain rfl := Option.some.inj (hItem.symm.trans hItem')
      rw [hDone] at hNext
      cases hNext
    | next hItem' hNext' hRest =>
      obtain rfl := Option.some.inj (hItem.symm.trans hItem')
      obtain rfl := Option.some.inj (hNext.symm.trans hNext')
      exact (ih hRest).imp_left fun hSame => by rw [hSame]

theorem StandsAt.mono {items items' : Array Item} {code : Nat} {p : Production} {dot : Nat}
    (h : StandsAt items code p dot) (hPrefix : IsPrefixOf items items') :
    StandsAt items' code p dot where
  item := h.item.imp fun _ => And.imp_left (hPrefix _ _)
  bound := h.bound
  ends := h.ends.imp fun _ => And.imp_left (·.mono hPrefix)

variable {roleGroups : Array Bool} {ps : List Production} {p q : Production} {dot e : Nat}

theorem StandsAt.of_key {items : Array Item} {code : Nat} (h : StandsAt items code p dot)
    (hBound : e ≤ q.steps.length)
    (hKey : Tables.keyOf roleGroups q e = Tables.keyOf roleGroups p dot) :
    StandsAt items code q e := by
  unfold Tables.keyOf at hKey
  rw [ItemKey.mk.injEq] at hKey
  obtain ⟨hGroup, hLength, _, _, _, hBefore, hRest⟩ := hKey
  have hDot : e = dot := by
    have hSame := congrArg List.length hBefore
    rw [List.length_map, List.length_map, List.length_take, List.length_take,
      Nat.min_eq_left hBound,
      Nat.min_eq_left h.bound] at hSame
    exact hSame
  subst hDot
  have hSplit {β : Type} (f : Step → β) (r : Production) :
      r.steps.map f = (r.steps.take e).map f ++ (r.steps.drop e).map f := by
    rw [← List.map_append, List.take_append_drop]
  have hShown := congrArg (List.map Prod.fst) hBefore
  have hRole := congrArg (List.map fun entry => entry.2.1) hBefore
  rw [List.map_map, List.map_map] at hShown hRole
  have hForm : q.form = p.form := by
    rw [Production.form, Production.form, hSplit, hSplit Step.role, hSplit _ p,
      hSplit Step.role p, hRest]
    exact congrArg₂ Form.mk (congrArg (· ++ _) hShown) (congrArg (· ++ _) hRole)
  obtain ⟨last, hLast, hEnds⟩ := h.ends
  refine ⟨h.item, hBound, last, ?_, hEnds.group.trans hGroup.symm, hEnds.length.trans hLength.symm,
    hEnds.form.trans hForm.symm⟩
  rwa [Production.symbolsFrom, hRest]

namespace Tables

/-! ## Numbering -/

/-- What holds of the items that have been numbered so far. -/
structure Numbering.IsSound (roleGroups : Array Bool) (ps : List Production) (n : Numbering) :
    Prop where
  codes : ∀ key code, n.codes[key]? = some code →
    ∃ p dot, keyOf roleGroups p dot = key ∧ StandsAt n.items code p dot
  items : ∀ code i, n.items[code]? = some i → ∃ p ∈ ps, StandsAt n.items code p i.dot
  openings : ∀ (g : Nat) (codes : List Nat) (code : Nat), n.openings[g]? = some codes →
    code ∈ codes → ∃ i, n.items[code]? = some i ∧ i.dot = 0

theorem next?_itemOf (p : Production) (dot after : Nat) :
    (itemOf roleGroups p dot after).next? = (p.steps.drop dot).head?.map Step.symbol := rfl

theorem standsAt_itemOf {items : Array Item} {code after : Nat}
    (hItem : items[code]? = some (itemOf roleGroups p dot after)) (hBound : dot ≤ p.steps.length)
    (hAfter : dot < p.steps.length → StandsAt items after p (dot + 1)) :
    StandsAt items code p dot := by
  refine ⟨⟨_, hItem, rfl⟩, hBound, ?_⟩
  rcases Nat.lt_or_eq_of_le hBound with hLess | rfl
  · obtain ⟨last, hLast, hEnds⟩ := (hAfter hLess).ends
    refine ⟨last, ?_, hEnds⟩
    rw [Production.symbolsFrom, List.drop_eq_getElem_cons hLess, List.map_cons]
    refine .next hItem ?_ hLast
    rw [next?_itemOf, List.drop_eq_getElem_cons hLess, List.head?_cons, Option.map_some]
  · refine ⟨itemOf roleGroups p p.steps.length after, ?_, ⟨rfl, rfl, rfl⟩⟩
    rw [Production.symbolsFrom, List.drop_length, List.map_nil]
    refine .done hItem ?_
    rw [next?_itemOf, List.drop_length, List.head?_nil, Option.map_none]

def Numbering.addItem (roleGroups : Array Bool) (p : Production) (dot after : Nat)
    (n : Numbering) : Nat × Numbering :=
  match n.codes[keyOf roleGroups p dot]? with
  | some code => (code, n)
  | none =>
    (n.items.size,
      { n with
        items := n.items.push (itemOf roleGroups p dot after)
        codes := n.codes.insert (keyOf roleGroups p dot) n.items.size })

theorem Numbering.addFrom_eq (n : Numbering) (p : Production) (dot after : Nat) :
    n.addFrom roleGroups p dot after =
      match dot with
      | 0 => n.addItem roleGroups p 0 after
      | e + 1 =>
        (n.addItem roleGroups p (e + 1) after).2.addFrom roleGroups p e
          (n.addItem roleGroups p (e + 1) after).1 := by
  cases dot <;> rfl

namespace Numbering.IsSound

variable {n : Numbering} {after : Nat}

theorem addItem (hSound : n.IsSound roleGroups ps) (hp : p ∈ ps) (hBound : dot ≤ p.steps.length)
    (hAfter : dot < p.steps.length → StandsAt n.items after p (dot + 1)) :
    let added := n.addItem roleGroups p dot after
    added.2.IsSound roleGroups ps ∧ added.2.openings = n.openings ∧
      IsPrefixOf n.items added.2.items ∧ StandsAt added.2.items added.1 p dot := by
  unfold Numbering.addItem
  cases hCode : n.codes[keyOf roleGroups p dot]? with
  | some code =>
    obtain ⟨q, e, hKey, hStands⟩ := hSound.codes _ _ hCode
    exact ⟨hSound, rfl, fun _ _ h => h, hStands.of_key hBound hKey.symm⟩
  | none =>
    have hPrefix := isPrefixOf_push n.items (itemOf roleGroups p dot after)
    have hStands : StandsAt (n.items.push (itemOf roleGroups p dot after)) n.items.size p dot :=
      standsAt_itemOf Array.getElem?_push_size hBound fun h => (hAfter h).mono hPrefix
    refine ⟨⟨fun key code h => ?_, fun code i h => ?_, fun g codes code hg hCode => ?_⟩, rfl,
      hPrefix, hStands⟩
    · rw [Std.HashMap.getElem?_insert] at h
      split at h
      · rename_i hSame
        rw [← Option.some.inj h]
        exact ⟨p, dot, beq_iff_eq.mp hSame, hStands⟩
      · obtain ⟨q, e, hKey, hOld⟩ := hSound.codes _ _ h
        exact ⟨q, e, hKey, hOld.mono hPrefix⟩
    · rw [Array.getElem?_push] at h
      split at h
      · rename_i hLast
        subst hLast
        rw [← Option.some.inj h]
        exact ⟨p, hp, hStands⟩
      · obtain ⟨q, hq, hOld⟩ := hSound.items _ _ h
        exact ⟨q, hq, hOld.mono hPrefix⟩
    · obtain ⟨i, hItem, hDot⟩ := hSound.openings g codes code hg hCode
      exact ⟨i, hPrefix _ _ hItem, hDot⟩

/-- The items of a production are numbered from the last one on, so each finds the one behind it. -/
theorem addFrom (hSound : n.IsSound roleGroups ps) (hp : p ∈ ps) (hBound : dot ≤ p.steps.length)
    (hAfter : dot < p.steps.length → StandsAt n.items after p (dot + 1)) :
    let added := n.addFrom roleGroups p dot after
    added.2.IsSound roleGroups ps ∧ added.2.openings = n.openings ∧
      StandsAt added.2.items added.1 p 0 := by
  induction dot generalizing n after with
  | zero =>
    obtain ⟨hAdded, hOpenings, _, hStands⟩ := hSound.addItem hp hBound hAfter
    rw [Numbering.addFrom_eq]
    exact ⟨hAdded, hOpenings, hStands⟩
  | succ dot ih =>
    obtain ⟨hAdded, hOpenings, _, hStands⟩ := hSound.addItem hp hBound hAfter
    obtain ⟨hAll, hOpenings', hFirst⟩ := ih hAdded (Nat.le_of_succ_le hBound) fun _ => hStands
    rw [Numbering.addFrom_eq]
    exact ⟨hAll, hOpenings'.trans hOpenings, hFirst⟩

theorem add (hSound : n.IsSound roleGroups ps) (hp : p ∈ ps) :
    (n.add roleGroups p).IsSound roleGroups ps := by
  have hAfter (h : p.steps.length < p.steps.length) : StandsAt n.items 0 p (p.steps.length + 1) :=
    absurd h (Nat.lt_irrefl _)
  obtain ⟨hAdded, _, hFirst⟩ := hSound.addFrom hp (Nat.le_refl _) hAfter
  unfold Numbering.add
  dsimp only
  split
  · exact hAdded
  · refine ⟨hAdded.codes, hAdded.items, fun g codes code hg hCode => ?_⟩
    rw [Array.getElem?_modify] at hg
    split at hg
    · obtain ⟨old, hOld, rfl⟩ := Option.map_eq_some_iff.mp hg
      rcases List.mem_cons.mp hCode with rfl | hCode
      · exact hFirst.item
      · exact hAdded.openings g old code hOld hCode
    · exact hAdded.openings g codes code hg hCode

end Numbering.IsSound

theorem Numbering.isSound_ofProductions (roleGroups : Array Bool) (ps : List Production) :
    (Numbering.ofProductions roleGroups ps).IsSound roleGroups ps := by
  refine List.foldlRecOn ps (Numbering.add roleGroups)
    ⟨fun key code h => ?_, fun code i h => ?_, fun g codes code hg hCode => ?_⟩
    fun n hSound p hp => hSound.add hp
  · rw [Std.HashMap.getElem?_empty] at h
    cases h
  · cases h
  · rw [Array.getElem?_replicate] at hg
    split at hg
    · obtain rfl := Option.some.inj hg
      cases hCode
    · cases hg

/-! ## Tables -/

/-- The item with the number stands behind the first step of a production, which is the symbol. -/
def IsBehindFirst (items : Array Item) (x : Symbol) (code : Nat) : Prop :=
  ∃ (opening : Nat) (i : Item), items[opening]? = some i ∧ i.dot = 0 ∧ i.next? = some x ∧
    i.after = code

structure AreSound (t : Tables) (ps : List Production) : Prop where
  items : ∀ code i, t.items[code]? = some i → ∃ p ∈ ps, StandsAt t.items code p i.dot
  openings : ∀ (g : Nat) (codes : List Nat) (code : Nat), t.openings[g]? = some codes →
    code ∈ codes → ∃ i, t.items[code]? = some i ∧ i.dot = 0
  terminalOpeners : ∀ (n : Nat) (entries : List (Nat × Nat)) (g code : Nat),
    t.terminalOpeners[n]? = some entries → (g, code) ∈ entries →
      IsBehindFirst t.items (.terminal n) code
  groupOpeners : ∀ (n : Nat) (entries : List (Nat × Nat)) (g code : Nat),
    t.groupOpeners[n]? = some entries → (g, code) ∈ entries →
      IsBehindFirst t.items (.group n) code
  empty : ∀ g code, (g, code) ∈ t.empty →
    ∃ i, t.items[code]? = some i ∧ i.next? = none ∧ i.dot = 0

def AreFiled (items : Array Item) (symbol : Nat → Symbol) (openers : Array (List (Nat × Nat))) :
    Prop :=
  ∀ (n : Nat) (entries : List (Nat × Nat)) (g code : Nat), openers[n]? = some entries →
    (g, code) ∈ entries → IsBehindFirst items (symbol n) code

theorem areFiled_replicate (items : Array Item) (symbol : Nat → Symbol) (count : Nat) :
    AreFiled items symbol (Array.replicate count []) := by
  intro n entries g code hEntries hMem
  rw [Array.getElem?_replicate] at hEntries
  split at hEntries
  · obtain rfl := Option.some.inj hEntries
    cases hMem
  · cases hEntries

theorem AreFiled.modify {items : Array Item} {symbol : Nat → Symbol}
    {openers : Array (List (Nat × Nat))} (h : AreFiled items symbol openers) {n g code : Nat}
    (hNew : IsBehindFirst items (symbol n) code) :
    AreFiled items symbol (openers.modify n ((g, code) :: ·)) := by
  intro m entries g' code' hEntries hMem
  rw [Array.getElem?_modify] at hEntries
  split at hEntries
  · rename_i hSame
    subst hSame
    obtain ⟨old, hOld, rfl⟩ := Option.map_eq_some_iff.mp hEntries
    rcases List.mem_cons.mp hMem with hHead | hMem
    · obtain ⟨rfl, rfl⟩ := Prod.mk.inj hHead
      exact hNew
    · exact h n old g' code' hOld hMem
  · exact h m entries g' code' hEntries hMem

theorem areFiled_openers {items : Array Item} {openings : Array (List Nat)}
    (hOpenings : ∀ (g : Nat) (codes : List Nat) (code : Nat), openings[g]? = some codes →
      code ∈ codes → ∃ i, items[code]? = some i ∧ i.dot = 0) :
    AreFiled items .terminal (openers items openings).1 ∧
      AreFiled items .group (openers items openings).2 := by
  refine List.foldlRecOn _ _
    (motive := fun (filed : Array (List (Nat × Nat)) × Array (List (Nat × Nat))) =>
      AreFiled items .terminal filed.1 ∧ AreFiled items .group filed.2)
    ⟨areFiled_replicate items _ _, areFiled_replicate items _ _⟩ ?_
  rintro ⟨terminals, groups⟩ ⟨hTerminals, hGroups⟩ ⟨g, code⟩ hEntry
  obtain ⟨⟨codes, g⟩, hCodes, hEntry⟩ := List.mem_flatMap.mp hEntry
  obtain ⟨code, hCode, hSame⟩ := List.mem_map.mp hEntry
  obtain ⟨rfl, rfl⟩ := Prod.mk.inj hSame
  rw [List.mem_zipIdx_iff_getElem?, Array.getElem?_toList] at hCodes
  obtain ⟨i, hItem, hDot⟩ := hOpenings _ codes _ hCodes hCode
  simp only [hItem]
  split
  · rename_i hNext
    exact ⟨hTerminals.modify ⟨_, i, hItem, hDot, hNext, rfl⟩, hGroups⟩
  · rename_i hNext
    exact ⟨hTerminals, hGroups.modify ⟨_, i, hItem, hDot, hNext, rfl⟩⟩
  · exact ⟨hTerminals, hGroups⟩

theorem areSound_ofProductions (ps : List Production) : (ofProductions ps).AreSound ps := by
  have hNumbering := Numbering.isSound_ofProductions (roleGroups ps) ps
  unfold ofProductions
  dsimp only
  generalize Numbering.ofProductions (roleGroups ps) ps = numbering at hNumbering
  obtain ⟨hTerminals, hGroups⟩ := areFiled_openers hNumbering.openings
  generalize openers numbering.items numbering.openings = filed at hTerminals hGroups
  refine ⟨hNumbering.items, hNumbering.openings, hTerminals, hGroups, fun g code h => ?_⟩
  obtain ⟨⟨codes, g⟩, hCodes, hEntry⟩ := List.mem_flatMap.mp h
  obtain ⟨code, hCode, hEntry⟩ := List.mem_filterMap.mp hEntry
  rw [List.mem_zipIdx_iff_getElem?, Array.getElem?_toList] at hCodes
  split at hEntry
  · rename_i hDone
    obtain ⟨rfl, rfl⟩ := Prod.mk.inj (Option.some.inj hEntry)
    obtain ⟨i, hItem, hDot⟩ := hNumbering.openings _ codes _ hCodes hCode
    rw [hItem, Option.map_some, Option.getD_some] at hDone
    exact ⟨i, hItem, Option.isNone_iff_eq_none.mp hDone, hDot⟩
  · cases hEntry

end Tables

end TypeDiagram.Source
