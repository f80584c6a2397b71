import TypeDiagram.Proofs.Source.Reader

/-! # Making nodes

A node is made only where its production ends, of trees that spell out this production. It is put on
the layer that these trees begin on, so its head comes to stand where the head stands whose trees
are taken; and that head stays where it is.
-/

namespace TypeDiagram.Source

open Subtree

namespace Stack

variable {text : List Char} {a : Automaton} {s s' : Stack} {v w state : Nat}
  {below above : Place} {ts us : List Subtree}

theorem Lie.append (h : Lie below above (ts ++ us)) :
    ∃ middle, Lie below middle ts ∧ Lie middle above us := by
  obtain ⟨hDerived, cs, hSpell, hReaches⟩ := h
  obtain ⟨hInit, hTail⟩ := List.forall_mem_append.mp hDerived
  obtain ⟨first, second, rfl, hFirst, hSecond⟩ := hSpell.exists_append
  obtain ⟨middle, hMiddle, hRest⟩ := hReaches.exists_between
  exact ⟨middle, ⟨hInit, first, hFirst, hMiddle⟩, ⟨hTail, second, hSecond, hRest⟩⟩

theorem Lie.concat {middle : Place} (h : Lie below middle ts) (h' : Lie middle above us) :
    Lie below above (ts ++ us) := by
  obtain ⟨hDerived, cs, hSpell, hReaches⟩ := h
  obtain ⟨hDerived', ds, hSpell', hReaches'⟩ := h'
  exact ⟨List.forall_mem_append.mpr ⟨hDerived, hDerived'⟩, cs ++ ds, hSpell.append hSpell',
    hReaches.trans hReaches'⟩

theorem Lie.of_nil (h : Lie below above []) : above = below := by
  obtain ⟨_, _, hSpell, hReaches⟩ := h
  cases hSpell
  exact hReaches.eq_advance

/-- What may stand anywhere may be put on the head in the state. -/
def TakesExtras (s : Stack) (w state : Nat) : Prop :=
  state = Automaton.initial ∨ ∃ l, s.HasHead w l ∧ l.state = state

theorem TakesExtras.joins {t : Subtree} (h : s.TakesExtras w state) (hDerived : t.IsDerived)
    (hExtra : t.facts.isExtra = true) : Joins a (s.top w).state (some t) state :=
  ⟨hDerived, h.elim (fun hInitial => .inr (.inl hInitial)) fun ⟨_, hHead, hState⟩ =>
    .inr (.inr (.inl ⟨hExtra, hHead.top.state.trans hState⟩))⟩

structure Advances (text : List Char) (a : Automaton) (w : Nat) (above : Place) (s s' : Stack) :
    Prop where
  sound : s'.IsSound text a
  size : s'.heads.size = s.heads.size
  others : ∀ v ≠ w, Stays v s s'
  isAt : s'.IsAt w above

theorem Advances.trans {middle : Place} {u : Stack} (h : Advances text a w middle s s')
    (h' : Advances text a w above s' u) : Advances text a w above s u where
  sound := h'.sound
  size := h'.size.trans h.size
  others v hv := (h.others v hv).trans (h'.others v hv)
  isAt := h'.isAt

theorem advances_push {tree? : Option Subtree} (h : s.IsSound text a) (hw : w < s.heads.size)
    (hJoins : Joins a (s.top w).state tree? state) (hSpans : Spans (s.top w).place tree? above) :
    Advances text a w above s (s.push w tree? state) where
  sound := h.push hJoins hSpans
  size := size_heads_push s w tree? state
  others _ hv := stays_push s tree? state hv
  isAt := place_layerOn state hSpans ▸ (hasHead_push tree? state hw).isAt

theorem pushExtras (h : s.IsSound text a) (hw : s.IsAt w below) (hTop : s.TakesExtras w state)
    {extras : List Subtree} (hExtras : ∀ t ∈ extras, t.facts.isExtra = true)
    (hLie : Lie below above extras) :
    Advances text a w above s (extras.foldl (fun s e => s.push w (some e) state) s) := by
  induction extras generalizing s below with
  | nil =>
    exact ⟨h, rfl, fun v _ => .refl v s, hLie.of_nil ▸ hw⟩
  | cons t extras ih =>
    obtain ⟨hExtra, hExtras⟩ := List.forall_mem_cons.mp hExtras
    obtain ⟨middle, hFirst, hRest⟩ := (show Lie below above ([t] ++ extras) from hLie).append
    obtain ⟨hDerived, cs, hSpell, hReaches⟩ := hFirst
    cases hSpell with
    | @cons _ _ cs _ hSpells hNone =>
      cases hNone
      rw [List.append_nil] at hReaches
      have hSpans : Spans (s.top w).place (some t) middle :=
        ⟨hSpells.isBuilt_of_extra hExtra, cs, hSpells, hw.place_top.symm ▸ hReaches⟩
      have hPushed := advances_push h hw.lt_size
        (hTop.joins (hDerived t List.mem_cons_self) hExtra) hSpans
      refine hPushed.trans (ih hPushed.sound hPushed.isAt ?_ hExtras hRest)
      exact .inr ⟨_, hasHead_push (some t) state hw.lt_size, state_layerOn s _ _ state⟩

end Stack

/-- The trees spell out a production that the item ends, and the text between the places. -/
structure AreRead (last : Item) (below above : Place) (trees : List Subtree) : Prop where
  lie : Stack.Lie below above trees
  spelled : ∃ q ∈ Production.all, last.Ends q ∧
    List.Forall₂ FitsSymbol (bound trees) (q.steps.map Step.symbol)

/-- A node of the production that the item ends, with what may stand anywhere behind it. -/
structure IsMade (i : Item) (below above : Place) (made : Subtree × List Subtree) : Prop where
  derived : made.1.IsDerived
  origin : made.1.facts.origin = .symbol (.group i.group)
  bound : made.1.facts.isExtra = false
  extras : ∀ t ∈ made.2, t.facts.isExtra = true
  lie : ∃ middle, Stack.Spans below (some made.1) middle ∧ Stack.Lie middle above made.2

theorem isMade_of_areRead {i : Item} {below above : Place} {trees : List Subtree}
    (h : AreRead i below above trees) : IsMade i below above
      (make (.symbol (.group i.group)) i.form (splitExtras trees).1, (splitExtras trees).2) := by
  obtain ⟨hLie, q, hq, hEnds, hSteps⟩ := h
  rw [← splitExtras_append trees] at hLie
  obtain ⟨middle, ⟨hChildren, cs, hSpell, hReaches⟩, hExtras⟩ := hLie.append
  obtain ⟨f, hMake, hOrigin, _, hBound⟩ :=
    exists_make (.symbol (.group i.group)) i.form (splitExtras trees).1
  refine ⟨?_, by rw [hMake]; exact hOrigin, by rw [hMake]; exact hBound,
    fun t ht => isExtra_of_mem_splitExtras ht, middle, ⟨isBuilt_make _ _ _, cs, ?_, hReaches⟩,
    hExtras⟩
  · rw [hEnds.group, hEnds.form]
    exact .make_production hq (by rwa [bound_splitExtras]) hChildren
  · exact spells_make hSpell _ _ fun _ h => by cases h

/-- A node is put on a head where a move leads behind it, then what may stand anywhere. -/
theorem IsMade.push {i : Item} {node : Subtree} {extras : List Subtree} {below above : Place}
    (hMade : IsMade i below above (node, extras)) {text : List Char} {a : Automaton} {s : Stack}
    {w target : Nat} (h : s.IsSound text a) (hw : s.IsAt w below)
    (hTarget : target = Automaton.skipping ∨ a.Moves (s.top w).state (.group i.group) target) :
    Stack.Advances text a w above s (extras.foldl (fun s e => s.push w (some e) target)
      (s.push w (some (node.addWeight i.weight)) target)) := by
  obtain ⟨hDerived, hOrigin, hBound, hExtras, middle, ⟨hBuilt, cs, hSpells, hReaches⟩,
    hLie⟩ := hMade
  obtain ⟨hSameOrigin, hSameExtra⟩ := node.facts_addWeight i.weight
  have hJoins : Stack.Joins a (s.top w).state (some (node.addWeight i.weight)) target :=
    ⟨hDerived.addWeight _, hTarget.imp_right fun hMoves => .inr (.inr
      ⟨hSameExtra.trans hBound, _, hSameOrigin.trans hOrigin, hMoves⟩)⟩
  have hSpans : Stack.Spans (s.top w).place (some (node.addWeight i.weight)) middle :=
    ⟨hBuilt.addWeight _, cs, hSpells.addWeight _, hw.place_top.symm ▸ hReaches⟩
  have hPushed := Stack.advances_push h hw.lt_size hJoins hSpans
  refine hPushed.trans (Stack.pushExtras hPushed.sound hPushed.isAt ?_ hExtras hLie)
  exact .inr ⟨_, Stack.hasHead_push _ target hw.lt_size, Stack.state_layerOn s _ _ target⟩

namespace Reader

variable {text : List Char} {a : Automaton} {p : Progress} {v w first removed item : Nat} {i : Item}
  {l : Layer} {below above : Place}

theorem bestNode_isMade {readings : List (List Subtree)} (hSome : readings ≠ [])
    (h : ∀ trees ∈ readings, AreRead i below above trees) :
    ∃ made, bestNode i readings = some made ∧ IsMade i below above made := by
  cases readings with
  | nil => exact absurd rfl hSome
  | cons reading rest =>
    obtain ⟨hFirst, hRest⟩ := List.forall_mem_cons.mp h
    refine ⟨_, rfl, List.foldlRecOn rest _ (isMade_of_areRead hFirst)
      fun best hMade trees hMem => ?_⟩
    dsimp only
    split
    · exact isMade_of_areRead (hRest trees hMem)
    · exact hMade

/-- The slices that a node is still to be made of: their heads are the last ones, from the one with
the number `w` on, after `removed` heads in front of them are gone. The new heads in front of these
stand at the place already. -/
structure ArePending (i : Item) (place : Place) (first w removed : Nat) (s : Stack)
    (slices : List Stack.Slice) : Prop where
  heads : slices.map Stack.Slice.head = List.range' (w + removed) slices.length
  size : s.heads.size = w + slices.length
  done : ∀ u, first ≤ u → u < w → s.IsAt u place
  read : ∀ x ∈ slices, x.readings ≠ []
  readings : ∀ x ∈ slices, ∃ below, s.IsAt (x.head - removed) below ∧
    ∀ trees ∈ x.readings, AreRead i below place trees

namespace ArePending

variable {s s' : Stack} {place : Place} {slice : Stack.Slice} {rest : List Stack.Slice}

theorem head_eq (h : ArePending i place first w removed s (slice :: rest)) :
    slice.head = w + removed := by
  have hHeads := h.heads
  rw [List.length_cons, List.range'_succ] at hHeads
  exact (List.cons.inj hHeads).1

theorem heads_tail (h : ArePending i place first w removed s (slice :: rest)) :
    rest.map Stack.Slice.head = List.range' (w + removed + 1) rest.length := by
  have hHeads := h.heads
  rw [List.length_cons, List.range'_succ] at hHeads
  exact (List.cons.inj hHeads).2

theorem lt_size (h : ArePending i place first w removed s (slice :: rest)) : w < s.heads.size := by
  have hSize := h.size
  rw [List.length_cons] at hSize
  omega

theorem lt_head (h : ArePending i place first w removed s (slice :: rest)) {x : Stack.Slice}
    (hx : x ∈ rest) : w + removed < x.head := by
  have hMem : x.head ∈ List.range' (w + removed + 1) rest.length :=
    h.heads_tail ▸ List.mem_map_of_mem hx
  exact (List.mem_range'_1.mp hMem).1

theorem tail (h : ArePending i place first w removed s (slice :: rest)) (hSound : s.IsSound text a)
    (hPut : Stack.Advances text a w place s s') :
    ArePending i place first (w + 1) removed s' rest where
  heads := by
    rw [h.heads_tail, Nat.add_right_comm]
  size := by
    rw [hPut.size, h.size, List.length_cons]
    omega
  done u hFirst hu := by
    rcases Nat.lt_succ_iff_lt_or_eq.mp hu with hu | rfl
    · exact (hPut.others u hu.ne).isAt hSound (h.done u hFirst hu)
    · exact hPut.isAt
  read x hx := h.read x (List.mem_cons_of_mem _ hx)
  readings x hx := by
    obtain ⟨below, hAt, hRead⟩ := h.readings x (List.mem_cons_of_mem _ hx)
    have hBehind := h.lt_head hx
    exact ⟨below, (hPut.others _ (by omega)).isAt hSound hAt, hRead⟩

theorem tail_removed (h : ArePending i place first w removed s (slice :: rest))
    (hSound : s.IsSound text a) (hDrops : Stack.Drops w s s') :
    ArePending i place first w (removed + 1) s' rest where
  heads := h.heads_tail
  size := by
    have hSize := hDrops.size h.lt_size
    rw [h.size, List.length_cons] at hSize
    omega
  done u hFirst hu := (hDrops.before u hu).isAt hSound (h.done u hFirst hu)
  read x hx := h.read x (List.mem_cons_of_mem _ hx)
  readings x hx := by
    obtain ⟨below, hAt, hRead⟩ := h.readings x (List.mem_cons_of_mem _ hx)
    have hBehind := h.lt_head hx
    refine ⟨below, (hDrops.behind (x.head - (removed + 1)) (by omega)).isAt hSound ?_, hRead⟩
    rwa [show x.head - (removed + 1) + 1 = x.head - removed by omega]

end ArePending

theorem mergeInto_spec (h : p.IsSound text a) (w : Nat) (others : List Nat) :
    Ensures text (mergeInto w others) a p fun merged _ p' =>
      if merged then Stack.Drops w p.stack p'.stack ∧ others ≠ [] else p' = p := by
  cases hMerge : p.stack.mergeInto? w others with
  | none =>
    refine .onStack h ?_ ?_
    · rw [hMerge]
      exact h.stack
    · rw [hMerge]
      exact rfl
  | some merged =>
    obtain ⟨hSound, hDrops⟩ := Stack.mergeInto?_spec h.stack hMerge
    refine .onStack h ?_ ?_
    · rw [hMerge]
      exact hSound
    · rw [hMerge]
      refine ⟨hDrops, fun hNone => ?_⟩
      rw [hNone] at hMerge
      cases hMerge

theorem reduceSlices_spec (h : p.IsSound text a) {halted : Nat} {slices : List Stack.Slice}
    (hFirst : first ≤ w) (hPending : ArePending i above first w removed p.stack slices) :
    Ensures text (reduceSlices v i halted removed slices) a p fun _ _ p' =>
      (∀ u < first, Stack.Stays u p.stack p'.stack) ∧
        ∀ u, first ≤ u → u < p'.stack.heads.size → p'.stack.IsAt u above := by
  induction slices generalizing a p w removed with
  | nil =>
    refine .pure h ⟨fun u _ => .refl u _, fun u hFirst hu => hPending.done u hFirst ?_⟩
    rwa [hPending.size] at hu
  | cons slice rest ih =>
    have hHead : slice.head - removed = w := by
      rw [hPending.head_eq, Nat.add_sub_cancel]
    rw [reduceSlices, hHead]
    split
    · refine Ensures.bind (Q := fun _ _ p' => Stack.Drops w p.stack p'.stack)
        (.modifyStack h (h.stack.removeHead _) (Stack.drops_removeHead _ w))
        fun _ a' p' _ hp' hDrops => ?_
      refine (ih hp' hFirst (hPending.tail_removed h.stack hDrops)).imp fun _ _ _ hQ => ?_
      exact ⟨fun u hu => (hDrops.before u (hu.trans_le hFirst)).trans (hQ.1 u hu), hQ.2⟩
    · obtain ⟨below, hAt, hReadings⟩ := hPending.readings slice List.mem_cons_self
      rw [hHead] at hAt
      obtain ⟨⟨node, extras⟩, hBest, hMade⟩ :=
        bestNode_isMade (hPending.read slice List.mem_cons_self) hReadings
      rw [hBest]
      dsimp only
      refine .top_bind ?_
      rw [hMade.origin]
      refine (stateBehind_group h _ _).bind fun target a' p' _ hp' hQ => ?_
      obtain ⟨rfl, hTarget⟩ := hQ
      have hPut := hMade.push hp'.stack hAt hTarget
      refine Ensures.bind (Q := fun _ _ p'' => Stack.Advances text a' w above p'.stack p''.stack)
        (.modifyStack hp' hPut.sound hPut) fun _ b q hGrows hq hPut => ?_
      have hPushed (u : Nat) (hu : u < first) : Stack.Stays u p'.stack q.stack :=
        hPut.others u (hu.trans_le hFirst).ne
      refine (mergeInto_spec hq w _).bind fun merged c r _ hr hMerged => ?_
      cases merged with
      | true =>
        have hDrops : Stack.Drops w p'.stack r.stack := hMerged.1.of_others hPut.others hPut.size
        refine (ih hr hFirst (hPending.tail_removed hp'.stack hDrops)).imp fun _ _ _ hQ => ?_
        exact ⟨fun u hu => (hDrops.before u (hu.trans_le hFirst)).trans (hQ.1 u hu), hQ.2⟩
      | false =>
        obtain rfl : r = q := hMerged
        refine (ih hr (hFirst.trans (Nat.le_succ w)) (hPending.tail hp'.stack hPut)).imp
          fun _ _ _ hQ => ⟨fun u hu => (hPushed u hu).trans (hQ.1 u hu), hQ.2⟩

theorem reduce_eq : reduce = fun v item => (Automaton.item? item).elim (pure none) fun i => do
    let before ← headCount
    let slices ← onStack (·.pop v i.length)
    let halted := ((← getStack).heads.filter fun h => h.status == .halted).size
    reduceSlices v i halted 0 slices
    return if before < (← headCount) then some before else none := by
  delta reduce
  -- The tables are closed terms, which must not be computed where a `match` on them is opened.
  obtain ⟨found, hFree⟩ : ∃ found, found = Automaton.item? := ⟨_, rfl⟩
  rw [← hFree]
  funext v item
  cases found item <;> rfl

/-- What has been taken off a head in which a production ends are the steps of this production. -/
theorem arePending_of_pop {s : Stack} (hAutomaton : a.IsSound) (h : s.IsSound text a)
    (hHead : s.HasHead v l) (hEnds : a.EndsIn l.state item)
    (hItem : Automaton.item? item = some i) :
    ArePending i l.place s.heads.size s.heads.size 0 (s.pop v i.length).1 (s.pop v i.length).2 := by
  have hTaken := Stack.pop_taken h v i.length
  rw [← hHead.top.state] at hEnds
  refine ⟨hTaken.slices.heads, hTaken.slices.size, fun u hFirst hu => by omega,
    hTaken.slices.read, fun x hx => ?_⟩
  refine ⟨_, (Stack.hasHead_of_lt (hTaken.slices.head_bounds hx).2).isAt, fun trees ht => ?_⟩
  obtain ⟨q, ⟨hDescent, hCount⟩, rfl, hTop⟩ := hTaken.exists_way hx ht
  rw [hTop, ← hHead.top.place]
  exact ⟨hDescent.lie h, hDescent.spells hAutomaton h hEnds hItem hCount⟩

/-- Making nodes keeps all old heads, and the new ones come to stand where the head stands that the
trees are taken off. -/
theorem reduce_spec (h : p.IsSound text a) (hHead : p.stack.HasHead v l)
    (hEnds : a.EndsIn l.state item) :
    Ensures text (reduce v item) a p fun new? _ p' =>
      (∀ u < p.stack.heads.size, Stack.Stays u p.stack p'.stack) ∧
        ∀ new ∈ new?, p.stack.heads.size ≤ new ∧ p'.stack.IsAt new l.place := by
  rw [reduce_eq]
  dsimp only
  cases hItem : Automaton.item? item with
  | none => exact .pure h ⟨fun u _ => .refl u _, fun _ hNew => by cases hNew⟩
  | some i =>
    have hTaken := Stack.pop_taken h.stack v i.length
    refine .headCount_bind ?_
    refine Ensures.bind (Q := fun slices _ p' => (∀ u, Stack.Stays u p.stack p'.stack) ∧
      ArePending i l.place p.stack.heads.size p.stack.heads.size 0 p'.stack slices)
      (.onStack h hTaken.sound
        ⟨hTaken.stays, arePending_of_pop h.automaton h.stack hHead hEnds hItem⟩)
      fun slices a' p' _ hp' hPopped => ?_
    refine .getStack_bind ?_
    refine (reduceSlices_spec hp' (Nat.le_refl _) hPopped.2).bind fun _ b q _ hq hReduced => ?_
    refine .headCount_bind (.pure hq ⟨fun u hu => (hPopped.1 u).trans (hReduced.1 u hu),
      fun new hNew => ?_⟩)
    split at hNew
    · rename_i hMore
      rw [← Option.some.inj hNew]
      exact ⟨Nat.le_refl _, hReduced.2 _ (Nat.le_refl _) hMore⟩
    · cases hNew

end Reader

end TypeDiagram.Source
