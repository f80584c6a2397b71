import TypeDiagram.Proofs.Source.Recovery
import TypeDiagram.Proofs.Source.Sighting

/-! # Reading on

What lies ahead of a head is a terminal, and it is put on the stack only where the automaton moves.
So all parts of the best reading of a text are derived, and together they spell the text from its
start on.
-/

namespace TypeDiagram.Source

open Subtree

namespace Reader

variable {text : List Char} {a : Automaton} {p : Progress} {n v : Nat} {l : Layer} {place : Place}
  {ahead : Subtree}

/-! ## The tree ahead -/

theorem exists_spells_leaf {f : Facts} {cs : List Char} (gap length : Nat)
    (hPadding : f.padding = .ofPrefix gap cs .none)
    (hSize : f.size = .ofPrefix length (cs.drop gap) .none)
    (hExtra : f.isExtra = true → IsBuilt (.node f []))
    (hWord : f.origin = .symbol (.terminal Terminal.identifier.code) ∨ f.isKeyword = true →
      isWholeWord ((cs.drop gap).take length) = true) :
    ∃ text, Spells (.node f []) text ∧ text <+: cs := by
  rw [Extent.ofPrefix_eq, Extent.none_add] at hPadding hSize
  refine ⟨_, .leaf hPadding hSize hExtra fun h _ => hWord h, (cs.drop gap).drop length, ?_⟩
  rw [List.append_assoc, List.take_append_drop, List.take_append_drop]

theorem isAhead_leaf (place : Place) {origin : Origin} (gap length : Nat)
    (hOrigin : ∀ g, origin ≠ .symbol (.group g))
    (hWord : origin = .symbol (.terminal Terminal.identifier.code) →
      isWholeWord ((place.ahead.drop gap).take length) = true) :
    Stack.IsAhead place (.leaf origin (.ofPrefix gap place.ahead .none)
      (.ofPrefix length (place.ahead.drop gap) .none)) where
  leaf := ⟨rfl, hOrigin⟩
  extra h := by cases h
  keyword _ := rfl
  spells := exists_spells_leaf gap length rfl rfl (fun h => by cases h)
    fun h => hWord (h.resolve_right Bool.false_ne_true)

theorem isAhead_endOfSource {t : Nat} (h : t = Terminal.endOfSource.code) (place : Place)
    (gap length : Nat) :
    Stack.IsAhead place (Subtree.leaf (.symbol (.terminal t)) (.ofPrefix gap place.ahead .none)
      (.ofPrefix length (place.ahead.drop gap) .none)).asExtra where
  leaf := ⟨rfl, fun _ h => by cases h⟩
  extra _ := by rw [h]; rfl
  keyword h := by cases h
  spells := by
    refine exists_spells_leaf gap length rfl rfl (fun _ => isBuilt_of_terminal rfl) fun hWord => ?_
    have hSame := Symbol.terminal.inj (Origin.symbol.inj (hWord.resolve_right Bool.false_ne_true))
    exact absurd hSame (Scanner.code_ne_of_mem_classes (by decide) h)

theorem codes_endOfSource : Scanner.codes.endOfSource = Terminal.endOfSource.code := by
  rw [Scanner.codes]

theorem codes_identifier : Scanner.codes.identifier = Terminal.identifier.code := by
  rw [Scanner.codes]

theorem lookAhead_spec (h : p.IsSound text a) (v : Nat) :
    Ensures text (lookAhead v) a p fun t _ p' =>
      p' = p ∧ Stack.IsAhead (p.stack.top v).place t := by
  unfold lookAhead
  refine .getStack_bind ?_
  extract_lets l cs leafOf stray gap advanced
  refine (Ensures.lift (m := Automaton.state l.state) (Q := fun _ _ => True) h
    ⟨h.automaton.refl, trivial⟩).bind fun st b q _ hq hSame => ?_
  obtain ⟨rfl, _⟩ := hSame
  extract_lets expected spelled landmark? jump
  have hLeaf (w : Sighting) (hWord : w.IsWord cs) :
      Stack.IsAhead l.place (leafOf w.terminal w.gap w.length) :=
    isAhead_leaf _ _ _ (fun _ h => by cases h) fun hCode =>
      hWord (Symbol.terminal.inj (Origin.symbol.inj hCode))
  have hSpelled (w : Sighting) (hWord : w.IsWord cs) : Stack.IsAhead l.place (spelled w) := by
    dsimp only [spelled]
    split
    · rename_i hKeyword
      refine ⟨⟨rfl, fun _ h => by cases h⟩, fun h => absurd h Bool.false_ne_true, fun _ => rfl,
        exists_spells_leaf w.gap w.length rfl rfl (fun h => by cases h)
          fun _ => hWord ?_⟩
      split at hKeyword
      · rename_i hCode
        exact (beq_iff_eq.mp hCode).trans codes_identifier
      · cases hKeyword
    · split
      · rename_i hEnd
        exact isAhead_endOfSource ((beq_iff_eq.mp hEnd).trans codes_endOfSource) _ _ _
      · exact hLeaf w hWord
  have hLandmark : Stack.IsAhead l.place (landmark? ()) := by
    dsimp only [landmark?]
    split
    · split
      · rename_i w hSpelling
        exact hSpelled w (Scanner.spelled?_isWord hSpelling)
      · exact isAhead_leaf l.place 0 0 (fun _ h => by cases h) fun h => by cases h
    · exact isAhead_leaf _ _ _ (fun _ h => by cases h) fun h => by cases h
  have hJump (c : Automaton) (hc : q.IsSound text c) {contextual? : Option Sighting}
      (hContextual : ∀ w ∈ contextual?, w.terminal ≠ Terminal.identifier.code) :
      Ensures text (jump contextual?) c q fun t _ p' =>
        p' = q ∧ Stack.IsAhead (q.stack.top v).place t := by
    dsimp only [jump]
    split
    · rename_i w
      exact .pure hc ⟨rfl, hLeaf w fun hCode => absurd hCode (hContextual w rfl)⟩
    · split
      · rename_i w hSpelling
        exact .pure hc ⟨rfl, hSpelled w (Scanner.spelled?_isWord hSpelling)⟩
      · exact .pure hc ⟨rfl, hLandmark⟩
  have hNone : ∀ w ∈ (none : Option Sighting), w.terminal ≠ Terminal.identifier.code :=
    fun _ hw => by cases hw
  split
  · exact hJump b hq hNone
  · split
    · rename_i w hFound
      have hSome : ∀ w' ∈ some w, w'.terminal ≠ Terminal.identifier.code := fun w' hw =>
        Option.some.inj hw ▸ Scanner.contextual?_ne_identifier hFound
      split
      · refine (Ensures.lift hq (Automaton.ensures_behind hq.automaton _ _)).bind
          fun target c r _ hr hSame => ?_
        obtain ⟨rfl, _⟩ := hSame
        refine hJump c hr fun w' hw => ?_
        split at hw
        · cases hw
        · exact hSome w' hw
      · exact hJump b hq hSome
    · exact hJump b hq hNone

/-! ## Reading the tree ahead -/

/-- The tree ahead is put on the stack where the automaton moves, or where it may stand anywhere. -/
theorem act_keeps (hAhead : Stack.IsAhead l.place ahead) (h : p.IsSound text a)
    (hHead : p.stack.HasHead v l) {acts : List Action}
    (hActs : ∀ act ∈ acts, ∃ t, ahead.facts.origin = .symbol (.terminal t) ∧
      a.Fits l.state t act)
    {last : Option Nat} (hLast : ∀ new ∈ last, v < new ∧ p.stack.IsAt new l.place)
    (reduced : Bool) :
    Ensures text (act v ahead last reduced acts) a p fun r _ p' =>
      r.1 = false → p'.stack.HasHead v l ∧
        ∀ new ∈ r.2.1, v < new ∧ p'.stack.IsAt new l.place := by
  induction acts generalizing a p last reduced with
  | nil => exact .pure h fun _ => ⟨hHead, hLast⟩
  | cons action rest ih =>
    obtain ⟨⟨t, hOrigin, hFits⟩, hRest⟩ := List.forall_mem_cons.mp hActs
    obtain ⟨above, hSpans, hSpansExtra⟩ := hAhead.exists_spans hOrigin
    rw [← hHead.top.place] at hSpans hSpansExtra
    have hDone {m : Reader Unit} (hm : Ensures text m a p fun _ _ _ => True) :
        Ensures text (m >>= fun _ => pure (true, last, reduced)) a p fun r _ p' =>
          r.1 = false → p'.stack.HasHead v l ∧
            ∀ new ∈ r.2.1, v < new ∧ p'.stack.IsAt new l.place :=
      hm.bind fun _ _ _ _ hp' _ => .pure hp' fun h => by cases h
    unfold act
    split
    · rename_i target repeats
      split
      · exact ih h hHead hRest hLast reduced
      · have hJoins := hAhead.joins hOrigin hFits
        rw [← hHead.top.state] at hJoins
        exact hDone (.modifyStack h (h.stack.push hJoins hSpans) trivial)
    · exact .top_bind (hDone
        (.modifyStack h (h.stack.push (hAhead.joins_asExtra _) hSpansExtra) trivial))
    · refine (reduce_spec h hHead hFits).bind fun new? b q hGrows hq hNew => ?_
      refine ih hq ((hNew.1 v hHead.lt_size).hasHead h.stack hHead) (fun act hAct => ?_)
        (fun new hMem => ?_) true
      · obtain ⟨t, hOrigin, hFits⟩ := hRest act hAct
        exact ⟨t, hOrigin, hFits.mono hGrows.states⟩
      · cases new? with
        | none =>
          obtain ⟨hLess, hAt⟩ := hLast new hMem
          exact ⟨hLess, (hNew.1 new hAt.lt_size).isAt h.stack hAt⟩
        | some found => exact (hNew.2 new hMem).imp_left hHead.lt_size.trans_le
    · obtain ⟨item, i, hEnds, hItem, hSource⟩ := hFits
      refine hDone (accept_keeps h hHead.lt_size hAhead.leaf hSpans fun q hq => ?_)
      rw [← hHead.top.state] at hEnds
      exact hq.endsInGroup h.automaton h.stack hEnds hItem hSource
    · exact hDone (recover_keeps h hHead.isAt hAhead)

theorem isAhead_asIdentifier {t : Subtree} (hAhead : Stack.IsAhead place ahead)
    (h : asIdentifier? ahead = some t) : Stack.IsAhead place t := by
  obtain ⟨f, children⟩ := ahead
  rw [asIdentifier?] at h
  split at h
  · rename_i hKeyword
    obtain rfl := Option.some.inj h
    have hNoExtra := hAhead.keyword hKeyword
    obtain ⟨cs, hSpells, hPrefix⟩ := hAhead.spells
    refine ⟨⟨hAhead.leaf.children, fun _ h => by cases h⟩, fun hExtra => ?_,
      fun h => (by cases h), cs, ?_, hPrefix⟩
    · cases hExtra.symm.trans hNoExtra
    · cases hSpells with
      | leaf hPadding hSize _ hWord =>
        exact .leaf hPadding hSize (fun hExtra => by cases hExtra.symm.trans hNoExtra)
          fun _ hThere => hWord (.inr hKeyword) hThere
      | node => cases hAhead.leaf.children
  · cases h

/-- Where nothing fits, the text is skipped, or the head waits with the tree ahead. -/
theorem stop_keeps (hAhead : Stack.IsAhead place ahead) (h : p.IsSound text a)
    (hAt : p.stack.IsAt v place) (state : Nat) :
    Ensures text (if state == Automaton.skipping then recover v ahead
      else modifyStack fun s =>
        let shown := (s.top v).shown
        s.modifyHead v fun h =>
          { h with status := .paused, ahead? := some ahead, shownAtError := shown }) a p
      fun _ _ _ => True := by
  split
  · exact recover_keeps h hAt hAhead
  · refine .modifyStack h (h.stack.modifyHead ⟨h.stack.head_layer_lt v, fun t ht => ?_⟩) trivial
    rw [← Option.some.inj ht]
    exact hAt.place_top ▸ hAhead

theorem readAhead_keeps (fuel : Nat) (hAhead : Stack.IsAhead place ahead) (h : p.IsSound text a)
    (hAt : p.stack.IsAt v place) : Ensures text (readAhead v fuel ahead) a p fun _ _ _ => True := by
  have hHalt {a : Automaton} {p : Progress} (h : p.IsSound text a) :
      Ensures text (modifyStack (·.halt v)) a p fun _ _ _ => True :=
    .modifyStack h (h.stack.halt v) trivial
  induction fuel generalizing a p ahead with
  | zero => exact hHalt h
  | succ fuel ih =>
    unfold readAhead
    refine .top_bind ((actionsAt_spec h _ _).bind fun acts b q _ hq hActs => ?_)
    obtain ⟨rfl, hActs⟩ := hActs
    have hPlace := hAt.place_top
    refine (act_keeps (hPlace ▸ hAhead) hq (Stack.hasHead_of_lt hAt.lt_size) hActs
      (fun _ h => by cases h) false).bind fun r c u _ hu hGone => ?_
    obtain ⟨gone, last, reduced⟩ := r
    dsimp only at hGone ⊢
    split
    · exact .pure hu trivial
    · rename_i hNot
      obtain ⟨hHead, hLast⟩ := hGone (Bool.eq_false_iff.mpr hNot)
      rw [hPlace] at hLast
      split
      · rename_i new
        obtain ⟨hLess, hNew⟩ := hLast new rfl
        have hReplaced := (Stack.hasHead_replaceHead u.stack hLess hHead.lt_size).isAt
        rw [hNew.place_top] at hReplaced
        exact Ensures.bind (Q := fun _ _ w => w.stack.IsAt v place)
          (.modifyStack hu (hu.stack.replaceHead new v) hReplaced)
          fun _ d w _ hw hAt => ih hAhead hw hAt
      · have hHere := hHead.isAt
        rw [hPlace] at hHere
        split
        · exact hHalt hu
        · split
          · rename_i t hIdentifier
            refine (actionsAt_spec hu _ _).bind fun found d w _ hw hSame => ?_
            obtain ⟨rfl, _⟩ := hSame
            refine Ensures.bind (Q := fun t? _ p' => p' = w ∧ ∀ t' ∈ t?, t' = t)
              (.pure hw ⟨rfl, fun t' ht' => ?_⟩) fun t? e x _ hx hSame => ?_
            · split at ht'
              · exact (Option.some.inj ht').symm
              · cases ht'
            · obtain ⟨rfl, hSame⟩ := hSame
              split
              · rename_i t'
                rw [hSame t' rfl]
                exact ih (isAhead_asIdentifier hAhead hIdentifier) hx hHere
              · exact stop_keeps hAhead hx hHere _
          · exact stop_keeps hAhead hu hHere _

theorem advance_keeps (h : p.IsSound text a) (hv : v < p.stack.heads.size) :
    Ensures text (advance v) a p fun _ _ _ => True := by
  refine (lookAhead_spec h v).bind fun ahead b q _ hq hAhead => ?_
  obtain ⟨rfl, hAhead⟩ := hAhead
  exact readAhead_keeps 10000 hAhead hq (Stack.hasHead_of_lt hv).isAt

/-! ## Keeping the best readings -/

theorem keeps_changeHeads {f : Stack → Stack}
    (hf : ∀ (text : List Char) (a : Automaton) (s : Stack), s.IsSound text a →
      (f s).IsSound text a) : Keeps 0 (modifyStack f) :=
  .modifyStack fun text a s h => ⟨hf text a s h, fun v hv => absurd hv (Nat.not_lt_zero v)⟩

theorem keeps_condenseHead (standing : Standing) (fuel i j : Nat) :
    Keeps 0 (condenseHead standing fuel i j) := by
  induction fuel generalizing i j with
  | zero => exact .pure _
  | succ fuel ih =>
    have hRemove (v : Nat) : Keeps 0 (modifyStack (·.removeHead v)) :=
      keeps_changeHeads fun _ _ _ h => h.removeHead v
    have hMerge : Keeps 0 (mergeInto i [j]) := keeps_mergeInto (Nat.zero_le i) _
    rw [condenseHead]
    split
    · exact .pure _
    · refine .bind (keeps_standingOf j) fun theirs => ?_
      split
      · exact .bind (hRemove i) fun _ => .pure _
      · exact .bind hMerge fun merged => .ite (.pure _) (ih _ _)
      · exact .bind hMerge fun merged => .ite (.pure _) (ih _ _)
      · exact .bind hMerge fun merged => .ite (.pure _)
          (.bind (keeps_changeHeads fun _ _ _ h => h.swapHeads i j) fun _ => ih _ _)
      · exact .bind (hRemove j) fun _ => ih _ _

theorem keeps_condenseFrom (fuel i : Nat) (least : Option Nat) :
    Keeps 0 (condenseFrom fuel i least) := by
  induction fuel generalizing i least with
  | zero => exact .pure _
  | succ fuel ih =>
    rw [condenseFrom]
    refine .bind .headCount fun count => ?_
    split
    · exact .pure _
    · refine .bind (.statusOf i) fun status => ?_
      split
      · exact .bind (keeps_changeHeads fun _ _ _ h => h.removeHead i) fun _ => ih _ _
      · refine .bind (keeps_standingOf i) fun standing => ?_
        exact .bind (keeps_condenseHead _ _ _ _) fun _ => ih _ _

/-- The tree ahead of a paused head is still what lies ahead of it when reading goes on. -/
theorem keeps_resumePaused (fuel i : Nat) (goesOn : Bool) (least : Option Nat) :
    Keeps 0 (resumePaused fuel i goesOn least) := by
  induction fuel generalizing i goesOn least with
  | zero => exact .pure _
  | succ fuel ih =>
    refine .zero fun text a p h => ?_
    have hRest {m : Reader (Option Nat)} (hm : Keeps 0 m) :
        Ensures text m a p fun _ _ _ => True := (hm text a p h).imp fun _ _ _ _ => trivial
    unfold resumePaused
    refine .headCount_bind ?_
    split
    · exact .pure h trivial
    · rename_i hMore
      refine .getStack_bind ?_
      dsimp only
      split
      · rename_i ahead _ hPaused
        have hAhead : Stack.IsAhead (p.stack.top i).place ahead :=
          (h.stack.head_fits i).2 ahead hPaused
        have hAt := (Stack.hasHead_of_lt (Nat.lt_of_not_le hMore)).isAt
        refine .get_bind ?_
        split
        · refine (keeps_costOf (n := i + 1) i text a p h).bind fun cost b q _ hq hKept => ?_
          have hHere := hKept i (Nat.lt_succ_self i) _ hAt
          have hActive := Stack.keepsPlaces_modifyHead (i + 1) q.stack i
            (f := ({ · with status := .active, ahead? := none })) (fun _ => rfl) i
            (Nat.lt_succ_self i) _ hHere
          refine Ensures.bind (Q := fun _ _ r => r.stack.IsAt i (p.stack.top i).place)
            (.modifyStack hq (hq.stack.modifyHead_same rfl (.inr rfl)) hActive)
            fun _ c r _ hr hAt => ?_
          exact (handleError_keeps hr hAt hAhead).keeps_bind fun _ => ih _ _ _
        · exact hRest (.bind (keeps_changeHeads fun _ _ _ h => h.removeHead i) fun _ => ih _ _ _)
      · exact hRest (ih _ _ _)

theorem keeps_condense : Keeps 0 condense := by
  unfold condense
  refine .bind .headCount fun count => .bind (keeps_condenseFrom _ _ _) fun least => ?_
  refine .bind (keeps_changeHeads fun _ _ _ h => ?_) fun _ => keeps_resumePaused _ _ _ _
  exact h.withHeads fun found hFound => h.heads found (mem_of_mem_extract hFound)

/-! ## Reading all -/

theorem keeps_advanceBeyond (v fuel reached : Nat) : Keeps 0 (advanceBeyond v fuel reached) := by
  induction fuel generalizing reached with
  | zero => exact .pure _
  | succ fuel ih =>
    refine .zero fun text a p h => ?_
    unfold advanceBeyond
    refine .headCount_bind (.statusOf_bind ?_)
    split
    · exact .pure h trivial
    · rename_i hGo
      simp only [Bool.or_eq_true, decide_eq_true_eq, not_or, Nat.not_le] at hGo
      refine (advance_keeps h hGo.1).keeps_bind (n := 0) fun _ => .bind .getStack fun s => ?_
      exact .ite (.pure _) (ih _)

theorem keeps_advanceFrom (fuel v reached : Nat) : Keeps 0 (advanceFrom fuel v reached) := by
  induction fuel generalizing v reached with
  | zero => exact .pure _
  | succ fuel ih =>
    rw [advanceFrom]
    refine .bind .headCount fun count => ?_
    split
    · exact .pure _
    · exact .bind (keeps_advanceBeyond v _ _) fun _ => ih _ _

theorem keeps_readAll (fuel reached : Nat) : Keeps 0 (readAll fuel reached) := by
  induction fuel generalizing reached with
  | zero => exact .pure _
  | succ fuel ih =>
    rw [readAll]
    refine .bind (keeps_advanceFrom _ _ _) fun reached => .bind keeps_condense fun least => ?_
    exact .bind .get fun p => .bind .headCount fun count => .ite (.pure _) (ih _)

theorem isSound_start (text : List Char) :
    Progress.IsSound text Automaton.start ⟨.start text, none, 0⟩ where
  automaton := Automaton.isSound_start
  stack := by
    have hOnly {n : Nat} (hn : n < (Stack.start text).layers.size) : n = 0 :=
      Nat.lt_one_iff.mp hn
    refine ⟨fun n link hLink => ?_, fun found hFound => ?_, fun n hn => ?_, fun n hn _ => ?_,
      Nat.zero_lt_one, rfl⟩
    · have hNone : ((Stack.start text).layer n).links = [] := by
        unfold Stack.layer Stack.start
        cases n <;> rfl
      rw [hNone] at hLink
      cases hLink
    · rw [Array.mem_singleton.mp hFound]
      exact ⟨Nat.zero_lt_one, fun t ht => by cases ht⟩
    · rw [hOnly hn]
      exact ⟨[], .refl _⟩
    · rw [hOnly hn]
      rfl
  finished root hRoot := by cases hRoot

theorem read?_eq : read? = fun text =>
    (StateT.run (StateT.run (readAll (16 * text.length + 1000) 0) ⟨.start text, none, 0⟩)
      Automaton.start).1.2.finished? := by
  delta read?
  rfl

theorem isReading_of_read? {root : Subtree} (h : read? text = some root) :
    root.IsReading text := by
  rw [read?_eq] at h
  dsimp only at h
  -- A number in the fuel would be counted down where the run is compared.
  generalize 16 * text.length + 1000 = fuel at h
  exact (keeps_readAll fuel 0 _ _ _ (isSound_start text)).2.1.finished root h

end Reader

end TypeDiagram.Source
