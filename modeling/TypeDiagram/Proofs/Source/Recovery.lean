import TypeDiagram.Proofs.Source.Acceptance

/-! # Going on where nothing fits

Terminals are added only where the automaton moves behind them, and they take up no text. What is
skipped becomes an error, which spells the text between the layer that reading goes on from and the
place where it stopped.
-/

namespace TypeDiagram.Source

open Subtree

namespace Stack

variable {text : List Char} {a : Automaton} {s : Stack} {v w n state : Nat} {below above : Place}
  {trees : List Subtree}

theorem top_copyHead (s : Stack) (v : Nat) : (s.copyHead v).top s.heads.size = s.top v := by
  have hCopy : (s.copyHead v).head s.heads.size = { s.head v with resorts := none } := by
    rw [head, copyHead, Array.getElem?_push_size, Option.getD_some]
  rw [top, hCopy]
  rfl

theorem IsAt.replaceHead {new old : Nat} {place here : Place} (hAt : s.IsAt v here)
    (h : s.IsSound text a) (hNew : s.IsAt new place) (hOld : s.IsAt old place) (hLess : old < new)
    (hv : v < new) : (s.replaceHead new old).IsAt v here := by
  by_cases hSame : v = old
  · subst hSame
    have hReplaced := (hasHead_replaceHead s hLess hOld.lt_size).isAt
    rwa [hNew.place_top, ← hOld.place_top, hAt.place_top] at hReplaced
  · exact (stays_replaceHead s hSame hv).isAt h hAt

theorem IsSound.push_none (h : s.IsSound text a) (v : Nat) :
    (s.push v none Automaton.skipping).IsSound text a :=
  have hJoins : Joins a (s.top v).state none Automaton.skipping := rfl
  h.push hJoins rfl

theorem keepsPlaces_push_none (h : s.IsSound text a) (w : Nat) :
    s.KeepsPlaces n (s.push w none state) := by
  intro v _ place hAt
  by_cases hSame : v = w
  · subst hSame
    rw [← hAt.place_top]
    exact (hasHead_push none state hAt.lt_size).isAt
  · exact (stays_push s none state hSame).isAt h hAt

/-! ## Errors -/

theorem pushSkipped (h : s.IsSound text a) (hw : s.IsAt w below) (hTop : s.TakesExtras w state)
    (hLie : Lie below above trees) : Advances text a w above s
      ((splitExtras trees).2.foldl (fun s e => s.push w (some e) state)
        (if (splitExtras trees).1.isEmpty then s
          else s.push w (some (make .error .plain (splitExtras trees).1).asExtra) state)) := by
  rw [← splitExtras_append trees] at hLie
  obtain ⟨middle, hSkipped, hExtras⟩ := hLie.append
  have hAnywhere (t : Subtree) (ht : t ∈ (splitExtras trees).2) : t.facts.isExtra = true :=
    isExtra_of_mem_splitExtras ht
  split
  · rename_i hNone
    rw [List.isEmpty_iff.mp hNone] at hSkipped
    rw [hSkipped.of_nil] at hExtras
    exact pushExtras h hw hTop hAnywhere hExtras
  · obtain ⟨hDerived, cs, hSpell, hReaches⟩ := hSkipped
    have hError : Lie below middle [(make .error .plain (splitExtras trees).1).asExtra] :=
      ⟨List.forall_mem_singleton.mpr (.asExtra_error hDerived), cs,
        .singleton ((spells_make hSpell _ _ fun _ hOrigin => by cases hOrigin).asExtra
          (isBuilt_make _ _ _)), hReaches⟩
    exact pushExtras h hw hTop (List.forall_mem_cons.mpr ⟨rfl, hAnywhere⟩) (hError.concat hExtras)

/-- The parts of the error below a head lie above the layer below the error. This layer has the same
state, so what may stand anywhere may be put on it. -/
theorem popError_spec (h : s.IsSound text a) (hw : s.IsAt w above)
    (hState : (s.top w).state ≠ Automaton.skipping) {e : Slice} (he : e ∈ (s.popError w).2) :
    ∃ t below, e.readings.head?.bind List.head? = some t ∧ Lie below above t.children ∧
      ((s.popError w).1.replaceHead e.head w).IsAt w below ∧
      ((s.popError w).1.replaceHead e.head w).TakesExtras w (s.top w).state := by
  have hTaken := popError_taken h w
  obtain ⟨trees, hTrees⟩ := Option.isSome_iff_exists.mp
    (List.isSome_head?.mpr (hTaken.slices.read e he))
  obtain ⟨p, ⟨hDescent, t, rest, hError, hOrigin⟩, rfl, hTop⟩ :=
    hTaken.exists_way he (List.mem_of_head? hTrees)
  have hOne := hDescent.trees_eq hError
  have hBehind := hTaken.slices.head_bounds he
  have hReplaced := hasHead_replaceHead (s.popError w).1 (hw.lt_size.trans_le hBehind.1)
    ((hw.lt_size.trans_le hBehind.1).trans hBehind.2)
  rw [hTop] at hReplaced
  refine ⟨t, (s.layer p.layer).place, by rw [hTrees, Option.bind_some, hOne, List.head?_cons], ?_,
    hReplaced.isAt, ?_⟩
  · obtain ⟨hDerived, cs, hSpell, hReaches⟩ := hDescent.lie h
    rw [hOne] at hDerived hSpell
    cases hSpell with
    | @cons _ _ cs _ hSpells hNone =>
      cases hNone
      rw [List.append_nil] at hReaches
      refine ⟨fun c hc => (hDerived t List.mem_cons_self).child hc, cs, ?_, ?_⟩
      · refine hSpells.children (hDescent.isBuilt h t (hOne ▸ List.mem_cons_self))
          fun n hTerminal => ?_
        rw [hOrigin] at hTerminal
        cases hTerminal
      · exact hw.place_top ▸ hReaches
  · exact (hDescent.state_below_error h hState hOne hOrigin).imp_right fun hSame =>
      ⟨_, hReplaced, hSame⟩

/-- The readings of the slice lie between the layer in which its head ends and the place. -/
def Awaits (s : Stack) (above : Place) (x : Slice) : Prop :=
  ∃ below, s.IsAt x.head below ∧ x.readings ≠ [] ∧ ∀ trees ∈ x.readings, Lie below above trees

theorem Awaits.of_stays {s' : Stack} {x : Slice} (h : s.Awaits above x)
    (hSound : s.IsSound text a) (hStays : Stays x.head s s') : s'.Awaits above x := by
  obtain ⟨below, hAt, h⟩ := h
  exact ⟨below, hStays.isAt hSound hAt, h⟩

theorem Awaits.exists_first {x : Slice} (h : s.Awaits above x) : ∃ below trees,
    s.IsAt x.head below ∧ (x.readings.head?).getD [] = trees ∧ Lie below above trees := by
  obtain ⟨below, hAt, hSome, hLie⟩ := h
  obtain ⟨trees, hTrees⟩ := Option.isSome_iff_exists.mp (List.isSome_head?.mpr hSome)
  exact ⟨below, trees, hAt, by rw [hTrees, Option.getD_some],
    hLie trees (List.mem_of_head? hTrees)⟩

theorem awaits_pop (h : s.IsSound text a) (v count : Nat) : ∀ x ∈ (s.pop v count).2,
    (s.pop v count).1.Awaits (s.top v).place x ∧ s.heads.size ≤ x.head := by
  have hTaken := pop_taken h v count
  intro x hx
  have hBounds := hTaken.slices.head_bounds hx
  refine ⟨⟨_, (hasHead_of_lt hBounds.2).isAt, hTaken.slices.read x hx, fun trees ht => ?_⟩,
    hBounds.1⟩
  obtain ⟨p, ⟨hDescent, _⟩, rfl, hTop⟩ := hTaken.exists_way hx ht
  rw [hTop]
  exact hDescent.lie h

end Stack

namespace Reader

variable {text : List Char} {a : Automaton} {p : Progress} {n v state item : Nat}
  {place above : Place} {ahead : Subtree}

/-! ## Making all nodes -/

theorem endingsAt_spec (h : p.IsSound text a) (state : Nat) (terminals : List Nat) :
    Ensures text (endingsAt state terminals) a p fun found a' p' => p' = p ∧
      ∀ item ∈ found.1, a'.EndsIn state item := by
  obtain ⟨ends, hEnds⟩ : ∃ ends, ends = endingsAt := ⟨_, rfl⟩
  rw [← hEnds]
  delta endingsAt at hEnds
  -- The tables are closed terms, which must not be computed where a `match` on them is opened.
  obtain ⟨find, hFree⟩ : ∃ find, find = Automaton.item? := ⟨_, rfl⟩
  rw [← hFree] at hEnds
  subst hEnds
  dsimp only
  refine Ensures.bind (Q := fun found a' p' => p' = p ∧ ∀ item ∈ found.1, a'.EndsIn state item)
    (.forIn h ⟨rfl, fun _ hItem => absurd hItem List.not_mem_nil⟩ fun t _ found b q hq hFound => ?_)
    fun found b q _ hq hFound => .pure hq hFound
  refine (Ensures.lift hq (Automaton.ensures_actions hq.automaton state t)).bind
    fun acts c r hGrows hr hActs => ?_
  obtain ⟨rfl, hFits⟩ := hActs
  have hKept : ∀ item ∈ found.1, c.EndsIn state item := fun item hItem =>
    (hFound.2 item hItem).mono hGrows.states
  refine Ensures.bind (Q := fun found a' p' => (p' = p ∧ ∀ item ∈ found.1, a'.EndsIn state item) ∧
    ∀ act ∈ acts, a'.Fits state t act)
    (.forIn hr ⟨⟨hFound.1, hKept⟩, hFits⟩ fun act hAct found d u hu hQ => ?_)
    fun found d u _ hu hQ => .pure hu hQ.1
  obtain ⟨⟨hSame, hFound⟩, hFits⟩ := hQ
  split
  · split <;> exact .pure hu ⟨⟨hSame, hFound⟩, hFits⟩
  · exact .pure hu ⟨⟨hSame, hFound⟩, hFits⟩
  · rename_i new
    split
    · split
      · refine .pure hu ⟨⟨hSame, fun item hItem => ?_⟩, hFits⟩
        rcases List.mem_append.mp hItem with hItem | hItem
        · exact hFound item hItem
        · rw [List.mem_singleton.mp hItem]
          exact hFits _ hAct
      · exact .pure hu ⟨⟨hSame, hFound⟩, hFits⟩
    · exact .pure hu ⟨⟨hSame, hFound⟩, hFits⟩
  · exact .pure hu ⟨⟨hSame, hFound⟩, hFits⟩

/-- Making nodes of several productions keeps all old heads, and the last of the new ones stands
where the head stands that the nodes are made from. -/
theorem reduceItems_spec (h : p.IsSound text a) (hv : v < p.stack.heads.size) {items : List Nat}
    (hEnds : ∀ item ∈ items, a.EndsIn (p.stack.top v).state item) :
    Ensures text (forIn items none fun item _ => do
        let last ← reduce v item
        pure (ForInStep.yield last)) a p fun last _ p' =>
      (∀ u < p.stack.heads.size, Stack.Stays u p.stack p'.stack) ∧
        ∀ new ∈ last, p.stack.heads.size ≤ new ∧ p'.stack.IsAt new (p.stack.top v).place := by
  refine (Ensures.forIn (Q := fun last b q =>
    (∀ item ∈ items, b.EndsIn (p.stack.top v).state item) ∧
      (∀ u < p.stack.heads.size, Stack.Stays u p.stack q.stack) ∧
        ∀ new ∈ last, p.stack.heads.size ≤ new ∧ q.stack.IsAt new (p.stack.top v).place) h
    ⟨hEnds, fun u _ => .refl u _, fun _ hNew => absurd hNew (Option.not_mem_none _)⟩
    fun item hItem last b q hq hQ => ?_).imp fun _ _ _ hQ => hQ.2
  obtain ⟨hEnds, hStays, _⟩ := hQ
  have hHead := (hStays v hv).hasHead h.stack (Stack.hasHead_of_lt hv)
  have hSize : p.stack.heads.size ≤ q.stack.heads.size := by
    have hLast : p.stack.heads.size - 1 < p.stack.heads.size := by omega
    have hKept := ((hStays _ hLast).hasHead h.stack (Stack.hasHead_of_lt hLast)).lt_size
    omega
  refine (reduce_spec hq hHead (hEnds item hItem)).bind fun new? c r hGrows hr hNew => ?_
  exact .pure hr ⟨fun item hItem => (hEnds item hItem).mono hGrows.states,
    fun u hu => (hStays u hu).trans (hNew.1 u (hu.trans_le hSize)),
    fun new hMem => (hNew.2 new hMem).imp_left hSize.trans⟩

/-- Nodes are made from the head and from those behind the old ones. All heads in front of the given
number stay at their places if only later ones are dropped. -/
theorem keeps_reduceAllUpTo {start first : Nat} {terminal? : Option (Option Nat)}
    (hFirst : n ≤ first) (hStart : terminal?.isSome = true → n ≤ start) (fuel round : Nat) {v : Nat}
    (hv : start ≤ v) (canRead : Bool) :
    Keeps n (reduceAllUpTo start first terminal? fuel round v canRead) := by
  induction fuel generalizing round v canRead with
  | zero => exact .pure _
  | succ fuel ih =>
    intro text a p h
    unfold reduceAllUpTo
    refine .headCount_bind ?_
    split
    · exact .pure h (.refl n _)
    · rename_i hMore
      refine (mergeInto_spec h v _).bind fun merged b q _ hq hMerged => ?_
      split
      · rename_i hTrue
        rw [if_pos hTrue] at hMerged
        obtain ⟨hDrops, hSome⟩ := hMerged
        have hBehind : first < v := by
          by_contra hNot
          exact hSome (List.drop_eq_nil_of_le (by rw [List.length_range]; omega))
        refine (ih round.succ hv canRead text b q hq).imp fun _ _ _ => ?_
        exact (Stack.keepsPlaces_of_stays h.stack fun u hu => hDrops.before u (by omega)).trans
      · rename_i hFalse
        rw [if_neg hFalse] at hMerged
        subst hMerged
        have hLess := Nat.lt_of_not_le hMore
        dsimp -zeta -zetaHave only
        extract_lets terminals last next jump
        have hNext : start ≤ next := by
          dsimp only [next]
          split <;> omega
        have hJump : Keeps n (jump ()) := ih _ hNext _
        have hDrop : Keeps n (if terminal?.isSome = true then do
            let r ← modifyStack (·.removeHead v)
            jump r
          else jump ()) := by
          split
          · rename_i hSome
            refine .bind (.modifyStack fun _ _ s h => ⟨h.removeHead v, ?_⟩) fun _ => hJump
            exact Stack.keepsPlaces_of_stays h fun u hu =>
              (Stack.drops_removeHead s v).before u ((hu.trans_le (hStart hSome)).trans_le hv)
          · exact hJump
        refine .top_bind ((endingsAt_spec hq _ _).bind fun found c r _ hr hFound => ?_)
        obtain ⟨rfl, hEnds⟩ := hFound
        refine (reduceItems_spec hr hLess hEnds).bind fun last d u _ hu hMade => ?_
        obtain ⟨hStays, hLast⟩ := hMade
        have hKept : r.stack.KeepsPlaces n u.stack := Stack.keepsPlaces_of_size n
          (Stack.keepsPlaces_of_stays hr.stack hStays)
        have hThen {m : Reader Bool} (hm : Keeps n m) :
            Ensures text m d u fun _ _ p' => r.stack.KeepsPlaces n p'.stack :=
          (hm text d u hu).imp fun _ _ _ => hKept.trans
        dsimp only
        split
        · exact hThen (ih _ hNext _)
        · split
          · rename_i new
            split
            · obtain ⟨hBehind, hNew⟩ := hLast new rfl
              have hHere := (hStays v hLess).isAt hr.stack (Stack.hasHead_of_lt hLess).isAt
              have hReplaced : r.stack.KeepsPlaces n (u.stack.replaceHead new v) :=
                Stack.keepsPlaces_of_size n fun x hx place hAt =>
                  ((hStays x hx).isAt hr.stack hAt).replaceHead hu.stack hNew hHere
                    (hLess.trans_le hBehind) (hx.trans_le hBehind)
              refine Ensures.bind (Q := fun _ _ p' => r.stack.KeepsPlaces n p'.stack)
                (.modifyStack hu (hu.stack.replaceHead new v) hReplaced) fun _ e w _ hw hKept => ?_
              exact (ih _ hv _ text e w hw).imp fun _ _ _ => hKept.trans
            · exact hThen hDrop
          · exact hThen hDrop

/-- Making all nodes keeps all heads at their places if no terminal has to follow, and else those in
front of the one that the nodes are made from. -/
theorem keeps_reduceAll (v : Nat) {terminal? : Option (Option Nat)}
    (h : terminal?.isSome = true → n ≤ v) : Keeps n (reduceAll v terminal?) := by
  intro text a p hp
  unfold reduceAll
  refine .headCount_bind ?_
  have hFirst : min n p.stack.heads.size ≤ p.stack.heads.size := Nat.min_le_right _ _
  have hStart (hSome : terminal?.isSome = true) : min n p.stack.heads.size ≤ v :=
    (Nat.min_le_left _ _).trans (h hSome)
  refine (keeps_reduceAllUpTo hFirst hStart 1000 0 (Nat.le_refl v) false text a p hp).imp
    fun _ _ _ hKeeps u hu place hAt => ?_
  exact hKeeps u (Nat.lt_min.mpr ⟨hu, hAt.lt_size⟩) place hAt

/-! ## Adding a terminal -/

theorem canReduce_spec (h : p.IsSound text a) (state : Nat) (ahead : Subtree) :
    Ensures text (canReduce state ahead) a p fun _ _ p' => p' = p := by
  refine (actionsAt_spec h state ahead.facts.origin).bind fun acts b q _ hq hActs => ?_
  split <;> exact .pure hq hActs.1

theorem keeps_addMissing (v : Nat) (terminals : List Nat) :
    Keeps n (addMissing v ahead terminals) := by
  induction terminals with
  | nil => exact .pure _
  | cons t ts ih =>
    intro text a p h
    rw [addMissing]
    refine .top_bind ?_
    refine (Ensures.lift h (Automaton.ensures_behind h.automaton _ _)).bind
      fun next b q _ hq hNext => ?_
    obtain ⟨rfl, hNext⟩ := hNext
    split
    · exact ih text b q hq
    · rename_i hNe
      simp only [Bool.or_eq_true, beq_iff_eq, not_or] at hNe
      have hMoves := (hNext.resolve_left hNe.1).resolve_right fun h => hNe.2 h.1
      refine (canReduce_spec hq _ _).bind fun fits c r hGrows hr hSame => ?_
      subst hSame
      split
      · refine .headCount_bind ?_
        have hCopied := hr.stack.copyHead v
        have hJoins : Stack.Joins c ((r.stack.copyHead v).top r.stack.heads.size).state
            (some (.missing t)) next := by
          rw [Stack.top_copyHead]
          exact ⟨.leaf ⟨rfl, fun _ hGroup => by cases hGroup⟩,
            .inr (.inr (.inr ⟨rfl, _, rfl, hMoves.mono hGrows.states⟩))⟩
        have hNothing : [] <+: ((r.stack.copyHead v).top r.stack.heads.size).place.ahead :=
          List.nil_prefix
        have hSpans := Stack.spans_advance (isBuilt_of_terminal rfl) (spells_missing t) hNothing
        have hCopy (u : Nat) : Stack.Stays u r.stack (r.stack.copyHead v) :=
          .of_layers rfl (Stack.keepsHead_pushHead r.stack u _)
        have hAdded : r.stack.KeepsPlaces r.stack.heads.size
            ((r.stack.copyHead v).push r.stack.heads.size (some (.missing t)) next) :=
          Stack.keepsPlaces_of_stays hr.stack fun u hu =>
            (hCopy u).trans (Stack.stays_push _ _ _ hu.ne)
        refine Ensures.bind (Q := fun _ _ q => r.stack.KeepsPlaces r.stack.heads.size q.stack)
          (.modifyStack hr (hCopied.push hJoins hSpans) hAdded) fun _ d u _ hu hKept => ?_
        refine (keeps_reduceAll _ (fun _ => Nat.le_refl _) text d u hu).bind
          fun canRead e w _ hw hReduced => ?_
        have hKept := Stack.keepsPlaces_of_size n (hKept.trans hReduced)
        split
        · exact .pure hw hKept
        · exact (ih text e w hw).imp fun _ _ _ => hKept.trans
      · exact ih text c r hr

theorem keeps_markStopped (done : Bool) (heads : List Nat) :
    Keeps n (markStopped ahead done heads) := by
  induction heads generalizing done with
  | nil => exact .pure _
  | cons v heads ih =>
    have hRest (done : Bool) : Keeps n (do
        modifyStack (·.push v none Automaton.skipping)
        markStopped ahead done heads) :=
      .bind (.modifyStack fun _ _ _ h => ⟨h.push_none v,
        Stack.keepsPlaces_push_none h v⟩) fun _ => ih done
    rw [markStopped]
    split
    · exact hRest _
    · exact .bind (keeps_addMissing v _) hRest

/-! ## Going on further down -/

theorem resumeSlices_keeps {goal : Nat} (hGoal : goal ≠ Automaton.skipping) (found : Bool)
    {slices : List Stack.Slice} (h : p.IsSound text a)
    (hDistinct : slices.Pairwise fun x y => x.head ≠ y.head)
    (hSlices : ∀ x ∈ slices, p.stack.Awaits above x ∧ n ≤ x.head) :
    Ensures text (resumeSlices goal found slices) a p fun _ _ p' =>
      p.stack.KeepsPlaces n p'.stack := by
  induction slices generalizing a p found with
  | nil => exact .pure h (.refl n _)
  | cons slice rest ih =>
    obtain ⟨hOthers, hDistinct⟩ := List.pairwise_cons.mp hDistinct
    obtain ⟨⟨hAwaits, hBehind⟩, hRest⟩ := List.forall_mem_cons.mp hSlices
    have hNext (found : Bool) (b : Automaton) (q : Progress) (hq : q.IsSound text b)
        (hStays : ∀ u ≠ slice.head, u < p.stack.heads.size → Stack.Stays u p.stack q.stack) :
        Ensures text (resumeSlices goal found rest) b q fun _ _ p' =>
          p.stack.KeepsPlaces n p'.stack := by
      refine (ih found hq hDistinct fun x hx => ⟨?_, (hRest x hx).2⟩).imp
        fun _ _ _ hKeeps u hu place hAt => hKeeps u hu place ?_
      · obtain ⟨_, hAt, _⟩ := (hRest x hx).1
        exact (hRest x hx).1.of_stays h.stack (hStays _ (hOthers x hx).symm hAt.lt_size)
      · exact (hStays u (hu.trans_le hBehind).ne hAt.lt_size).isAt h.stack hAt
    rw [resumeSlices]
    refine .top_bind ?_
    split
    · have hStays (u : Nat) : Stack.Stays u p.stack (p.stack.halt slice.head) :=
        .of_layers rfl (Stack.keepsHead_modifyHead p.stack fun _ _ => rfl)
      refine Ensures.bind (Q := fun _ _ q => q.stack = p.stack.halt slice.head)
        (.modifyStack h (h.stack.halt _) rfl) fun _ b q _ hq hHalted => ?_
      exact hNext found b q hq fun u _ _ => hHalted ▸ hStays u
    · rename_i hSame
      have hState : (p.stack.top slice.head).state = goal := by simpa using hSame
      subst hState
      obtain ⟨below, trees, hAt, hTrees, hLie⟩ := hAwaits.exists_first
      have hTaken := Stack.popError_taken h.stack slice.head
      refine Ensures.bind (Q := fun errors _ q => q.stack = (p.stack.popError slice.head).1 ∧
        errors = (p.stack.popError slice.head).2) (.onStack h hTaken.sound ⟨rfl, rfl⟩)
        fun errors b q _ hq hErrors => ?_
      obtain ⟨hStack, rfl⟩ := hErrors
      dsimp -zeta -zetaHave only
      extract_lets jump
      have hJump (b : Automaton) (q : Progress) (hq : q.IsSound text b)
          (hStays : ∀ u ≠ slice.head, u < p.stack.heads.size → Stack.Stays u p.stack q.stack)
          {below : Place} (hAt : q.stack.IsAt slice.head below)
          (hTop : q.stack.TakesExtras slice.head (p.stack.top slice.head).state)
          (earlier : List Subtree) (hLie : Stack.Lie below above (earlier ++ trees)) :
          Ensures text (jump earlier) b q fun _ _ p' => p.stack.KeepsPlaces n p'.stack := by
        rw [← hTrees] at hLie
        have hPut := Stack.pushSkipped hq.stack hAt hTop hLie
        refine Ensures.bind (Q := fun _ _ r => ∀ u ≠ slice.head, u < p.stack.heads.size →
          Stack.Stays u p.stack r.stack) (.modifyStack hq hPut.sound fun u hu hOld =>
            (hStays u hu hOld).trans (hPut.others u hu)) fun _ c r _ hr hStays =>
              hNext true c r hr hStays
      split
      · refine hJump b q hq (fun u _ _ => hStack ▸ hTaken.stays u) ?_ ?_ [] hLie
        · rw [hStack]
          exact (hTaken.stays slice.head).isAt h.stack hAt
        · rw [hStack]
          exact .inr ⟨_, (hTaken.stays slice.head).hasHead h.stack
            (Stack.hasHead_of_lt hAt.lt_size), rfl⟩
      · rename_i e others hSome
        have hMem : e ∈ (p.stack.popError slice.head).2 := hSome ▸ List.mem_cons_self
        obtain ⟨t, lower, hFirst, hParts, hLower, hTop⟩ :=
          Stack.popError_spec h.stack hAt hGoal hMem
        have hNew := (hTaken.slices.head_bounds hMem).1
        refine Ensures.bind (Q := fun _ _ q' => q'.stack = q.stack.replaceHead e.head slice.head)
          (.modifyStack hq (hq.stack.replaceHead _ _) rfl) fun _ c r _ hr hReplaced => ?_
        rw [hStack] at hReplaced
        rw [← hReplaced] at hLower hTop
        refine hJump c r hr (fun u hu hOld => ?_) hLower hTop _ ?_
        · rw [hReplaced]
          exact (hTaken.stays u).trans (Stack.stays_replaceHead _ hu (hOld.trans_le hNew))
        · rw [hFirst]
          exact hParts.concat hLie

theorem keeps_resume {v count cost progress : Nat} {here : Extent} {ahead : Subtree}
    (resorts : List Resort) : Keeps n (resume v count cost progress here ahead resorts) := by
  induction resorts with
  | nil => exact .pure _
  | cons r resorts ih =>
    rw [resume]
    extract_lets depth
    split
    · exact ih
    · rename_i hNot
      have hGoal : r.state ≠ Automaton.skipping := fun h => hNot (by rw [h]; rfl)
      refine .bind .getStack fun s => ?_
      dsimp only
      split
      · exact ih
      · refine .bind (keeps_isOutdone v _) fun outdone => ?_
        split
        · exact .pure _
        · refine .bind (keeps_actionsAt _ _) fun acts => ?_
          split
          · exact ih
          · intro text a p h
            have hTaken := Stack.pop_taken h.stack v
              (if progress == 0 then r.depth else r.depth + 1)
            refine Ensures.bind (Q := fun slices _ q => (∀ u, Stack.Stays u p.stack q.stack) ∧
              (slices.Pairwise fun x y => x.head ≠ y.head) ∧
              ∀ x ∈ slices, q.stack.Awaits (p.stack.top v).place x ∧ p.stack.heads.size ≤ x.head)
              (.onStack h hTaken.sound ⟨hTaken.stays, hTaken.slices.pairwise_ne,
                Stack.awaits_pop h.stack v _⟩) fun slices b q _ hq hSlices => ?_
            obtain ⟨hStays, hDistinct, hAwaits⟩ := hSlices
            refine (resumeSlices_keeps hGoal false hq hDistinct hAwaits).bind
              fun resumed c r _ hr hResumed => ?_
            have hKept : p.stack.KeepsPlaces n r.stack := Stack.keepsPlaces_of_size n
              ((Stack.keepsPlaces_of_stays h.stack fun u _ => hStays u).trans hResumed)
            split
            · exact .pure hr hKept
            · exact (ih text c r hr).imp fun _ _ _ => hKept.trans

theorem mem_of_mem_extract {β : Type} {xs : Array β} {i j : Nat} {x : β} (h : x ∈ xs.extract i j) :
    x ∈ xs := by
  rw [← Array.mem_toList_iff, Array.toList_extract, List.extract_eq_take_drop] at h
  exact Array.mem_toList_iff.mp (List.mem_of_mem_drop (List.mem_of_mem_take h))

theorem getElem?_take_of_lt {β : Type} (xs : Array β) {i j : Nat} (h : i < j) :
    (xs.take j)[i]? = xs[i]? := by
  rw [Array.take, Array.getElem?_extract, Nat.sub_zero, Nat.zero_add]
  split
  · rfl
  · rename_i hNot
    exact (Array.getElem?_eq_none (by omega)).symm

theorem keeps_dropInactive (start : Nat) : Keeps start (dropInactive start) := by
  refine .modifyStack fun _ _ s h => ⟨h.withHeads fun found hFound => h.heads found ?_, ?_⟩
  · rcases Array.mem_append.mp hFound with hFound | hFound
    · exact mem_of_mem_extract hFound
    · exact mem_of_mem_extract (Array.mem_of_mem_filter hFound)
  · rintro v hv place ⟨found, hFound, hPlace⟩
    refine ⟨found, ?_, hPlace⟩
    have hTake : (s.heads.take start)[v]? = some found := by
      rw [getElem?_take_of_lt s.heads hv, hFound]
    rw [Array.getElem?_append_left (Array.getElem?_eq_some_iff.mp hTake).1, hTake]

/-! ## Skipping -/

theorem Stack.lie_errorRun {trees : List Subtree} (h : Stack.Lie place above trees) :
    Stack.Lie place above [make .errorRun .plain trees] := by
  obtain ⟨hDerived, cs, hSpell, hReaches⟩ := h
  exact ⟨List.forall_mem_singleton.mpr (.errorRun hDerived), cs,
    .singleton (spells_make hSpell _ _ fun _ hOrigin => by cases hOrigin), hReaches⟩

theorem skip_keeps {progress : Nat} (h : p.IsSound text a) (hAt : p.stack.IsAt v place)
    (hAhead : Stack.IsAhead place ahead) :
    Ensures text (skip v progress ahead) a p fun _ _ _ => True := by
  unfold skip
  refine (actionsAt_spec h _ _).bind fun acts b q _ hq hActs => ?_
  obtain ⟨rfl, hTerminal⟩ := hActs
  extract_lets isExtra run grown jump
  obtain ⟨cs, hSpells, hPrefix⟩ := hAhead.spells
  have hPart : (if isExtra then ahead.asExtra else ahead).Spells cs ∧
      (if isExtra then ahead.asExtra else ahead).IsDerived := by
    split
    · rename_i hExtra
      obtain ⟨t, hOrigin, _⟩ := hTerminal _ (List.mem_of_getLast? (beq_iff_eq.mp hExtra))
      exact ⟨hSpells.asExtra (isBuilt_of_terminal hOrigin), .asExtra_of_leaf hAhead.leaf⟩
    · exact ⟨hSpells, .leaf hAhead.leaf⟩
  have hRun : Stack.Lie place (place.advance (.of cs)) [run] :=
    Stack.lie_errorRun ⟨List.forall_mem_singleton.mpr hPart.2, cs, .singleton hPart.1,
      Place.reaches_advance hPrefix⟩
  have hJump {b : Automaton} {q : Progress} (hq : q.IsSound text b) {below : Place}
      (hAt : q.stack.IsAt v below) {grown : Subtree} (hBuilt : grown.IsBuilt)
      (hLie : Stack.Lie below (place.advance (.of cs)) [grown]) :
      Ensures text (jump () grown) b q fun _ _ _ => True := by
    obtain ⟨hDerived, ds, hSpell, hReaches⟩ := hLie
    cases hSpell with
    | @cons _ _ ds _ hSpells hNone =>
      cases hNone
      rw [List.append_nil] at hReaches
      have hSpans : Stack.Spans (q.stack.top v).place (some grown) (place.advance (.of cs)) :=
        ⟨hBuilt, ds, hSpells, hAt.place_top ▸ hReaches⟩
      exact .modifyStack hq
        (hq.stack.push ⟨hDerived grown List.mem_cons_self, .inl rfl⟩ hSpans) trivial
  split
  · have hTaken := Stack.pop_taken hq.stack v 1
    refine Ensures.bind (Q := fun slices _ r => r.stack.IsAt v place ∧
      ∀ x ∈ slices, r.stack.Awaits place x ∧ v < x.head) (.onStack hq hTaken.sound
        ⟨(hTaken.stays v).isAt hq.stack hAt, fun x hx => ?_⟩) fun slices c r _ hr hSlices => ?_
    · obtain ⟨hAwaits, hBehind⟩ := Stack.awaits_pop hq.stack v 1 x hx
      rw [hAt.place_top] at hAwaits
      exact ⟨hAwaits, hAt.lt_size.trans_le hBehind⟩
    · split
      · exact hJump hr hSlices.1 (isBuilt_make _ _ _) hRun
      · rename_i slice rest
        obtain ⟨hAwaits, hLess⟩ := hSlices.2 slice List.mem_cons_self
        obtain ⟨below, trees, hLower, hTrees, hLie⟩ := hAwaits.exists_first
        have hKept : ({ r.stack with heads := r.stack.heads.take (slice.head + 1) } :
            Stack).IsSound text c :=
          hr.stack.withHeads fun found hFound => hr.stack.heads found (mem_of_mem_extract hFound)
        refine Ensures.bind (Q := fun _ _ u => u.stack.IsAt v below)
          (.modifyStack hr (hKept.replaceHead slice.head v) ?_) fun _ d u _ hu hAt => ?_
        · obtain ⟨found, hFound, hPlace⟩ := hLower
          have hLower : Stack.IsAt { r.stack with heads := r.stack.heads.take (slice.head + 1) }
              slice.head below :=
            ⟨found, (getElem?_take_of_lt _ (Nat.lt_succ_self _)).trans hFound, hPlace⟩
          rw [← hLower.place_top]
          exact (Stack.hasHead_replaceHead _ hLess (hLess.trans hLower.lt_size)).isAt
        · refine hJump hu hAt (isBuilt_make _ _ _) (Stack.lie_errorRun ?_)
          rw [hTrees]
          exact hLie.concat hRun
  · exact hJump hq hAt (isBuilt_make _ _ _) hRun

/-! ## Recovering -/

theorem isAhead_terminal {t : Nat} (h : (terminalOf? ahead == some t) = true) :
    ahead.facts.origin = .symbol (.terminal t) := by
  unfold terminalOf? at h
  split at h
  · rename_i hOrigin
    rw [hOrigin, Option.some.inj (beq_iff_eq.mp h)]
  · cases h

theorem acceptError_keeps (h : p.IsSound text a) (hAt : p.stack.IsAt v place)
    (hAhead : Stack.IsAhead place ahead) {t : Nat}
    (hOrigin : ahead.facts.origin = .symbol (.terminal t)) :
    Ensures text (do
      modifyStack (·.push v (some (.make .error .plain [])) Automaton.initial)
      accept v ahead) a p fun _ _ _ => True := by
  have hSpans : Stack.Spans (p.stack.top v).place (some (.make .error .plain [])) place :=
    ⟨isBuilt_make _ _ _, [], spells_make .nil _ _ fun _ hError => (by cases hError),
      hAt.place_top ▸ .refl _⟩
  have hJoins : Stack.Joins a (p.stack.top v).state (some (.make .error .plain []))
      Automaton.initial :=
    ⟨.error fun _ ht => absurd ht List.not_mem_nil, .inr (.inl rfl)⟩
  have hPut := Stack.advances_push h.stack hAt.lt_size hJoins hSpans
  refine Ensures.bind (Q := fun _ _ q => q.stack = p.stack.push v
    (some (.make .error .plain [])) Automaton.initial) (.modifyStack h hPut.sound rfl)
    fun _ b q _ hq hStack => ?_
  have hHere := hStack ▸ hPut.isAt
  obtain ⟨above, hAbove, _⟩ := hAhead.exists_spans hOrigin
  rw [← hHere.place_top] at hAbove
  refine accept_keeps hq hHere.lt_size hAhead.leaf hAbove ?_
  rw [hStack]
  exact Stack.isClosed_push hAt.lt_size rfl fun _ hError => by cases hError

theorem recover_keeps (h : p.IsSound text a) (hAt : p.stack.IsAt v place)
    (hAhead : Stack.IsAhead place ahead) :
    Ensures text (recover v ahead) a p fun _ _ _ => True := by
  unfold recover
  refine .headCount_bind (.top_bind (.get_bind ?_))
  dsimp only
  have hLess := hAt.lt_size
  refine (keeps_progressOf (n := p.stack.heads.size) v text a p h).bind
    fun progress b q _ hq hKept => ?_
  refine (keeps_costOf (n := p.stack.heads.size) v text b q hq).bind fun cost c r _ hr hKept' => ?_
  have hHere := hKept' v hLess place (hKept v hLess place hAt)
  have hRest (resumed : Bool) (b : Automaton) (q : Progress) (hq : q.IsSound text b)
      (hAt : q.stack.IsAt v place) : Ensures text (do
      dropInactive p.stack.heads.size
      if resumed && maxHeads < (← headCount) then modifyStack (·.halt v)
      else if terminalOf? ahead == some Scanner.codes.endOfSource then
        modifyStack (·.push v (some (.make .error .plain [])) Automaton.initial)
        accept v ahead
      else if ← isOutdone v (cost + nodeCost + textCost ahead.extent) then modifyStack (·.halt v)
      else skip v progress ahead) b q fun _ _ _ => True := by
    have hHalt {b : Automaton} {q : Progress} (hq : q.IsSound text b) :
        Ensures text (modifyStack (·.halt v)) b q fun _ _ _ => True :=
      .modifyStack hq (hq.stack.halt v) trivial
    refine (keeps_dropInactive _ text b q hq).bind fun _ c r _ hr hDropped => .headCount_bind ?_
    have hAt := hDropped v hLess place hAt
    split
    · exact hHalt hr
    · split
      · rename_i hEnd
        exact acceptError_keeps hr hAt hAhead (isAhead_terminal hEnd)
      · refine (keeps_isOutdone (n := v + 1) v _ text c r hr).bind fun outdone d u _ hu hKept => ?_
        split
        · exact hHalt hu
        · exact skip_keeps hu (hKept v (Nat.lt_succ_self v) place hAt) hAhead
  split
  · exact Ensures.bind (Q := fun _ _ q => q = r) (.pure hr rfl) fun resumed d u _ hu hSame =>
      hRest resumed d u hu (hSame ▸ hHere)
  · exact (keeps_resume (n := v + 1) _ text c r hr).bind fun resumed d u _ hu hKept =>
      hRest resumed d u hu (hKept v (Nat.lt_succ_self v) place hHere)

theorem handleError_keeps (h : p.IsSound text a) (hAt : p.stack.IsAt v place)
    (hAhead : Stack.IsAhead place ahead) :
    Ensures text (handleError v ahead) a p fun _ _ _ => True := by
  have hHere (s : Stack) (h : p.stack.KeepsPlaces (v + 1) s) : s.IsAt v place :=
    h v (Nat.lt_succ_self v) place hAt
  unfold handleError
  refine .headCount_bind ?_
  refine (keeps_reduceAll (n := v + 1) v (fun hSome => by cases hSome) text a p h).bind
    fun _ b q _ hq hReduced => .headCount_bind ?_
  refine (keeps_markStopped (n := v + 1) _ _ text b q hq).bind fun _ c r _ hr hMarked => ?_
  have hMerges (xs : List Nat) : Keeps (v + 1) (forIn xs PUnit.unit fun _ r => do
      let _ ← mergeInto p.stack.heads.size [v]
      pure (ForInStep.yield r)) :=
    .forIn fun _ _ _ => .bind (keeps_mergeInto hAt.lt_size _) fun _ => .pure _
  refine (hMerges _ text c r hr).bind fun _ d u _ hu hMerged => ?_
  have hKept := ((hReduced.trans hMarked).trans hMerged).trans
    (u.stack.keepsPlaces_modifyHead (v + 1) v (f := fun h =>
      { h with resorts := some (u.stack.resortsOf v 16) }) fun _ => rfl)
  refine Ensures.bind (Q := fun _ _ w => w.stack.IsAt v place)
    (.modifyStack hu (hu.stack.modifyHead_same rfl (.inl rfl)) (hHere _ hKept))
    fun _ e w _ hw hAt => recover_keeps hw hAt hAhead

end Reader

end TypeDiagram.Source
