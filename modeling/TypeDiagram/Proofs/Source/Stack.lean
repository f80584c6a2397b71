import TypeDiagram.Proofs.Source.Automaton
import TypeDiagram.Proofs.Source.Derivation
import TypeDiagram.Proofs.Source.Spelling
import TypeDiagram.Source.Stack

/-! # Ways down the stack

A layer of the stack lies on another one as the automaton moves from state to state, so a way down
from a layer in which a production ends passes trees that spell out the production. The tree between
two layers spells the text between their places, so the trees on a way down spell all of the text
from the layer that it reaches.
-/

namespace TypeDiagram.Source

open Subtree

namespace Stack

variable {text : List Char} {a a' : Automaton} {s : Stack} {n v below state : Nat}
  {tree? : Option Subtree} {link : Link} {p : Path} {place : Place} {GoesOn : Path → Prop}

/-- The tree leads from the one state to the other. Nothing is asked of a tree behind which text is
skipped, or the text ends. -/
def Joins (a : Automaton) (below : Nat) : Option Subtree → (state : Nat) → Prop
  | none, state => state = Automaton.skipping
  | some t, state => t.IsDerived ∧ (state = Automaton.skipping ∨ state = Automaton.initial ∨
      (t.facts.isExtra = true ∧ below = state) ∨
      (t.facts.isExtra = false ∧ ∃ x, t.facts.origin = .symbol x ∧ a.Moves below x state))

/-- The tree spells the text from the one place to the other. -/
def Spans (below : Place) : Option Subtree → (above : Place) → Prop
  | none, above => above = below
  | some t, above => t.IsBuilt ∧ ∃ text, t.Spells text ∧ below.Reaches text above

/-- A terminal that may lie ahead of a head at the place. Only the end of the source may stand
anywhere. -/
structure IsAhead (place : Place) (t : Subtree) : Prop where
  leaf : t.IsLeaf
  extra : t.facts.isExtra = true → t.facts.origin = .symbol (.terminal Terminal.endOfSource.code)
  keyword : t.facts.isKeyword = true → t.facts.isExtra = false
  spells : ∃ text, t.Spells text ∧ text <+: place.ahead

/-- The layers lie on others as the automaton moves, and as far behind them in the text as the trees
between them reach. -/
structure IsSound (text : List Char) (a : Automaton) (s : Stack) : Prop where
  links : ∀ n, ∀ link ∈ (s.layer n).links, link.layer < s.layers.size ∧
    Joins a (s.layer link.layer).state link.tree? (s.layer n).state ∧
    Spans (s.layer link.layer).place link.tree? (s.layer n).place
  heads : ∀ h ∈ s.heads, h.layer < s.layers.size ∧
    ∀ t ∈ h.ahead?, IsAhead (s.layer h.layer).place t
  places : ∀ n < s.layers.size, (s.layer n).place.IsIn text
  ground : ∀ n < s.layers.size, (s.layer n).links = [] → (s.layer n).place = .start text
  bottom : 0 < s.layers.size ∧ (s.layer 0).state = Automaton.initial

theorem spans_advance {t : Subtree} {cs : List Char} (hBuilt : t.IsBuilt) (h : t.Spells cs)
    (hAhead : cs <+: place.ahead) : Spans place (some t) (place.advance (.of cs)) :=
  ⟨hBuilt, cs, h, Place.reaches_advance hAhead⟩

theorem Joins.mono (h : Joins a below tree? state) (hStates : IsPrefixOf a.states a'.states) :
    Joins a' below tree? state := by
  cases tree? with
  | none => exact h
  | some t =>
    refine h.imp_right fun h => ?_
    refine h.imp_right fun h => h.imp_right fun h => h.imp_right fun h => h.imp_right ?_
    exact fun ⟨x, hOrigin, hMoves⟩ => ⟨x, hOrigin, hMoves.mono hStates⟩

/-- The terminal ahead is put where the automaton moves. No move is made behind the end of the
source, so it is no terminal that may stand anywhere. -/
theorem IsAhead.joins {ahead : Subtree} (h : IsAhead place ahead) {t : Nat}
    (hOrigin : ahead.facts.origin = .symbol (.terminal t))
    (hMoves : a.Moves below (.terminal t) state) : Joins a below (some ahead) state := by
  refine ⟨.leaf h.leaf, .inr (.inr (.inr ⟨Bool.eq_false_iff.mpr fun hExtra => ?_, _, hOrigin,
    hMoves⟩))⟩
  have hEnd := Symbol.terminal.inj (Origin.symbol.inj (hOrigin.symm.trans (h.extra hExtra)))
  rw [hEnd] at hMoves
  exact Automaton.not_moves_endOfSource hMoves

theorem IsAhead.joins_asExtra {ahead : Subtree} (h : IsAhead place ahead) (state : Nat) :
    Joins a state (some ahead.asExtra) state :=
  ⟨.asExtra_of_leaf h.leaf, .inr (.inr (.inl ⟨ahead.isExtra_asExtra, rfl⟩))⟩

theorem IsAhead.exists_spans {ahead : Subtree} (h : IsAhead place ahead) {t : Nat}
    (hOrigin : ahead.facts.origin = .symbol (.terminal t)) :
    ∃ above, Spans place (some ahead) above ∧ Spans place (some ahead.asExtra) above := by
  obtain ⟨cs, hSpells, hAhead⟩ := h.spells
  have hBuilt := isBuilt_of_terminal hOrigin
  exact ⟨_, spans_advance hBuilt hSpells hAhead,
    spans_advance hBuilt.asExtra (hSpells.asExtra hBuilt) hAhead⟩

theorem IsSound.mono (h : s.IsSound text a) (hStates : IsPrefixOf a.states a'.states) :
    s.IsSound text a' where
  links n link hLink := (h.links n link hLink).imp_right (·.imp_left (·.mono hStates))
  heads := h.heads
  places := h.places
  ground := h.ground
  bottom := h.bottom

/-! ## Walks -/

/-- The ways down from a layer that go on only where it is allowed. -/
inductive Descent (s : Stack) (GoesOn : Path → Prop) (top : Nat) : Path → Prop
  | top : Descent s GoesOn top ⟨top, [], 0⟩
  | down {p : Path} {link : Link} (h : Descent s GoesOn top p) (hOn : GoesOn p)
      (hLink : link ∈ (s.layer p.layer).links) : Descent s GoesOn top (p.down link)

structure Walk.IsSound {σ : Type} (s : Stack) (GoesOn : Path → Prop) (top : Nat)
    (Wanted : Path → Prop) (w : Walk σ) : Prop where
  pending : ∀ p ∈ w.pending, Descent s GoesOn top p
  branches : ∀ p ∈ w.branches, Descent s GoesOn top p
  taken : ∀ p ∈ w.taken, Descent s GoesOn top p ∧ Wanted p

section Walks

variable {σ : Type} {top : Nat} {visit : σ → Path → σ × Verdict} {GoesOn Wanted : Path → Prop}
  (hOn : ∀ memory p, (visit memory p).2.stop = false → GoesOn p)
  (hWanted : ∀ memory p, (visit memory p).2.take = true → Wanted p)

include hOn hWanted

theorem walkRound_isSound {ps : List Path} {w : Walk σ} (hps : ∀ p ∈ ps, Descent s GoesOn top p)
    (h : w.IsSound s GoesOn top Wanted) : (walkRound s visit ps w).IsSound s GoesOn top Wanted := by
  induction ps generalizing w with
  | nil => exact h
  | cons p ps ih =>
    obtain ⟨hp, hps⟩ := List.forall_mem_cons.mp hps
    have hTaken : ∀ q ∈ if (visit w.memory p).2.take then p :: w.taken else w.taken,
        Descent s GoesOn top q ∧ Wanted q := by
      split
      · rename_i hTake
        exact List.forall_mem_cons.mpr ⟨⟨hp, hWanted _ _ hTake⟩, h.taken⟩
      · exact h.taken
    rw [walkRound]
    dsimp only
    split
    · exact ih hps ⟨h.pending, h.branches, hTaken⟩
    · rename_i first others hLinks
      split
      · exact ih hps ⟨h.pending, h.branches, hTaken⟩
      · rename_i hGo
        have hHere := hOn w.memory p (Bool.eq_false_iff.mpr hGo)
        refine ih hps ⟨?_, ?_, hTaken⟩
        · refine List.forall_mem_cons.mpr ⟨hp.down hHere ?_, h.pending⟩
          rw [hLinks]
          exact List.mem_cons_self
        · refine List.forall_mem_append.mpr ⟨fun q hq => ?_, h.branches⟩
          obtain ⟨link, hLink, rfl⟩ := List.mem_map.mp (List.mem_reverse.mp hq)
          refine hp.down hHere ?_
          rw [hLinks]
          exact List.mem_cons_of_mem _ (List.mem_of_mem_take hLink)

theorem walkUpTo_descends {fuel : Nat} {ps taken : List Path} {memory : σ}
    (hps : ∀ p ∈ ps, Descent s GoesOn top p)
    (hTaken : ∀ p ∈ taken, Descent s GoesOn top p ∧ Wanted p) :
    ∀ p ∈ (walkUpTo s visit fuel ps memory taken).2, Descent s GoesOn top p ∧ Wanted p := by
  induction fuel generalizing ps taken memory with
  | zero => exact fun p hp => hTaken p (List.mem_reverse.mp hp)
  | succ fuel ih =>
    cases ps with
    | nil => exact fun p hp => hTaken p (List.mem_reverse.mp hp)
    | cons q ps =>
      have hRound := walkRound_isSound (w := ⟨memory, [], [], taken⟩) hOn hWanted hps
        ⟨fun _ h => absurd h List.not_mem_nil, fun _ h => absurd h List.not_mem_nil, hTaken⟩
      refine ih (List.forall_mem_append.mpr ⟨fun p hp => ?_, fun p hp => ?_⟩) hRound.taken
      · exact hRound.pending p (List.mem_reverse.mp hp)
      · exact hRound.branches p (List.mem_reverse.mp hp)

theorem walk_descends {memory : σ} {v : Nat} :
    ∀ p ∈ (s.walk v memory visit).2, Descent s GoesOn (s.head v).layer p ∧ Wanted p := by
  refine walkUpTo_descends hOn hWanted (fun p hp => ?_) fun _ h => absurd h List.not_mem_nil
  rw [List.mem_singleton.mp hp]
  exact .top

end Walks

theorem Path.layer_down (p : Path) (link : Link) : (p.down link).layer = link.layer := by
  unfold Path.down
  split <;> rfl

/-! ## What a way reads -/

theorem Descent.exists_link (h : Descent s GoesOn n p) {t : Subtree} (ht : t ∈ p.trees) :
    ∃ m, ∃ link ∈ (s.layer m).links, link.tree? = some t := by
  induction h with
  | top => exact absurd ht List.not_mem_nil
  | @down p link _ _ hLink ih =>
    unfold Path.down at ht
    cases hTree : link.tree? with
    | none =>
      rw [hTree] at ht
      exact ih ht
    | some u =>
      rw [hTree] at ht
      rcases List.mem_cons.mp ht with rfl | ht
      · exact ⟨_, link, hLink, hTree⟩
      · exact ih ht

theorem Descent.isDerived (h : Descent s GoesOn n p) (hStack : s.IsSound text a) :
    ∀ t ∈ p.trees, t.IsDerived := by
  intro t ht
  obtain ⟨m, link, hLink, hTree⟩ := h.exists_link ht
  have hJoins := (hStack.links m link hLink).2.1
  rw [hTree] at hJoins
  exact hJoins.1

theorem Descent.isBuilt (h : Descent s GoesOn n p) (hStack : s.IsSound text a) :
    ∀ t ∈ p.trees, t.IsBuilt := by
  intro t ht
  obtain ⟨m, link, hLink, hTree⟩ := h.exists_link ht
  have hSpans := (hStack.links m link hLink).2.2
  rw [hTree] at hSpans
  exact hSpans.1

/-- The trees that were passed spell the text from the layer that the way has reached. -/
theorem Descent.spellAll (h : Descent s GoesOn n p) (hStack : s.IsSound text a) :
    ∃ cs, SpellAll p.trees cs ∧ (s.layer p.layer).place.Reaches cs (s.layer n).place := by
  induction h with
  | top => exact ⟨[], .nil, .refl _⟩
  | @down p link _ _ hLink ih =>
    obtain ⟨cs, hTrees, hReaches⟩ := ih
    have hSpans := (hStack.links _ link hLink).2.2
    rw [Path.layer_down]
    unfold Path.down
    cases hTree : link.tree? with
    | none =>
      rw [hTree] at hSpans
      rw [hSpans] at hReaches
      exact ⟨cs, hTrees, hReaches⟩
    | some t =>
      rw [hTree] at hSpans
      obtain ⟨_, ds, hSpells, hBelow⟩ := hSpans
      exact ⟨ds ++ cs, .cons hSpells hTrees, hBelow.trans hReaches⟩

/-- On a way down, the trees that were passed lead from an item to the given one at the end of its
production. The first item is in front of the production or in the state that the way has
reached. -/
def Reads (a : Automaton) (state : Nat) (last : Item) (p : Path) : Prop :=
  ∃ code xs, Continues tables.items code xs last ∧ List.Forall₂ FitsSymbol (bound p.trees) xs ∧
    p.count = xs.length ∧ ((∃ st, a.states[state]? = some st ∧ code ∈ st.kernel.codes) ∨
      ∃ i, Automaton.item? code = some i ∧ i.dot = 0)

/-- What leads to the end of a production begins in front of it once all steps have been passed. -/
theorem dot_add_length {code : Nat} {xs : List Symbol} {last : Item}
    (h : Continues tables.items code xs last) :
    ∃ q ∈ Production.all, ∃ i, Automaton.item? code = some i ∧ last.Ends q ∧
      xs = q.symbolsFrom i.dot ∧ i.dot + xs.length = last.length := by
  obtain ⟨i, hItem⟩ : ∃ i, tables.items[code]? = some i := by
    cases h with
    | done hItem | next hItem => exact ⟨_, hItem⟩
  obtain ⟨q, hq, _, hBound, last', hContinues, hEnds⟩ := areSound_tables.items code i hItem
  obtain ⟨rfl, rfl⟩ := h.unique hContinues
  refine ⟨q, hq, i, hItem, hEnds, rfl, ?_⟩
  rw [Production.length_symbolsFrom, hEnds.length]
  omega

theorem reads_top (hAutomaton : a.IsSound) {item : Nat} {last : Item}
    (hEnds : a.EndsIn state item) (hLast : Automaton.item? item = some last) (top : Nat) :
    Reads a state last ⟨top, [], 0⟩ := by
  obtain ⟨st, set, hState, hDone⟩ := hEnds
  rcases hAutomaton.states _ st hState with rfl | ⟨k, rfl⟩
  · cases hDone
  · obtain ⟨i, hItem, hNext, hRead⟩ := Automaton.mem_done_stateOf hDone
    obtain rfl := Option.some.inj (hLast.symm.trans hItem)
    refine ⟨item, [], .done hItem hNext, .nil, rfl, ?_⟩
    exact hRead.imp (fun hCode => ⟨_, hState, hCode⟩) fun hDot => ⟨_, hItem, hDot⟩

theorem not_mem_kernel_of_dot_pos (hAutomaton : a.IsSound) {code : Nat} {i : Item} {st : State}
    (hItem : Automaton.item? code = some i) (hDot : i.dot ≠ 0) (hState : a.states[state]? = some st)
    (hCode : code ∈ st.kernel.codes) :
    state ≠ Automaton.skipping ∧ state ≠ Automaton.initial := by
  constructor
  · rintro rfl
    rw [hAutomaton.skipping] at hState
    obtain rfl := Option.some.inj hState
    cases hCode
  · rintro rfl
    rw [hAutomaton.initial] at hState
    obtain rfl := Option.some.inj hState
    obtain ⟨j, hItem', hDot'⟩ := Automaton.dot_of_mem_initialKernel hCode
    rw [hItem] at hItem'
    obtain rfl := Option.some.inj hItem'
    exact hDot hDot'

/-- One tree further down, one more step has been passed, unless the tree may stand anywhere. -/
theorem Reads.down {last : Item} (hAutomaton : a.IsSound) (h : Reads a state last p)
    (hJoins : Joins a below link.tree? state) (hCount : (p.down link).count ≤ last.length) :
    Reads a below last (p.down link) := by
  obtain ⟨code, xs, hContinues, hTrees, hLength, hWhere⟩ := h
  obtain ⟨q, hq, i, hItem, hEnds, hSymbols, hDot⟩ := dot_add_length hContinues
  have hMoved (hBelow : i.dot ≠ 0) : ∃ st, a.states[state]? = some st ∧ code ∈ st.kernel.codes := by
    rcases hWhere with h | ⟨j, hItem', hDot'⟩
    · exact h
    · rw [hItem] at hItem'
      obtain rfl := Option.some.inj hItem'
      exact absurd hDot' hBelow
  unfold Path.down at hCount ⊢
  cases hTree : link.tree? with
  | none =>
    rw [hTree] at hJoins hCount
    have hCount : p.count + 1 ≤ last.length := hCount
    obtain ⟨st, hState, hCode⟩ := hMoved (by omega)
    exact absurd hJoins (not_mem_kernel_of_dot_pos hAutomaton hItem (by omega) hState hCode).1
  | some t =>
    rw [hTree] at hJoins hCount
    obtain ⟨_, hJoins⟩ := hJoins
    dsimp only at hCount ⊢
    cases hExtra : t.facts.isExtra with
    | true =>
      refine ⟨code, xs, hContinues, ?_, hLength, ?_⟩
      · rwa [bound, List.filter_cons_of_neg (by rw [hExtra]; decide)]
      · by_cases hBelow : i.dot = 0
        · exact .inr ⟨i, hItem, hBelow⟩
        · obtain ⟨st, hState, hCode⟩ := hMoved hBelow
          obtain ⟨hSkipping, hInitial⟩ :=
            not_mem_kernel_of_dot_pos hAutomaton hItem hBelow hState hCode
          rcases hJoins with h | h | ⟨_, rfl⟩ | ⟨h, _⟩
          · exact absurd h hSkipping
          · exact absurd h hInitial
          · exact .inl ⟨st, hState, hCode⟩
          · rw [hExtra] at h
            cases h
    | false =>
      rw [hExtra, if_neg Bool.false_ne_true] at hCount
      obtain ⟨st, hState, hCode⟩ := hMoved (by omega)
      obtain ⟨hSkipping, hInitial⟩ :=
        not_mem_kernel_of_dot_pos hAutomaton hItem (by omega) hState hCode
      rcases hJoins with h | h | ⟨h, _⟩ | ⟨_, x, hOrigin, hMoves⟩
      · exact absurd h hSkipping
      · exact absurd h hInitial
      · rw [hExtra] at h
        cases h
      · obtain ⟨st', st'', hState', hTarget, _, y, hStands, hKernel⟩ := hMoves
        rw [hState] at hTarget
        obtain rfl := Option.some.inj hTarget
        rw [hKernel] at hCode
        obtain ⟨before, j, hBefore, hNext, rfl, hWhere'⟩ :=
          Automaton.isRead_of_mem_kernelBehind hCode
        refine ⟨before, y :: xs, .next hBefore hNext hContinues, ?_, ?_, ?_⟩
        · rw [bound, List.filter_cons_of_pos (by rw [hExtra]; decide)]
          exact .cons ⟨x, hOrigin, hStands⟩ hTrees
        · rw [List.length_cons, ← hLength]
          rfl
        · exact hWhere'.imp (fun hCode => ⟨st', hState', hCode⟩) fun hDot => ⟨j, hBefore, hDot⟩

theorem Path.count_le_down (p : Path) (link : Link) : p.count ≤ (p.down link).count := by
  unfold Path.down
  split
  · dsimp only
    split <;> omega
  · exact Nat.le_succ _

theorem Path.down_count_le (p : Path) (link : Link) : (p.down link).count ≤ p.count + 1 := by
  unfold Path.down
  split
  · dsimp only
    split <;> omega
  · exact Nat.le_refl _

/-- From a layer in which a production ends, a way down that has passed no more trees than the
production has steps has passed the last of these steps. -/
theorem Descent.reads (h : Descent s GoesOn n p) (hAutomaton : a.IsSound)
    (hStack : s.IsSound text a) {item : Nat} {last : Item} (hEnds : a.EndsIn (s.layer n).state item)
    (hLast : Automaton.item? item = some last) (hCount : p.count ≤ last.length) :
    Reads a (s.layer p.layer).state last p := by
  induction h with
  | top => exact reads_top hAutomaton hEnds hLast n
  | @down p link _ _ hLink ih =>
    rw [Path.layer_down]
    exact (ih ((p.count_le_down link).trans hCount)).down hAutomaton
      (hStack.links _ link hLink).2.1 hCount

/-- A way down that has passed as many trees as a production has steps has passed these steps. -/
theorem Descent.spells (h : Descent s GoesOn n p) (hAutomaton : a.IsSound)
    (hStack : s.IsSound text a) {item : Nat} {last : Item} (hEnds : a.EndsIn (s.layer n).state item)
    (hLast : Automaton.item? item = some last) (hCount : p.count = last.length) :
    ∃ q ∈ Production.all, last.Ends q ∧
      List.Forall₂ FitsSymbol (bound p.trees) (q.steps.map Step.symbol) := by
  obtain ⟨code, xs, hContinues, hTrees, hLength, _⟩ :=
    h.reads hAutomaton hStack hEnds hLast (by omega)
  obtain ⟨q, hq, i, hItem, hEnds, hSymbols, hDot⟩ := dot_add_length hContinues
  have hFront : i.dot = 0 := by omega
  rw [hFront] at hSymbols
  refine ⟨q, hq, hEnds, ?_⟩
  rwa [hSymbols] at hTrees

/-! ## The way through a whole source -/

/-- The last tree that may not stand anywhere is no terminal. -/
def EndsInGroup (trees : List Subtree) : Prop :=
  ∀ t, (bound trees).getLast? = some t → ∀ n, t.facts.origin ≠ .symbol (.terminal n)

theorem getLast?_bound_cons {t u : Subtree} {trees : List Subtree}
    (h : (bound trees).getLast? = some t) : (bound (u :: trees)).getLast? = some t := by
  rw [bound, List.filter_cons]
  split
  · rw [List.getLast?_cons, ← bound, h, Option.getD_some]
  · exact h

theorem Reads.of_source {last : Item} (h : Reads a state last p)
    (hSource : last.group = Production.sourceCode) : last.length = 1 ∧
      ((p.count = 0 ∧ bound p.trees = []) ∨
        ∃ t, bound p.trees = [t] ∧ t.FitsSymbol (.group Category.program.code)) := by
  obtain ⟨code, xs, hContinues, hTrees, hCount, _⟩ := h
  obtain ⟨q, hq, i, _, hEnds, hSymbols, hDot⟩ := dot_add_length hContinues
  have hProgram := Production.symbols_of_source hq (hEnds.group.symm.trans hSource)
  have hLength : last.length = 1 := by
    rw [hEnds.length, ← List.length_map (f := Step.symbol), hProgram, List.length_singleton]
  refine ⟨hLength, ?_⟩
  rw [Production.symbolsFrom, List.map_drop, hProgram] at hSymbols
  generalize bound p.trees = ts at hTrees
  obtain hDot | hDot : i.dot = 0 ∨ i.dot = 1 := by omega
  · rw [hDot, List.drop_zero] at hSymbols
    rw [hSymbols] at hTrees
    cases hTrees with
    | @cons t _ ts _ hFits hNone =>
      cases hNone
      exact .inr ⟨t, rfl, hFits⟩
  · rw [hDot] at hSymbols
    obtain rfl : xs = [] := hSymbols
    cases hTrees
    exact .inl ⟨hCount, rfl⟩

/-- From a layer in which a whole source ends, all ways down pass a program first. -/
theorem Descent.endsInGroup (h : Descent s GoesOn n p) (hAutomaton : a.IsSound)
    (hStack : s.IsSound text a) {item : Nat} {last : Item} (hEnds : a.EndsIn (s.layer n).state item)
    (hLast : Automaton.item? item = some last) (hSource : last.group = Production.sourceCode) :
    EndsInGroup p.trees := by
  have hLength := ((reads_top hAutomaton hEnds hLast n).of_source hSource).1
  have hWay : (p.count = 0 ∧ bound p.trees = []) ∨ ∃ t, (bound p.trees).getLast? = some t ∧
      t.FitsSymbol (.group Category.program.code) := by
    induction h with
    | top => exact .inl ⟨rfl, rfl⟩
    | @down p link hAbove hOn hLink ih =>
      rcases ih with ⟨hNone, hBound⟩ | ⟨t, hFound, hFits⟩
      · have hReads := (hAbove.down hOn hLink).reads hAutomaton hStack hEnds hLast
          (by rw [hLength]; exact (p.down_count_le link).trans (by omega))
        refine (hReads.of_source hSource).2.imp_right fun ⟨t, hSome, hFits⟩ => ⟨t, ?_, hFits⟩
        rw [hSome, List.getLast?_singleton]
      · refine .inr ⟨t, ?_, hFits⟩
        unfold Path.down
        split
        · exact getLast?_bound_cons hFound
        · exact hFound
  intro t hFound m hTerminal
  rcases hWay with ⟨_, hNone⟩ | ⟨u, hLastBound, hFits⟩
  · rw [hNone] at hFound
    cases hFound
  · rw [hFound] at hLastBound
    obtain rfl := Option.some.inj hLastBound
    obtain ⟨y, hOrigin, rfl | ⟨g, hGroup, hHidden⟩⟩ := hFits
    · rw [hTerminal] at hOrigin
      cases hOrigin
    · cases hGroup
      exact absurd hHidden (by decide)

end Stack

end TypeDiagram.Source
