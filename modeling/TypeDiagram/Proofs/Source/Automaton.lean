import TypeDiagram.Proofs.Source.Item
import TypeDiagram.Source.Automaton

/-! # Moves of the automaton

States are only added to the automaton, and what it has found out about moves and actions stays
true. A move leads from the items of one state to the items behind a symbol, and a production ends
in a state only if one of its items does or if the production is empty.
-/

namespace TypeDiagram.Source

variable {s t target : Nat} {x y : Symbol} {k : Kernel} {st : State} {code : Nat}

theorem areSound_tables : tables.AreSound Production.all := Tables.areSound_ofProductions _

theorem mem_getD_nil {α : Type} {xs? : Option (List α)} {x : α} (h : x ∈ xs?.getD []) :
    ∃ xs, xs? = some xs ∧ x ∈ xs := by
  cases xs? with
  | none => cases h
  | some xs => exact ⟨xs, rfl, h⟩

/-! ## Kernels -/

def Kernel.codes (k : Kernel) : List Nat := k.entries.map Prod.fst

theorem Kernel.codes_merge_subset (entries : List (Nat × TokenSet)) :
    (merge entries).map Prod.fst ⊆ entries.map Prod.fst := by
  induction entries using merge.induct with
  | case1 a s b t rest hSame ih =>
    rw [merge, if_pos hSame]
    exact List.Subset.trans ih (List.cons_subset_cons _ (List.subset_cons_self _ _))
  | case2 a s b t rest hNe ih =>
    rw [merge, if_neg hNe]
    exact List.cons_subset_cons _ ih
  | case3 entries hShort =>
    rw [merge.eq_2 entries hShort]
    exact List.Subset.refl _

theorem Kernel.mem_codes_ofList {entries : List (Nat × TokenSet)}
    (h : code ∈ (ofList entries).codes) : ∃ set, (code, set) ∈ entries := by
  obtain ⟨⟨found, set⟩, hEntry, rfl⟩ := List.mem_map.mp (codes_merge_subset _ h)
  exact ⟨set, List.mem_mergeSort.mp hEntry⟩

namespace Automaton

/-- The item is behind the symbol in a production, and the item in front of it is one of the kernel
or in front of the whole production. -/
def IsRead (k : Kernel) (x : Symbol) (code : Nat) : Prop :=
  ∃ (before : Nat) (i : Item), item? before = some i ∧ i.next? = some x ∧ i.after = code ∧
    (before ∈ k.codes ∨ i.dot = 0)

theorem isRead_of_mem_kernelBehind (h : code ∈ (kernelBehind st x).codes) :
    IsRead st.kernel x code := by
  have hTerminal (n g code : Nat) (h : (g, code) ∈ (tables.terminalOpeners[n]?).getD []) :
      IsRead st.kernel (.terminal n) code := by
    obtain ⟨entries, hFound, hEntry⟩ := mem_getD_nil h
    obtain ⟨before, i, hItem, hDot, hNext, hAfter⟩ :=
      areSound_tables.terminalOpeners n entries g code hFound hEntry
    exact ⟨before, i, hItem, hNext, hAfter, .inr hDot⟩
  have hGroup (n g code : Nat) (h : (g, code) ∈ (tables.groupOpeners[n]?).getD []) :
      IsRead st.kernel (.group n) code := by
    obtain ⟨entries, hFound, hEntry⟩ := mem_getD_nil h
    obtain ⟨before, i, hItem, hDot, hNext, hAfter⟩ :=
      areSound_tables.groupOpeners n entries g code hFound hEntry
    exact ⟨before, i, hItem, hNext, hAfter, .inr hDot⟩
  unfold kernelBehind at h
  unfold IsRead at hTerminal hGroup ⊢
  -- The tables are closed terms, which must not be computed where a `match` on them is opened.
  obtain ⟨item, hFree⟩ : ∃ item, item = item? := ⟨_, rfl⟩
  rw [← hFree] at h hTerminal hGroup ⊢
  obtain ⟨set, h⟩ := Kernel.mem_codes_ofList h
  rcases List.mem_append.mp h with h | h
  · obtain ⟨⟨before, set'⟩, hEntry, h⟩ := List.mem_filterMap.mp h
    dsimp only at h
    cases hItem : item before with
    | none =>
      rw [hItem] at h
      cases h
    | some i =>
      rw [hItem] at h
      dsimp only at h
      split at h
      · rename_i hNext
        obtain ⟨rfl, _⟩ := Prod.mk.inj (Option.some.inj h)
        exact ⟨before, i, hItem, beq_iff_eq.mp hNext, rfl, .inl (List.mem_map_of_mem hEntry)⟩
      · cases h
  · obtain ⟨⟨g, found⟩, hEntry, h⟩ := List.mem_filterMap.mp h
    dsimp only at h
    split at h
    · cases h
    · obtain ⟨rfl, _⟩ := Prod.mk.inj (Option.some.inj h)
      cases x with
      | terminal n => exact hTerminal n g found hEntry
      | group n => exact hGroup n g found hEntry

/-- What ends in a state has been read up to its end. It has no steps if it is not read there. -/
theorem mem_done_stateOf {set : TokenSet} (h : (code, set) ∈ (stateOf k).done) :
    ∃ i, item? code = some i ∧ i.next? = none ∧ (code ∈ k.codes ∨ i.dot = 0) := by
  have hEmpty := areSound_tables.empty
  change ∀ g code, _ → ∃ i, item? code = some i ∧ i.next? = none ∧ i.dot = 0 at hEmpty
  unfold stateOf at h
  obtain ⟨item, hFree⟩ : ∃ item, item = item? := ⟨_, rfl⟩
  rw [← hFree] at h hEmpty ⊢
  rcases List.mem_append.mp (List.mem_mergeSort.mp h) with h | h
  · obtain ⟨hMem, hDone⟩ := List.mem_filter.mp h
    dsimp only at hDone
    cases hItem : item code with
    | none =>
      rw [hItem] at hDone
      cases hDone
    | some i =>
      rw [hItem, Option.map_some, Option.getD_some] at hDone
      exact ⟨i, rfl, Option.isNone_iff_eq_none.mp hDone, .inl (List.mem_map_of_mem hMem)⟩
  · obtain ⟨⟨g, found⟩, hEntry, h⟩ := List.mem_filterMap.mp h
    dsimp only at h
    split at h
    · cases h
    · obtain ⟨rfl, _⟩ := Prod.mk.inj (Option.some.inj h)
      exact (hEmpty g found hEntry).imp fun _ => And.imp_right (And.imp_right .inr)

theorem dot_of_mem_initialKernel (h : code ∈ initialKernel.codes) :
    ∃ i, item? code = some i ∧ i.dot = 0 := by
  have hTables := areSound_tables
  unfold initialKernel at h
  simp only [item?] at h ⊢
  generalize tables = ts at h hTables ⊢
  obtain ⟨⟨found, set⟩, hEntry, rfl⟩ := List.mem_map.mp h
  obtain ⟨opening, hOpening, hSame⟩ := List.mem_map.mp hEntry
  obtain ⟨rfl, _⟩ := Prod.mk.inj hSame
  obtain ⟨codes, hFound, hOpening⟩ := mem_getD_nil hOpening
  exact hTables.openings _ codes _ hFound hOpening

end Automaton

/-! ## Automata that tell the truth -/

namespace Automaton

variable {a a' : Automaton} {act : Action}

/-- Behind the symbol, or behind a hidden group that it stands for, one state follows another. -/
def Moves (a : Automaton) (s : Nat) (x : Symbol) (target : Nat) : Prop :=
  ∃ st st', a.states[s]? = some st ∧ a.states[target]? = some st' ∧
    (kernelBehind st x).entries ≠ [] ∧ ∃ y, x.StandsFor y ∧ st'.kernel = kernelBehind st y

def EndsIn (a : Automaton) (s item : Nat) : Prop :=
  ∃ st set, a.states[s]? = some st ∧ (item, set) ∈ st.done

def Fits (a : Automaton) (s t : Nat) : Action → Prop
  | .shift target _ => Moves a s (.terminal t) target
  | .reduce item => EndsIn a s item
  | .accept => ∃ item i, EndsIn a s item ∧ item? item = some i ∧ i.group = Production.sourceCode
  | .skip | .recover => True

structure IsSound (a : Automaton) : Prop where
  states : ∀ (s : Nat) (st : State), a.states[s]? = some st →
    st = skippingState ∨ ∃ k, st = stateOf k
  skipping : a.states[Automaton.skipping]? = some skippingState
  initial : a.states[Automaton.initial]? = some (stateOf initialKernel)
  codes : ∀ (k : Kernel) (s : Nat), a.codes[k]? = some s → a.states[s]? = some (stateOf k)
  moves : ∀ (s : Nat) (x : Symbol) (target : Nat), a.knownMoves[(s, x)]? = some target →
    target = Automaton.skipping ∨ Moves a s x target
  actions : ∀ (s t : Nat) (acts : List Action), a.knownActions[(s, t)]? = some acts →
    ∀ act ∈ acts, Fits a s t act

structure Grows (a a' : Automaton) : Prop where
  sound : a'.IsSound
  states : IsPrefixOf a.states a'.states

theorem IsSound.refl (h : a.IsSound) : Grows a a := ⟨h, fun _ _ hState => hState⟩

theorem Grows.trans {b : Automaton} (h : Grows a a') (h' : Grows a' b) : Grows a b :=
  ⟨h'.sound, fun s st hState => h'.states s st (h.states s st hState)⟩

theorem Moves.mono (h : Moves a s x target) (hStates : IsPrefixOf a.states a'.states) :
    Moves a' s x target := by
  obtain ⟨st, st', hState, hTarget, h⟩ := h
  exact ⟨st, st', hStates _ _ hState, hStates _ _ hTarget, h⟩

theorem EndsIn.mono {item : Nat} (h : EndsIn a s item) (hStates : IsPrefixOf a.states a'.states) :
    EndsIn a' s item := by
  obtain ⟨st, set, hState, h⟩ := h
  exact ⟨st, set, hStates _ _ hState, h⟩

theorem Fits.mono (h : Fits a s t act) (hStates : IsPrefixOf a.states a'.states) :
    Fits a' s t act := by
  cases act with
  | shift => exact Moves.mono h hStates
  | reduce => exact EndsIn.mono h hStates
  | accept =>
    obtain ⟨item, i, hEnds, h⟩ := h
    exact ⟨item, i, hEnds.mono hStates, h⟩
  | skip | recover => trivial

def Ensures {α : Type} (m : Run α) (a : Automaton) (Q : α → Automaton → Prop) : Prop :=
  Grows a (m.run a).2 ∧ Q (m.run a).1 (m.run a).2

namespace Ensures

variable {α β : Type} {m : Run α} {f : α → Run β} {Q R : α → Automaton → Prop}

theorem pure {r : α} (hSound : a.IsSound) (h : Q r a) : Ensures (pure r) a Q := ⟨hSound.refl, h⟩

theorem bind {Q' : β → Automaton → Prop} (h : Ensures m a Q)
    (hf : ∀ r a', Grows a a' → Q r a' → Ensures (f r) a' Q') : Ensures (m >>= f) a Q' := by
  obtain ⟨hGrows, hQ⟩ := h
  obtain ⟨hGrows', hQ'⟩ := hf _ _ hGrows hQ
  exact ⟨hGrows.trans hGrows', hQ'⟩

theorem imp (h : Ensures m a Q) (hImp : ∀ r a', Q r a' → R r a') : Ensures m a R :=
  ⟨h.1, hImp _ _ h.2⟩

theorem get_bind {f : Automaton → Run β} {Q' : β → Automaton → Prop} (h : Ensures (f a) a Q') :
    Ensures (get >>= f) a Q' := h

theorem modify_pure {g : Automaton → Automaton} {r : α} (h : Grows a (g a)) (hQ : Q r (g a)) :
    Ensures (modify g >>= fun _ => Pure.pure r) a Q := ⟨h, hQ⟩

end Ensures

/-! ## What is found out -/

theorem Ensures.state_bind {α : Type} {f : State → Run α} {Q : α → Automaton → Prop}
    (h : Ensures (f ((a.states[s]?).getD skippingState)) a Q) : Ensures (state s >>= f) a Q := h

theorem IsSound.push (hSound : a.IsSound) (k : Kernel) :
    Grows a { a with
      states := a.states.push (stateOf k), codes := a.codes.insert k a.states.size } := by
  have hPrefix := isPrefixOf_push a.states (stateOf k)
  refine ⟨⟨fun s st h => ?_, hPrefix _ _ hSound.skipping, hPrefix _ _ hSound.initial,
    fun k' s h => ?_, fun s x target h => ?_, fun s t acts h act hAct => ?_⟩, hPrefix⟩
  · rw [Array.getElem?_push] at h
    split at h
    · exact .inr ⟨k, (Option.some.inj h).symm⟩
    · exact hSound.states s st h
  · rw [Std.HashMap.getElem?_insert] at h
    split at h
    · rename_i hSame
      obtain rfl := Option.some.inj h
      rw [← beq_iff_eq.mp hSame]
      exact Array.getElem?_push_size
    · exact hPrefix _ _ (hSound.codes k' s h)
  · exact (hSound.moves s x target h).imp_right (·.mono hPrefix)
  · exact (hSound.actions s t acts h act hAct).mono hPrefix

theorem ensures_codeOf (hSound : a.IsSound) (k : Kernel) :
    Ensures (codeOf k) a fun s a' => a'.states[s]? = some (stateOf k) := by
  unfold codeOf
  refine .get_bind ?_
  cases hCode : a.codes[k]? with
  | some code => exact .pure hSound (hSound.codes k code hCode)
  | none => exact ⟨hSound.push k, Array.getElem?_push_size⟩

theorem IsSound.insertMove (hSound : a.IsSound)
    (h : target = Automaton.skipping ∨ Moves a s x target) :
    Grows a { a with knownMoves := a.knownMoves.insert (s, x) target } := by
  refine ⟨⟨hSound.states, hSound.skipping, hSound.initial, hSound.codes, fun s' x' target' h' => ?_,
    hSound.actions⟩, fun _ _ hState => hState⟩
  rw [Std.HashMap.getElem?_insert] at h'
  split at h'
  · rename_i hSame
    obtain ⟨rfl, rfl⟩ := Prod.mk.inj (beq_iff_eq.mp hSame)
    rwa [← Option.some.inj h']
  · exact hSound.moves s' x' target' h'

theorem IsSound.insertActions (hSound : a.IsSound) {acts : List Action}
    (h : ∀ act ∈ acts, Fits a s t act) :
    Grows a { a with knownActions := a.knownActions.insert (s, t) acts } := by
  refine ⟨⟨hSound.states, hSound.skipping, hSound.initial, hSound.codes, hSound.moves,
    fun s' t' acts' h' => ?_⟩, fun _ _ hState => hState⟩
  rw [Std.HashMap.getElem?_insert] at h'
  split at h'
  · rename_i hSame
    obtain ⟨rfl, rfl⟩ := Prod.mk.inj (beq_iff_eq.mp hSame)
    rwa [← Option.some.inj h']
  · exact hSound.actions s' t' acts' h'

theorem kernelBehind_skippingState (x : Symbol) : (kernelBehind skippingState x).entries = [] := by
  have hCodes : (kernelBehind skippingState x).codes = [] := by
    refine List.eq_nil_iff_forall_not_mem.mpr fun code h => ?_
    unfold kernelBehind skippingState at h
    obtain ⟨set, h⟩ := Kernel.mem_codes_ofList h
    rcases List.mem_append.mp h with h | h
    · cases h
    · obtain ⟨⟨g, found⟩, _, h⟩ := List.mem_filterMap.mp h
      cases h
  exact List.map_eq_nil_iff.mp hCodes

theorem exists_state_of_kernelBehind
    (h : (kernelBehind ((a.states[s]?).getD skippingState) x).entries ≠ []) :
    ∃ st, a.states[s]? = some st ∧
      kernelBehind ((a.states[s]?).getD skippingState) x = kernelBehind st x := by
  cases hState : a.states[s]? with
  | none =>
    rw [hState, Option.getD_none] at h
    exact absurd (kernelBehind_skippingState x) h
  | some st => exact ⟨st, rfl, by rw [Option.getD_some]⟩

theorem isVisible_of_relabelled? {g : Nat} (h : relabelled? st = some g) :
    Production.isVisible g = false := by
  unfold relabelled? at h
  obtain ⟨first, _, h⟩ := Option.bind_eq_some_iff.mp h
  dsimp only at h
  split at h
  · rename_i hAll
    rw [← Option.some.inj h]
    simp only [Bool.and_eq_true, Bool.not_eq_true'] at hAll
    exact hAll.1.1.2
  · cases h

/-- States are passed through only where a hidden group is made of a single part. -/
theorem ensures_moveUpTo (hSound : a.IsSound) (fuel s : Nat) (x : Symbol) :
    Ensures (moveUpTo fuel s x) a fun found a' => ∀ target ∈ found, Moves a' s x target := by
  induction fuel generalizing a x with
  | zero => exact .pure hSound fun _ h => by cases h
  | succ fuel ih =>
    rw [moveUpTo]
    refine .get_bind ?_
    cases hKnown : a.knownMoves[(s, x)]? with
    | some target =>
      refine .pure hSound fun found hFound => ?_
      split at hFound
      · cases hFound
      · rename_i hNe
        obtain rfl := Option.some.inj hFound
        exact (hSound.moves s x target hKnown).resolve_left fun h => hNe (beq_iff_eq.mpr h)
    | none =>
      refine .state_bind ?_
      extract_lets kernel jump
      split
      · refine .modify_pure (hSound.insertMove (.inl rfl)) fun _ h => by cases h
      · rename_i hSome
        have hEntries : (kernelBehind ((a.states[s]?).getD skippingState) x).entries ≠ [] :=
          fun h => hSome (List.isEmpty_iff.mpr h)
        obtain ⟨st, hState, hKernel⟩ := exists_state_of_kernelBehind hEntries
        rw [hKernel] at hEntries
        refine (ensures_codeOf hSound kernel).bind fun target b hGrows hTarget => ?_
        refine .state_bind ?_
        have hJump (c : Automaton) (hc : Grows b c) (found : Nat) (hFound : Moves c s x found) :
            Ensures (jump () found) c fun found? c' => ∀ target ∈ found?, Moves c' s x target := by
          refine .modify_pure (hc.sound.insertMove (.inr hFound)) fun _ h => ?_
          obtain rfl := Option.some.inj h
          exact hFound.mono fun _ _ h => h
        have hHere : Moves b s x target :=
          ⟨st, _, hGrows.states _ _ hState, hTarget, hEntries, x, .inl rfl, hKernel⟩
        split
        · rename_i g hRelabelled
          refine (ih hGrows.sound (.group g)).bind fun further? c hc hFurther => ?_
          split
          · rename_i further
            obtain ⟨st', st'', hState', hTarget', _, y, hStands, hBehind⟩ := hFurther further rfl
            have hSame := (hGrows.trans hc).states _ _ hState
            rw [hState'] at hSame
            obtain rfl := Option.some.inj hSame
            refine hJump c hc further ⟨_, st'', hState', hTarget', hEntries, y, .inr ?_, hBehind⟩
            rcases hStands with rfl | hHidden
            · exact ⟨g, rfl, isVisible_of_relabelled? hRelabelled⟩
            · exact hHidden
          · exact hJump c hc target (hHere.mono hc.states)
        · exact hJump b hGrows.sound.refl target hHere

theorem ensures_move (hSound : a.IsSound) (s : Nat) (x : Symbol) :
    Ensures (move s x) a fun found a' => ∀ target ∈ found, Moves a' s x target :=
  ensures_moveUpTo hSound 16 s x

theorem items_add_subset (e : Endings) (code : Nat) (i : Item) :
    (e.add code i).items ⊆ code :: e.items := by
  unfold Endings.add
  dsimp only
  split
  · exact List.cons_subset_cons _ (List.nil_subset _)
  · split
    · exact List.cons_subset_cons _ (List.nil_subset _)
    · exact List.append_subset.mpr
        ⟨List.subset_cons_self _ _, List.cons_subset_cons _ (List.nil_subset _)⟩
    · exact List.subset_cons_self _ _

theorem mem_done_of_mem_endings {item : Nat} (h : item ∈ (endings st t).items) :
    ∃ set, (item, set) ∈ st.done := by
  unfold endings at h
  obtain ⟨item', hFree⟩ : ∃ item', item' = item? := ⟨_, rfl⟩
  rw [← hFree] at h
  revert item
  refine List.foldlRecOn _ _
    (motive := fun (e : Endings) => ∀ {item}, item ∈ e.items → ∃ set, (item, set) ∈ st.done)
    (fun h => by cases h) ?_
  rintro e ih ⟨code, set⟩ hMem item h
  dsimp only at h
  split at h
  · split at h
    · rcases List.mem_cons.mp (items_add_subset e code _ h) with rfl | h
      · exact ⟨set, hMem⟩
      · exact ih h
    · exact ih h
  · exact ih h

/-- What is done where productions end. -/
def reductions (e : Endings) : List Action :=
  e.items.map fun code =>
    if ((item? code).map Item.group) == some Production.sourceCode then .accept else .reduce code

/-- All that is ever settled on are productions that end, and reading the terminal. -/
theorem mem_settle {e : Endings} (h : act ∈ settle st t target e) :
    act ∈ reductions e ∨ ∃ repeats, act = .shift target repeats := by
  have hShift {repeats : Bool} (h : act ∈ [Action.shift target repeats]) :
      ∃ repeats, act = .shift target repeats := ⟨repeats, List.mem_singleton.mp h⟩
  unfold settle at h
  dsimp only at h
  repeat' split at h
  all_goals first
    | exact .inl h
    | exact .inr (hShift h)
    | exact (List.mem_append.mp h).imp_right hShift

theorem fits_of_mem_reductions (hState : a.states[s]? = some st)
    (h : act ∈ reductions (endings st t)) : Fits a s t act := by
  obtain ⟨item, hItem, hAct⟩ := List.mem_map.mp h
  obtain ⟨set, hDone⟩ := mem_done_of_mem_endings hItem
  have hEnds : EndsIn a s item := ⟨st, set, hState, hDone⟩
  by_cases hSource : ((item? item).map Item.group == some Production.sourceCode) = true
  · rw [if_pos hSource] at hAct
    obtain ⟨i, hFound⟩ := Option.map_eq_some_iff.mp (eq_of_beq hSource)
    rw [← hAct]
    exact ⟨item, i, hEnds, hFound⟩
  · rw [if_neg hSource] at hAct
    rw [← hAct]
    exact hEnds

theorem reductions_skippingState (t : Nat) : reductions (endings skippingState t) = [] := rfl

theorem fits_of_mem_reductions_getD
    (h : act ∈ reductions (endings ((a.states[s]?).getD skippingState) t)) : Fits a s t act := by
  cases hState : a.states[s]? with
  | none =>
    rw [hState, Option.getD_none, reductions_skippingState] at h
    cases h
  | some st =>
    rw [hState, Option.getD_some] at h
    exact fits_of_mem_reductions hState h

theorem ensures_actions (hSound : a.IsSound) (s t : Nat) :
    Ensures (actions s t) a fun acts a' => ∀ act ∈ acts, Fits a' s t act := by
  unfold actions
  refine .get_bind ?_
  cases hKnown : a.knownActions[(s, t)]? with
  | some found => exact .pure hSound (hSound.actions s t found hKnown)
  | none =>
    dsimp -zeta -zetaHave only
    extract_lets jump
    have hJump (b : Automaton) (hb : b.IsSound) (found : List Action)
        (hFound : ∀ act ∈ found, Fits b s t act) :
        Ensures (jump found) b fun acts a' => ∀ act ∈ acts, Fits a' s t act := by
      refine .modify_pure (hb.insertActions hFound) fun act hAct => ?_
      exact (hFound act hAct).mono fun _ _ h => h
    split
    · refine hJump a hSound _ fun act hAct => ?_
      split at hAct
      · obtain rfl := List.mem_singleton.mp hAct
        trivial
      · split at hAct
        · obtain rfl := List.mem_singleton.mp hAct
          trivial
        · cases hAct
    · refine .state_bind ?_
      refine (ensures_move hSound s (.terminal t)).bind fun found? b hGrows hFound => ?_
      have hReductions (act : Action)
          (h : act ∈ reductions (endings ((a.states[s]?).getD skippingState) t)) : Fits b s t act :=
        (fits_of_mem_reductions_getD h).mono hGrows.states
      split
      · rename_i target
        refine hJump b hGrows.sound _ fun act hAct => ?_
        rcases mem_settle hAct with hAct | ⟨repeats, rfl⟩
        · exact hReductions act hAct
        · exact hFound target rfl
      · refine hJump b hGrows.sound _ fun act hAct => ?_
        split at hAct
        · obtain rfl := List.mem_singleton.mp hAct
          trivial
        · exact hReductions act hAct

/-- Behind a symbol the reader stands where a move leads to, or where it stood before if it may skip
the symbol, or where text is skipped. -/
theorem ensures_behind (hSound : a.IsSound) (s : Nat) (x : Symbol) :
    Ensures (behind s x) a fun target a' => target = Automaton.skipping ∨ Moves a' s x target ∨
      target = s ∧ ∃ t, x = .terminal t := by
  cases x with
  | group g =>
    refine (ensures_move hSound s (.group g)).bind fun found? b hb hFound => .pure hb.sound ?_
    cases found? with
    | none => exact .inl rfl
    | some target => exact .inr (.inl (hFound target rfl))
  | terminal t =>
    refine (ensures_actions hSound s t).bind fun acts b hb hFits => ?_
    split
    · rename_i target repeats hLast
      exact .pure hb.sound (.inr (.inl (hFits _ (List.mem_of_getLast? hLast))))
    · exact .pure hb.sound (.inr (.inr ⟨rfl, t, rfl⟩))
    · exact .pure hb.sound (.inl rfl)

theorem mem_steps_of_next? {i : Item} (hItem : item? code = some i) (hNext : i.next? = some x) :
    ∃ p ∈ Production.all, x ∈ p.steps.map Step.symbol := by
  obtain ⟨p, hp, _, _, last, hContinues, _⟩ := areSound_tables.items code i hItem
  refine ⟨p, hp, ?_⟩
  have hMem : x ∈ p.symbolsFrom i.dot := by
    generalize p.symbolsFrom i.dot = xs at hContinues ⊢
    cases hContinues with
    | done hItem' hDone =>
      obtain rfl := Option.some.inj (hItem.symm.trans hItem')
      rw [hDone] at hNext
      cases hNext
    | next hItem' hNext' _ =>
      obtain rfl := Option.some.inj (hItem.symm.trans hItem')
      obtain rfl := Option.some.inj (hNext.symm.trans hNext')
      exact List.mem_cons_self
  exact List.map_subset _ (List.drop_subset _ _) hMem

theorem not_moves_endOfSource : ¬ Moves a s (.terminal Terminal.endOfSource.code) target := by
  rintro ⟨st, _, _, _, hEntries, _⟩
  obtain ⟨entry, hEntry⟩ := List.exists_mem_of_ne_nil _ hEntries
  obtain ⟨before, i, hItem, hNext, _⟩ := isRead_of_mem_kernelBehind (List.mem_map_of_mem hEntry)
  obtain ⟨p, hp, hMem⟩ := mem_steps_of_next? hItem hNext
  exact Production.endOfSource_not_mem hp hMem

theorem isSound_start : start.IsSound := by
  unfold start
  refine ⟨fun s st h => ?_, rfl, rfl, fun k s h => ?_, fun s x target h => ?_,
    fun s t acts h => ?_⟩
  · rcases List.mem_pair.mp (Array.mem_toList_iff.mpr (Array.mem_of_getElem? h)) with rfl | rfl
    · exact .inl rfl
    · exact .inr ⟨initialKernel, rfl⟩
  · rw [Std.HashMap.ofList_singleton, Std.HashMap.getElem?_insert] at h
    split at h
    · rename_i hSame
      rw [← Option.some.inj h, ← beq_iff_eq.mp hSame]
      rfl
    · rw [Std.HashMap.getElem?_empty] at h
      cases h
  · rw [Std.HashMap.getElem?_empty] at h
    cases h
  · rw [Std.HashMap.getElem?_empty] at h
    cases h

end Automaton

end TypeDiagram.Source
