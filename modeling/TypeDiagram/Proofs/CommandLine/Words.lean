import TypeDiagram.Proofs.CommandLine.Pin

/-! # The words of a layout command

However the options are spelled and wherever the operand stands, the words come down to a file, the
values of `--pin` in order and the last value of `--direction`. What the options choose depends on
nothing else: reading an option twice, or another one in between, changes nothing.
-/

namespace TypeDiagram.CommandLine

open Layout

def valuesOf (given : List Given) (option : OptionRule) : List String :=
  (given.filter fun g => g.option == option.long).map Given.value

/-- The words behind the name of the layout command name one file, and the texts are those of its
pins. Directions are named with the given one last, or not at all, and the help is not asked for. -/
def AsksLayout (args : List String) (path : String) (direction : Option Direction)
    (texts : List String) : Prop :=
  ∃ given, readWords Command.layout.options true args = .ok ⟨given, [path]⟩ ∧
    (∀ g ∈ given, g.option ≠ OptionRule.helpFlag.long) ∧
    (valuesOf given .direction).getLast? = direction.map Direction.name ∧
    valuesOf given .pin = texts

theorem run_name (env : Environment) (look : String → Entry) (c : Command) (args : List String) :
    run env look (c.name :: args) = runNamed env look c args := by
  have hWord : (c.name == "--") = false ∧ isOption c.name = false := by cases c <;> decide
  have hName : Command.ofName? c.name = some c := by cases c <;> decide
  have hWords : readWords programOptions false (c.name :: args) = .ok ⟨[], c.name :: args⟩ := by
    rw [readWords, hWord.1, hWord.2]
    rfl
  unfold run
  rw [hWords]
  simp [shownInstead?, hName]

/-! ## Spelling -/

theorem readWords_option {rules : List OptionRule} {word : String} {rest left : List String}
    {given : List Given} (hWord : word ≠ "--") (hOption : isOption word = true)
    (h : readOptions rules word rest = .ok (given, left)) (mixed : Bool) :
    readWords rules mixed (word :: rest) =
      (readWords rules mixed left).map fun words => ⟨given ++ words.given, words.operands⟩ := by
  rw [readWords, if_neg (by simpa using hWord), if_pos hOption]
  split
  · rename_i hError
    rw [h] at hError
    cases hError
  · rename_i hOk
    rw [h] at hOk
    cases hOk
    cases readWords rules mixed left <;> rfl

/-- Options with values in words of their own are read in order, whatever follows them. -/
theorem readWords_given {given : List Given}
    (h : ∀ g ∈ given, g.option = OptionRule.direction.long ∨ g.option = OptionRule.pin.long)
    (rest : List String) :
    readWords Command.layout.options true
        (given.flatMap (fun g => [g.option, g.value]) ++ rest) =
      (readWords Command.layout.options true rest).map fun words =>
        ⟨given ++ words.given, words.operands⟩ := by
  induction given with
  | nil =>
    rw [List.flatMap_nil, List.nil_append]
    cases readWords Command.layout.options true rest <;> rfl
  | cons g given ih =>
    obtain ⟨hFirst, hLater⟩ := List.forall_mem_cons.mp h
    have hWord : g.option ≠ "--" ∧ isOption g.option = true := by
      rcases hFirst with hOption | hOption <;> rw [hOption] <;> decide
    have hValue : ∀ left, readOptions Command.layout.options g.option (g.value :: left) =
        .ok ([⟨g.option, g.value⟩], left) := by
      rcases hFirst with hOption | hOption <;> rw [hOption] <;> exact fun _ => rfl
    rw [List.flatMap_cons, List.append_assoc, List.cons_append, List.singleton_append,
      readWords_option hWord.1 hWord.2 (hValue _), ih hLater]
    cases readWords Command.layout.options true rest <;> rfl

def layoutGiven (direction : Option Direction) (texts : List String) : List Given :=
  (direction.toList.map Direction.name).map (Given.mk OptionRule.direction.long) ++
    texts.map (Given.mk OptionRule.pin.long)

/-- One way to spell a layout command: its options, the end of the options, and the file. -/
def layoutLine (path : String) (direction : Option Direction) (texts : List String) :
    List String :=
  (layoutGiven direction texts).flatMap (fun g => [g.option, g.value]) ++ ["--", path]

theorem option_of_mem_layoutGiven {direction : Option Direction} {texts : List String} {g : Given}
    (h : g ∈ layoutGiven direction texts) :
    g.option = OptionRule.direction.long ∨ g.option = OptionRule.pin.long := by
  rcases List.mem_append.mp h with h | h
  · obtain ⟨_, _, rfl⟩ := List.mem_map.mp h
    exact .inl rfl
  · obtain ⟨_, _, rfl⟩ := List.mem_map.mp h
    exact .inr rfl

theorem valuesOf_append (given more : List Given) (option : OptionRule) :
    valuesOf (given ++ more) option = valuesOf given option ++ valuesOf more option := by
  rw [valuesOf, List.filter_append, List.map_append]
  rfl

theorem valuesOf_map (values : List String) (option other : OptionRule) :
    valuesOf (values.map (Given.mk option.long)) other =
      if option.long = other.long then values else [] := by
  by_cases h : option.long = other.long <;> simp [valuesOf, List.filter_map, h, Function.comp_def]

theorem asksLayout_layoutLine (path : String) (direction : Option Direction)
    (texts : List String) : AsksLayout (layoutLine path direction texts) path direction texts := by
  have hEnd : readWords Command.layout.options true ["--", path] = .ok ⟨[], [path]⟩ := by
    rw [readWords]
    rfl
  have hOther : OptionRule.direction.long ≠ OptionRule.pin.long := by decide
  refine ⟨layoutGiven direction texts, ?_, ?_, ?_, ?_⟩
  · rw [layoutLine, readWords_given fun g => option_of_mem_layoutGiven, hEnd]
    simp [Except.map]
  · intro g hg
    rcases option_of_mem_layoutGiven hg with h | h <;> rw [h] <;> decide
  · rw [layoutGiven, valuesOf_append, valuesOf_map, valuesOf_map, if_pos rfl, if_neg hOther.symm]
    cases direction <;> rfl
  · rw [layoutGiven, valuesOf_append, valuesOf_map, valuesOf_map, if_neg hOther, if_pos rfl,
      List.nil_append]

/-! ## Choices -/

section Choices

variable {given : List Given} {direction : Option Direction} {pins : List (String × Position Float)}

/-- An option makes its own choice from all its values, and leaves the other choices alone. -/
theorem choose_eq (hDirection : (valuesOf given .direction).getLast? = direction.map Direction.name)
    (hPins : (valuesOf given .pin).mapM readPin = .ok pins) (choices : LayoutChoices)
    (option : String) : choose given choices option =
      .ok ⟨if option = OptionRule.direction.long then direction <|> choices.direction
          else choices.direction,
        if option = OptionRule.pin.long then .ofList pins else choices.pins⟩ := by
  have hOther : OptionRule.direction.long ≠ OptionRule.pin.long := by decide
  by_cases hIsDirection : option = OptionRule.direction.long
  · subst hIsDirection
    unfold valuesOf at hDirection
    simp only [choose, hDirection, beq_self_eq_true, if_true, if_neg hOther]
    cases direction with
    | none => rfl
    | some d => cases d <;> rfl
  · by_cases hIsPin : option = OptionRule.pin.long
    · subst hIsPin
      unfold valuesOf at hPins
      simp only [choose, hPins, beq_self_eq_true, if_true, if_neg hOther.symm,
        beq_eq_false_iff_ne.mpr hOther.symm]
      rfl
    · simp [choose, hIsDirection, hIsPin]
      rfl

/-- However often and in whatever order the options are read, each makes its choice. -/
theorem foldlM_choose
    (hDirection : (valuesOf given .direction).getLast? = direction.map Direction.name)
    (hPins : (valuesOf given .pin).mapM readPin = .ok pins) (options : List String)
    (choices : LayoutChoices) : options.foldlM (choose given) choices =
      .ok ⟨if OptionRule.direction.long ∈ options then direction <|> choices.direction
          else choices.direction,
        if OptionRule.pin.long ∈ options then .ofList pins else choices.pins⟩ := by
  induction options generalizing choices with
  | nil => rfl
  | cons option options ih =>
    rw [List.foldlM_cons, choose_eq hDirection hPins]
    refine (ih _).trans ?_
    rw [Except.ok.injEq, LayoutChoices.mk.injEq]
    constructor
    · by_cases hSame : option = OptionRule.direction.long <;>
        by_cases hLater : OptionRule.direction.long ∈ options <;>
        cases direction <;> simp [hSame, hLater, eq_comm (a := OptionRule.direction.long)]
    · by_cases hSame : option = OptionRule.pin.long <;>
        by_cases hLater : OptionRule.pin.long ∈ options <;>
        simp [hSame, hLater, eq_comm (a := OptionRule.pin.long)]

theorem mem_options_of_valuesOf {option : OptionRule} (h : valuesOf given option ≠ []) :
    option.long ∈ (given.map Given.option).eraseDups := by
  obtain ⟨value, hValue⟩ := List.exists_mem_of_ne_nil _ h
  obtain ⟨g, hg, _⟩ := List.mem_map.mp hValue
  obtain ⟨hIn, hOption⟩ := List.mem_filter.mp hg
  exact List.mem_eraseDups.mpr (List.mem_map.mpr ⟨g, hIn, beq_iff_eq.mp hOption⟩)

theorem layoutChoices_eq
    (hDirection : (valuesOf given .direction).getLast? = direction.map Direction.name)
    (hPins : (valuesOf given .pin).mapM readPin = .ok pins) :
    layoutChoices given = .ok ⟨direction, .ofList pins⟩ := by
  rw [layoutChoices, foldlM_choose hDirection hPins, Except.ok.injEq, LayoutChoices.mk.injEq]
  constructor
  · cases direction with
    | none => simp
    | some d =>
      rw [if_pos (mem_options_of_valuesOf fun hNil => by simp [hNil] at hDirection)]
      rfl
  · by_cases hNil : valuesOf given .pin = []
    · rw [hNil] at hPins
      cases hPins
      exact ite_self _
    · rw [if_pos (mem_options_of_valuesOf hNil)]

theorem exists_step_of_foldlM {β γ ε : Type} {f : β → γ → Except ε β} {xs : List γ} {b b' : β}
    (h : xs.foldlM f b = .ok b') {x : γ} (hx : x ∈ xs) : ∃ c c', f c x = .ok c' := by
  induction xs generalizing b with
  | nil => cases hx
  | cons y xs ih =>
    rw [List.foldlM_cons] at h
    obtain ⟨c, hFirst, hRest⟩ := bind_eq_ok_iff.mp h
    rcases List.mem_cons.mp hx with rfl | hx
    · exact ⟨b, c, hFirst⟩
    · exact ih hRest hx

theorem exists_pins_of_layoutChoices {choices : LayoutChoices}
    (h : layoutChoices given = .ok choices) :
    ∃ pins, (valuesOf given .pin).mapM readPin = .ok pins := by
  by_cases hNil : valuesOf given .pin = []
  · exact ⟨[], by rw [hNil]; rfl⟩
  · obtain ⟨c, c', hPin⟩ := exists_step_of_foldlM h (mem_options_of_valuesOf hNil)
    have hOther : OptionRule.pin.long ≠ OptionRule.direction.long := by decide
    rw [choose, if_neg (by simpa using hOther), if_pos (beq_self_eq_true _)] at hPin
    obtain ⟨pins, hPins, _⟩ := bind_eq_ok_iff.mp hPin
    exact ⟨pins, hPins⟩

end Choices

end TypeDiagram.CommandLine
