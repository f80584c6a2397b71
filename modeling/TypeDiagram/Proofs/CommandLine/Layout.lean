import TypeDiagram.Proofs.CommandLine.Words
import TypeDiagram.Proofs.Session.Batch
import TypeDiagram.Proofs.Session.Forced

/-! # The layout command succeeds on usable pins, and honours them

The diagram of the command is one run: the source is set, every node is measured, the pins are
moves, and then a layout is forced. No layout of a source text fails, so the command fails only if a
pin cannot be read or names no model. The layout moves no pinned node and changes no size.
-/

namespace TypeDiagram.CommandLine

open Diagram Layout Session

def Counts (a : Amount) (n : Nat) : Prop := a = .whole n ∨ a = .real n.toFloat

/-- The document shows a model as a node at a position: 220 wide, and as high as a header of 40 and
a row of 24 for each field. -/
def ShowsNode (m : Model) (position : Position Float) (d : Document Amount) : Prop :=
  ∃ width height, Counts width 220 ∧ Counts height (40 + 24 * m.schema.length) ∧
    d = .object [("id", .string m.id), ("x", .number (.real position.x)),
      ("y", .number (.real position.y)), ("width", .number width), ("height", .number height)]

/-! ## Pins as moves -/

theorem placePin_eq_ok_iff {s t : Session Float} {pin : String × Position Float} :
    placePin s pin = .ok t ↔
      pin.1 ∈ s.nodes.map Node.id ∧ t = s.step (.move pin.1 pin.2) := by
  unfold placePin
  rw [← move_snd_iff s pin.1 pin.2, Session.step]
  split
  · rename_i hMove
    rw [hMove, Except.ok.injEq]
    simp [eq_comm]
  · rename_i hMove
    rw [hMove]
    simp

theorem foldlM_placePin {pins : List (String × Position Float)} {s t : Session Float} :
    pins.foldlM placePin s = .ok t ↔
      (∀ pin ∈ pins, pin.1 ∈ s.nodes.map Node.id) ∧
        t = s.run (pins.map fun pin => .move pin.1 pin.2) := by
  induction pins generalizing s with
  | nil => simp [Session.run, pure, Except.pure, eq_comm]
  | cons pin pins ih =>
    have hIds : ∀ u, placePin s pin = .ok u → u.nodes.map Node.id = s.nodes.map Node.id := by
      intro u hPlace
      obtain ⟨hIn, rfl⟩ := placePin_eq_ok_iff.mp hPlace
      rw [(move_adjusts hIn pin.2).nodes, (move_adjusts hIn pin.2).ids]
    rw [List.foldlM_cons, List.forall_mem_cons, bind_eq_ok_iff]
    constructor
    · rintro ⟨u, hFirst, hRest⟩
      rw [ih, hIds u hFirst] at hRest
      obtain ⟨hIn, rfl⟩ := placePin_eq_ok_iff.mp hFirst
      exact ⟨⟨hIn, hRest.1⟩, hRest.2⟩
    · rintro ⟨⟨hIn, hRest⟩, rfl⟩
      have hFirst := placePin_eq_ok_iff.mpr ⟨hIn, rfl⟩
      exact ⟨_, hFirst, ih.mpr ⟨(hIds _ hFirst).symm ▸ hRest, rfl⟩⟩

/-! ## The run of the command -/

theorem mem_log_of_history {s : Session Float} {e : Event Notice} (h : e ∈ s.history.events) :
    e ∈ s.log := by
  rw [history] at h
  dsimp only at h
  rw [History.lastOf] at h
  exact List.mem_of_mem_drop h

theorem postponedFor?_eq_none {s : Session Float}
    (h : ∀ e ∈ s.log, e.kind ≠ .layoutPostponed) : postponedFor? s = none := by
  have hNone : s.history.ofKind .layoutPostponed = [] := by
    refine List.filter_eq_nil_iff.mpr fun e he => ?_
    rw [beq_iff_eq]
    exact h e (mem_log_of_history he)
  rw [postponedFor?, hNone]
  rfl

theorem refusePostponed_eq_ok {s : Session Float} (h : postponedFor? s = none) :
    refusePostponed s = .ok s := by
  unfold refusePostponed
  generalize postponedFor? s = reason at h ⊢
  rw [h]

variable (options : ViewOptions) (source : String) (pins : List (String × Position Float))

def opened : Session Float := (create options .standard).run [.setSource source]

/-- What the command does up to the layout: every node is measured, and every pin is a move. -/
def preparation : List (Operation Float) :=
  [.setSource source] ++
    ((opened options source).nodes.map fun n => .measure n.id (nodeExtent n)) ++
    pins.map fun pin => .move pin.1 pin.2

theorem run_preparation : (create options .standard).run (preparation options source pins) =
    (((opened options source).run ((opened options source).nodes.map fun n =>
      .measure n.id (nodeExtent n))).run (pins.map fun pin => .move pin.1 pin.2)) := by
  rw [preparation, run_append, run_append, opened]

theorem forall_mem_preparation {P : Operation Float → Prop} (hSource : P (.setSource source))
    (hMeasure : ∀ id size, P (.measure id size)) (hMove : ∀ id position, P (.move id position)) :
    ∀ op ∈ preparation options source pins, P op := by
  simp only [preparation, List.mem_append, List.mem_singleton, List.mem_map]
  rintro op ((rfl | ⟨_, _, rfl⟩) | ⟨_, _, rfl⟩)
  · exact hSource
  · exact hMeasure _ _
  · exact hMove _ _

def laidOut : Session Float :=
  ((create options .standard).run (preparation options source pins)).layoutSettled layeredService

theorem forcedInto_laidOut :
    ForcedInto ((create options .standard).run (preparation options source pins))
      (laidOut options source pins) :=
  forcedInto_layoutSettled ⟨options, .standard, preparation options source pins, rfl⟩

theorem plain_preparation : ∀ op ∈ preparation options source pins, op.Plain :=
  forall_mem_preparation options source pins trivial (fun _ _ => trivial) fun _ _ => trivial

theorem postponedFor?_laidOut : postponedFor? (laidOut options source pins) = none := by
  obtain ⟨quiet, hQuiet, hRun⟩ := (forcedInto_laidOut options source pins).run_eq
  rw [← hRun]
  refine postponedFor?_eq_none (no_postponement_run options .standard fun op hOp => ?_)
  refine ⟨?_, plain_of_forced (plain_preparation options source pins) hQuiet op hOp⟩
  rcases List.mem_append.mp hOp with hOp | hOp
  · exact forall_mem_preparation options source pins (P := Operation.Bundled) trivial
      (fun _ _ => trivial) (fun _ _ => trivial) op hOp
  · rcases List.mem_cons.mp hOp with rfl | hOp
    · trivial
    · exact (hQuiet op hOp).2

theorem models?_setSource : (Operation.setSource source : Operation Float).models? =
    some (Model.ofDeclarations (Source.declarations source)) := rfl

/-- A run that sets a source, and no other later, shows the models of the source. -/
theorem lastModels_of_source {ops : List (Operation Float)} (h : ∀ op ∈ ops, op.models? = none) :
    lastModels ([.setSource source] ++ ops) =
      Model.ofDeclarations (Source.declarations source) := by
  induction ops using List.reverseRecOn with
  | nil =>
    rw [List.append_nil, ← List.nil_append [_], lastModels_concat, models?_setSource,
      Option.getD_some]
  | append_singleton ops op ih =>
    rw [← List.append_assoc, lastModels_concat, h op (by simp), Option.getD_none]
    exact ih fun other hIn => h other (List.mem_append_left _ hIn)

theorem lastModels_preparation : lastModels (preparation options source pins) =
    Model.ofDeclarations (Source.declarations source) := by
  rw [preparation, List.append_assoc]
  refine lastModels_of_source source ?_
  simp only [List.mem_append, List.mem_map]
  rintro op (⟨_, _, rfl⟩ | ⟨_, _, rfl⟩) <;> rfl

theorem mirrors_opened : Mirrors (Model.ofDeclarations (Source.declarations source))
    (EverCommitted (create options .standard : Session Float) [.setSource source])
    (opened options source) := by
  have hLast : lastModels [(.setSource source : Operation Float)] =
      Model.ofDeclarations (Source.declarations source) :=
    lastModels_of_source source fun op (hOp : op ∈ []) => nomatch hOp
  rw [← hLast]
  exact mirrors_run options .standard [.setSource source]

theorem nodes_measured : ((opened options source).run ((opened options source).nodes.map fun n =>
      .measure n.id (nodeExtent n))).nodes =
    (opened options source).nodes.map fun n => { n with size := some (nodeExtent n) } :=
  nodes_measureAll (mirrors_opened options source).nodup_ids nodeExtent

theorem ids_measured : ((opened options source).run ((opened options source).nodes.map fun n =>
      .measure n.id (nodeExtent n))).nodes.map Node.id =
    (Model.ofDeclarations (Source.declarations source)).map Model.id := by
  rw [nodes_measured, List.map_map]
  exact (mirrors_opened options source).ids

theorem arranged_eq_ok_iff {env : Environment} {choices : LayoutChoices} {t : Session Float} :
    arranged env source choices = .ok t ↔
      (∀ pin ∈ choices.pins.entries,
        pin.1 ∈ (Model.ofDeclarations (Source.declarations source)).map Model.id) ∧
      t = laidOut (env.viewOptions choices.direction true "" true) source choices.pins.entries := by
  obtain ⟨options, hOptions⟩ :
    ∃ options, options = env.viewOptions choices.direction true "" true := ⟨_, rfl⟩
  have hMeasured : (((create options .standard).setSource source).measureAll nodeExtent).1 =
      (opened options source).run ((opened options source).nodes.map fun n =>
        .measure n.id (nodeExtent n)) := measureAll_eq_run (opened options source) nodeExtent
  unfold arranged
  dsimp only
  rw [← hOptions, hMeasured, bind_eq_ok_iff]
  simp only [foldlM_placePin, ids_measured, ← run_preparation]
  constructor
  · rintro ⟨s, ⟨hPins, hs⟩, h⟩
    have hLaidOut : refusePostponed (s.layoutSettled layeredService) =
        .ok (laidOut options source choices.pins.entries) := by
      rw [hs]
      exact refusePostponed_eq_ok (postponedFor?_laidOut ..)
    exact ⟨hPins, Except.ok.inj (h.symm.trans hLaidOut)⟩
  · rintro ⟨hPins, ht⟩
    refine ⟨_, ⟨hPins, rfl⟩, ?_⟩
    rw [ht]
    exact refusePostponed_eq_ok (postponedFor?_laidOut ..)

/-! ## What the layout shows -/

/-- The nodes before the layout: each has its extent, and those with pins stand there. -/
theorem nodes_preparation {places : OrderedMap String (Position Float)} (h : places.keys.Nodup) :
    ((create options .standard).run (preparation options source places.entries)).nodes =
      (opened options source).nodes.map fun n => { n with
        size := some (nodeExtent n), position := (places.get? n.id).getD n.position } := by
  rw [run_preparation, nodes_moves h, nodes_measured, List.map_map]
  rfl

theorem options_preparation :
    ((create options .standard).run (preparation options source pins)).options = options := by
  refine options_run ?_ _
  exact forall_mem_preparation options source pins
    (P := fun op => ∀ s : Session Float, (s.step op).options = s.options)
    (fun s => options_setModels s _) (fun id _ s => options_updateNode s id _)
    fun id position s => options_move s id position

theorem mirrors_preparation : ∃ past, Mirrors (Model.ofDeclarations (Source.declarations source))
    past ((create options .standard).run (preparation options source pins)) := by
  rw [← lastModels_preparation options source pins]
  exact ⟨_, mirrors_run options .standard (preparation options source pins)⟩

/-- After the layout every model is shown by a node of its extent, and where its pin puts it. -/
theorem forall₂_laidOut {places : OrderedMap String (Position Float)} (h : places.keys.Nodup)
    (hPins : ∀ pin ∈ places.entries,
      pin.1 ∈ (Model.ofDeclarations (Source.declarations source)).map Model.id) :
    List.Forall₂ (fun m n => n.id = m.id ∧ n.model = m ∧ n.size = some (nodeExtent n) ∧
        ∀ position, places.get? m.id = some position → n.position = position)
      (Model.ofDeclarations (Source.declarations source))
      (laidOut options source places.entries).nodes := by
  have hOpened := mirrors_opened options source
  obtain ⟨_, hMirrors⟩ := mirrors_preparation options source places.entries
  have hArranges := (forcedInto_laidOut options source places.entries).arranges options .standard
    (plain_preparation options source places.entries)
  have hAlike := alike_of_arrange hMirrors.nodup_ids hArranges.nodes
  have hOwn : ∀ n ∈ (opened options source).nodes, n.id = n.model.id := by
    have hIds := hOpened.ids
    rw [← hOpened.nodeModels, List.map_map] at hIds
    exact List.map_inj_left.mp hIds
  have hPinned : ∀ id ∈ places.keys, id ∈
      ((create options .standard).run (preparation options source places.entries)).pinned := by
    intro id hId
    rw [run_preparation, mem_pinned_moves (by rwa [ids_measured])]
    exact .inr hId
  rw [nodes_preparation options source h, List.forall₂_map_left_iff] at hAlike
  obtain ⟨hLength, hPairs⟩ := List.forall₂_iff_zip.mp hAlike
  nth_rewrite 1 [← hOpened.nodeModels]
  rw [List.forall₂_map_left_iff, List.forall₂_iff_zip]
  refine ⟨hLength, fun {n n'} hPair => ?_⟩
  have hSame := hPairs hPair
  have hId := hOwn n (List.of_mem_zip hPair).1
  refine ⟨hSame.id.symm.trans hId, hSame.model.symm, ?_, fun position hPlace => ?_⟩
  · rw [← hSame.size, nodeExtent, nodeExtent, ← hSame.model]
  · rw [← hId] at hPlace
    rw [← hSame.place (hPinned _ (OrderedMap.mem_keys_of_get? hPlace))]
    exact congrArg (Option.getD · _) hPlace

theorem showsNode_nodeReport {m : Model} {n : Node Float} (hId : n.id = m.id) (hModel : n.model = m)
    (hSize : n.size = some (nodeExtent n)) (pinned : List String) :
    ShowsNode m n.position (nodeReport pinned n) := by
  subst hModel
  have hCounts : ∀ k : Nat,
      Counts (if pinned.contains n.model.id then .whole k else .real k.toFloat) k := by
    intro k
    split
    · exact .inl rfl
    · exact .inr rfl
  refine ⟨_, _, hCounts nodeWidth, hCounts (nodeHeight n.model), ?_⟩
  unfold nodeReport
  rw [hSize, hId]
  rfl

theorem layoutReport_laidOut {places : OrderedMap String (Position Float)} (h : places.keys.Nodup)
    (hPins : ∀ pin ∈ places.entries,
      pin.1 ∈ (Model.ofDeclarations (Source.declarations source)).map Model.id) :
    let models := Model.ofDeclarations (Source.declarations source)
    ∃ nodes, layoutReport (laidOut options source places.entries) = .object [
        ("direction", .string options.direction.name), ("nodes", .array nodes),
        ("edges", .array ((edgesOf models).map Edge.toDocument))] ∧
      List.Forall₂ (fun m d => ∃ position, ShowsNode m position d ∧
        ∀ pinned, places.get? m.id = some pinned → position = pinned) models nodes := by
  have hArranges := (forcedInto_laidOut options source places.entries).arranges options .standard
    (plain_preparation options source places.entries)
  obtain ⟨_, hMirrors⟩ := mirrors_preparation options source places.entries
  refine ⟨(laidOut options source places.entries).nodes.map
    (nodeReport (laidOut options source places.entries).pinned), ?_, ?_⟩
  · rw [layoutReport, hArranges.edges, hMirrors.edges, hArranges.direction, options_preparation]
  · rw [List.forall₂_map_right_iff]
    refine (forall₂_laidOut options source h hPins).imp fun m n hShown => ?_
    obtain ⟨hId, hModel, hSize, hPlace⟩ := hShown
    exact ⟨n.position, showsNode_nodeReport hId hModel hSize _, hPlace⟩

/-! ## The command -/

theorem exitCode_failed (command : Option Command) (p : Problem) :
    (Outcome.failed command p).exitCode ≠ 0 := by
  change (if p.ofUsage then 2 else 1) ≠ 0
  split <;> decide

variable {env : Environment} {look : String → Entry} {path : String} {bytes : List UInt8}
  {args : List String} {cs : List Char}

theorem runCommand_layout (hFile : look path = .file bytes)
    (hText : Text.Utf8.decode bytes = .ok cs) (given : List Given) :
    runCommand env look ⟨given, [path]⟩ .layout =
      (layoutChoices given >>= arranged env (String.ofList (Text.unifyLineEnds cs))).map
        layoutReport := by
  have hOperand : readOperand look [path] = .ok bytes := by simp only [readOperand, hFile]
  have hSource : readText path bytes = .ok (String.ofList (Text.unifyLineEnds cs)) := by
    simp only [readText, hText]
  unfold runCommand
  rw [hOperand]
  cases layoutChoices given with
  | error p => rfl
  | ok choices =>
    change (readText path bytes >>= fun source => arranged env source choices >>= fun s =>
      pure (layoutReport s)) = (arranged env _ choices).map layoutReport
    rw [hSource]
    change (arranged env _ choices >>= fun s => pure (layoutReport s)) = _
    cases arranged env (String.ofList (Text.unifyLineEnds cs)) choices <;> rfl

theorem run_layout {given : List Given} (hFile : look path = .file bytes)
    (hText : Text.Utf8.decode bytes = .ok cs)
    (hRead : readWords Command.layout.options true args = .ok ⟨given, [path]⟩)
    (hHelp : ∀ g ∈ given, g.option ≠ OptionRule.helpFlag.long) :
    run env look (Command.layout.name :: args) =
      match layoutChoices given >>= arranged env (String.ofList (Text.unifyLineEnds cs)) with
      | .ok s => .report (layoutReport s)
      | .error p => .failed (some .layout) p := by
  have hNoHelp : (given.any fun g => g.option == OptionRule.helpFlag.long) = false := by
    simpa using hHelp
  rw [run_name, runNamed, hRead]
  dsimp only
  rw [hNoHelp, if_neg Bool.false_ne_true, runCommand_layout hFile hText]
  cases layoutChoices given >>= arranged env (String.ofList (Text.unifyLineEnds cs)) <;> rfl

/-- The choices can be made and the diagram laid out if every pin can be read and names a model. -/
theorem layout_eq_ok_iff {given : List Given} {direction : Option Direction} {s : Session Float}
    (hDirection : (valuesOf given .direction).getLast? = direction.map Direction.name) :
    layoutChoices given >>= arranged env source = .ok s ↔
      ∃ pins, (valuesOf given .pin).mapM readPin = .ok pins ∧
        (∀ pin ∈ pins, pin.1 ∈ (Model.ofDeclarations (Source.declarations source)).map Model.id) ∧
        s = laidOut (env.viewOptions direction true "" true) source
          (OrderedMap.ofList pins).entries := by
  rw [bind_eq_ok_iff]
  constructor
  · rintro ⟨choices, hChoices, hArranged⟩
    obtain ⟨pins, hPins⟩ := exists_pins_of_layoutChoices hChoices
    rw [layoutChoices_eq hDirection hPins, Except.ok.injEq] at hChoices
    rw [← hChoices, arranged_eq_ok_iff, OrderedMap.forall_mem_entries_ofList] at hArranged
    exact ⟨pins, hPins, hArranged⟩
  · rintro ⟨pins, hPins, hArranged⟩
    refine ⟨_, layoutChoices_eq hDirection hPins, ?_⟩
    rwa [arranged_eq_ok_iff, OrderedMap.forall_mem_entries_ofList]

/-- On a file of text, whatever pins are asked for, the command succeeds exactly if every pin has
the form of an id, `=` and two numbers with `,` between, and names a declaration. Then it shows the
models in order, each as large as its fields make it, where its last pin puts it, and the edges. -/
theorem layout_succeeds_iff_pins_usable (env : Environment) {direction : Option Direction}
    {texts : List String}
    (hFile : look path = .file bytes) (hText : Text.Utf8.decode bytes = .ok cs)
    (hAsks : AsksLayout args path direction texts) :
    let declared := Source.declarations (String.ofList (Text.unifyLineEnds cs))
    let models := Model.ofDeclarations declared
    let outcome := run env look (Command.layout.name :: args)
    let usable := ∀ text ∈ texts, ∃ id ∈ declared.map Declaration.name, ∃ position,
      Pins text id position
    (outcome.exitCode = 0 ↔ usable) ∧
      (usable → ∃ nodes, outcome = .report (.object [
          ("direction", .string (direction.getD (env.direction?.getD .horizontal)).name),
          ("nodes", .array nodes), ("edges", .array ((edgesOf models).map Edge.toDocument))]) ∧
        List.Forall₂ (fun m d => ∃ position, ShowsNode m position d ∧
          ∀ pinned, LastPins texts m.id pinned → position = pinned) models nodes) := by
  obtain ⟨given, hRead, hHelp, hDirection, rfl⟩ := hAsks
  intro declared models outcome usable
  have hOutcome : outcome = _ := run_layout hFile hText hRead hHelp
  have hUsable : usable ↔ _ := forall_pins_iff (valuesOf given .pin) (declared.map Declaration.name)
  rw [← Model.ids_ofDeclarations] at hUsable
  constructor
  · cases hLaidOut :
        layoutChoices given >>= arranged env (String.ofList (Text.unifyLineEnds cs)) with
    | error p =>
      rw [hLaidOut] at hOutcome
      rw [hOutcome]
      refine iff_of_false (exitCode_failed _ p) fun h => ?_
      obtain ⟨pins, hPins, hDeclared⟩ := hUsable.mp h
      have hOk : layoutChoices given >>= arranged env _ = .ok _ :=
        (layout_eq_ok_iff _ hDirection).mpr ⟨pins, hPins, hDeclared, rfl⟩
      rw [hLaidOut] at hOk
      cases hOk
    | ok s =>
      rw [hLaidOut] at hOutcome
      rw [hOutcome]
      obtain ⟨pins, hPins, hDeclared, _⟩ := (layout_eq_ok_iff _ hDirection).mp hLaidOut
      exact iff_of_true rfl (hUsable.mpr ⟨pins, hPins, hDeclared⟩)
  · intro h
    obtain ⟨pins, hPins, hDeclared⟩ := hUsable.mp h
    obtain ⟨nodes, hReport, hNodes⟩ := layoutReport_laidOut (env.viewOptions direction true "" true)
      _ (OrderedMap.nodup_keys_ofList pins)
      ((OrderedMap.forall_mem_entries_ofList pins fun id => id ∈ models.map Model.id).mpr hDeclared)
    rw [(layout_eq_ok_iff _ hDirection).mpr ⟨pins, hPins, hDeclared, rfl⟩] at hOutcome
    refine ⟨nodes, hOutcome.trans (congrArg Outcome.report hReport),
      hNodes.imp fun m d hShown => ?_⟩
    obtain ⟨position, hShows, hPlace⟩ := hShown
    exact ⟨position, hShows, fun pinned hLast =>
      hPlace pinned ((get?_ofList_eq_some_iff hPins).mpr hLast)⟩

/-- A node with two pins, and a text that is no pin. -/
theorem layout_succeeds_with_two_pins :
    let look : String → Entry := fun path =>
      if path = "a.ts" then .file [0x74, 0x79, 0x70, 0x65, 0x20, 0x41, 0x3D, 0x7B, 0x7D]
      else .missing
    let declared := Source.declarations "type A={}"
    let outcome := run ⟨none, none⟩ look
      ["layout", "--direction", "vertical", "--pin", "A=1,2", "--pin", "A=3,4", "--", "a.ts"]
    (outcome.exitCode = 0 ↔ "A" ∈ declared.map Declaration.name) ∧
      ("A" ∈ declared.map Declaration.name → ∃ nodes, outcome = .report (.object [
          ("direction", .string "vertical"), ("nodes", .array nodes),
          ("edges", .array ((edgesOf (Model.ofDeclarations declared)).map Edge.toDocument))]) ∧
        List.Forall₂ (fun m d => ∃ position, ShowsNode m position d ∧ (m.id = "A" → position =
            ⟨(Number.Numeral.finite false 3 0).toFloat, (Number.Numeral.finite false 4 0).toFloat⟩))
          (Model.ofDeclarations declared) nodes) ∧
      (run ⟨none, none⟩ look ["layout", "--pin", "A=1,2", "--pin", "A=3", "--", "a.ts"]).exitCode ≠
        0 := by
  intro look declared outcome
  have hText : Text.Utf8.decode [0x74, 0x79, 0x70, 0x65, 0x20, 0x41, 0x3D, 0x7B, 0x7D] =
      .ok "type A={}".toList := rfl
  have hSource : String.ofList (Text.unifyLineEnds "type A={}".toList) = "type A={}" := rfl
  have hFile : look "a.ts" = .file _ := if_pos rfl
  have hUsed := layout_succeeds_iff_pins_usable ⟨none, none⟩ hFile hText
    (asksLayout_layoutLine "a.ts" (some .vertical) ["A=1,2", "A=3,4"])
  have hRefused := layout_succeeds_iff_pins_usable ⟨none, none⟩ hFile hText
    (asksLayout_layoutLine "a.ts" none ["A=1,2", "A=3"])
  rw [hSource] at hUsed hRefused
  have hFirst : Pins "A=1,2" "A" _ := readPin_eq_ok_iff.mp rfl
  have hLast : Pins "A=3,4" "A" _ := readPin_eq_ok_iff.mp rfl
  have hUsable : (∀ text ∈ ["A=1,2", "A=3,4"], ∃ id ∈ declared.map Declaration.name, ∃ position,
      Pins text id position) ↔ "A" ∈ declared.map Declaration.name := by
    constructor
    · intro h
      obtain ⟨id, hId, position, hPins⟩ := h "A=1,2" List.mem_cons_self
      cases (pins_iff_of_readPin (readPin_eq_ok_iff.mpr hFirst)).mp hPins
      exact hId
    · intro h text hIn
      rcases List.mem_cons.mp hIn with rfl | hIn
      · exact ⟨"A", h, _, hFirst⟩
      · rw [List.mem_singleton.mp hIn]
        exact ⟨"A", h, _, hLast⟩
  refine ⟨hUsed.1.trans hUsable, fun h => ?_, fun hZero => ?_⟩
  · obtain ⟨nodes, hReport, hNodes⟩ := hUsed.2 (hUsable.mpr h)
    refine ⟨nodes, hReport, hNodes.imp fun m d hShown => ?_⟩
    obtain ⟨position, hShows, hPlace⟩ := hShown
    exact ⟨position, hShows, fun hId =>
      hPlace _ ⟨["A=1,2"], "A=3,4", [], rfl, hId ▸ hLast, nofun⟩⟩
  · obtain ⟨id, _, position, hPins⟩ := hRefused.1.mp hZero "A=3" (by simp)
    exact absurd (readPin_eq_ok_iff.mpr hPins) nofun

end TypeDiagram.CommandLine
