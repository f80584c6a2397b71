import TypeDiagram.Proofs.Layout.Division
import TypeDiagram.Proofs.Layout.Reference

/-! # Drawing fails exactly at the first defect of a request

What may be wrong with an option, a child or an edge is said in terms of the request alone. A
request is drawn unless something is wrong, and otherwise fails with the first defect: that of the
options, of the first child that has one, or else of the first edge.
-/

namespace TypeDiagram.Layout

variable {α κ : Type}

/-! ## What may be wrong -/

/-- The child is read with a whole number that is too large: an extent, or a coordinate of a child
that comes with both. -/
inductive Child.TooLarge (c : Child α κ) : Prop where
  | place {x y : Quantity α} (hx : c.x = some x) (hy : c.y = some y) (h : x.TooLarge ∨ y.TooLarge)
  | extent {size : Quantity α} (hSize : c.width = some size ∨ c.height = some size)
      (h : size.TooLarge)

inductive ChildDefect (before : List (Child α κ)) (c : Child α κ) : Error → Prop where
  | nameless (h : c.id = none) : ChildDefect before c (.childWithoutId before.length)
  | duplicate {id : String} (h : c.id = some id) (hEarlier : ∃ other ∈ before, other.id = some id) :
      ChildDefect before c (.duplicateChild id)
  | tooLarge {id : String} (h : c.id = some id) (hNew : ¬ ∃ other ∈ before, other.id = some id)
      (hLarge : c.TooLarge) : ChildDefect before c .numberTooLarge

inductive LinkDefect (children : List (Child α κ)) (l : Link κ) : Error → Prop where
  | withoutEnds (h : l.sources = [] ∨ l.targets = []) :
      LinkDefect children l (.edgeWithoutEnds l.label)
  | unknown {source target : Name} {sources targets : List Name}
      (hSources : l.sources = source :: sources) (hTargets : l.targets = target :: targets)
      (h : (¬ ∃ c, RefersTo children source c) ∨ ¬ ∃ c, RefersTo children target c) :
      LinkDefect children l (.edgeToUnknown l.label)

def Request.HasLargeSpacing (request : Request α κ) : Prop :=
  ∃ key ∈ spacingKeys, HoldsTooLarge request.settings key

/-- What is reported of a request: an option that is too large, the first defect of a child, or else
that of an edge. -/
inductive Request.Reports (request : Request α κ) : Error → Prop where
  | setting (h : request.HasLargeSpacing) : request.Reports .numberTooLarge
  | child {e : Error} (hSettings : ¬ request.HasLargeSpacing)
      (h : FirstDefect ChildDefect request.children e) : request.Reports e
  | link {e : Error} (hSettings : ¬ request.HasLargeSpacing)
      (hChildren : Flawless ChildDefect request.children)
      (h : FirstDefect (fun _ => LinkDefect request.children) request.edges e) : request.Reports e

inductive Request.Malformed (request : Request α κ) : Prop where
  | nameless {c : Child α κ} (hChild : c ∈ request.children) (h : c.id = none)
  | duplicate {c d : Child α κ} {id : String} (hPair : [c, d].Sublist request.children)
      (hFirst : c.id = some id) (hSecond : d.id = some id)
  | withoutEnds {l : Link κ} (hLink : l ∈ request.edges) (h : l.sources = [] ∨ l.targets = [])
  | unknown {l : Link κ} {name : Name} (hLink : l ∈ request.edges)
      (hEnd : l.sources.head? = some name ∨ l.targets.head? = some name)
      (h : ¬ ∃ c, RefersTo request.children name c)

/-- A whole number that the drawing needs is too large. -/
inductive Request.TooLarge (request : Request α κ) : Prop where
  | setting (h : request.HasLargeSpacing)
  | child {c : Child α κ} (hChild : c ∈ request.children) (h : c.TooLarge)

variable [Coordinate α] {children : List (Child α κ)} {boxes : Boxes α}

/-! ## Reading -/

theorem Child.Numeric.readSeed_cases {c : Child α κ} (h : c.Numeric) :
    ((∀ x y, c.x = some x → c.y = some y → ¬ (x.TooLarge ∨ y.TooLarge)) ∧
        ∃ seed, readSeed c = .ok seed) ∨
      (∃ x y, c.x = some x ∧ c.y = some y ∧ (x.TooLarge ∨ y.TooLarge)) ∧
        readSeed c = .error .numberTooLarge := by
  obtain ⟨hX, hY, _, _⟩ := h.not_text
  unfold readSeed
  cases hx : c.x with
  | none => exact .inl ⟨nofun, _, rfl⟩
  | some x =>
    cases hy : c.y with
    | none => exact .inl ⟨nofun, _, rfl⟩
    | some y =>
      dsimp only
      rcases x.read_cases fun s hText => hX s (hText ▸ hx) with ⟨hFits, a, ha⟩ | ⟨hLarge, ha⟩
      · rcases y.read_cases fun s hText => hY s (hText ▸ hy) with ⟨hFits', b, hb⟩ | ⟨hLarge, hb⟩
        · rw [ha, hb]
          refine .inl ⟨?_, _, rfl⟩
          rintro _ _ ⟨⟩ ⟨⟩ hLarge
          exact hLarge.elim hFits hFits'
        · rw [ha, hb]
          exact .inr ⟨⟨x, y, rfl, rfl, .inr hLarge⟩, rfl⟩
      · rw [ha]
        exact .inr ⟨⟨x, y, rfl, rfl, .inl hLarge⟩, rfl⟩

theorem Child.Typed.readChild_cases {c : Child α κ} (h : c.Typed) {id : String}
    (hId : c.id = some id) (hNew : id ∉ boxes.keys) (index : Nat) :
    (¬ c.TooLarge ∧ ∃ entry, readChild boxes c index = .ok entry) ∨
      c.TooLarge ∧ readChild boxes c index = .error .numberTooLarge := by
  obtain ⟨_, _, hWidth, hHeight⟩ := h.numeric.not_text
  obtain ⟨fractions, hHandles, _⟩ := h.readHandles
  have hFree : ¬ boxes.contains id = true := mt (OrderedMap.contains_iff boxes id).mp hNew
  rcases h.numeric.readSeed_cases with ⟨hFits, seed, hSeed⟩ | ⟨⟨x, y, hx, hy, hLarge⟩, hSeed⟩
  · rcases readExtent_cases hWidth with ⟨hFits', w, hw⟩ | ⟨⟨size, hSize, hLarge⟩, hw⟩
    · rcases readExtent_cases hHeight with ⟨hFits'', v, hv⟩ | ⟨⟨size, hSize, hLarge⟩, hv⟩
      · refine .inl ⟨?_, _, readChild_eq_ok hId hNew hSeed hHandles hw hv index⟩
        rintro (⟨hx, hy, hLarge⟩ | ⟨hSize | hSize, hLarge⟩)
        · exact hFits _ _ hx hy hLarge
        · exact hFits' _ hSize hLarge
        · exact hFits'' _ hSize hLarge
      · refine .inr ⟨.extent (.inr hSize) hLarge, ?_⟩
        unfold readChild
        rw [hId, hSeed, hHandles, hw, hv]
        exact if_neg hFree
    · refine .inr ⟨.extent (.inl hSize) hLarge, ?_⟩
      unfold readChild
      rw [hId, hSeed, hHandles, hw]
      exact if_neg hFree
  · refine .inr ⟨.place hx hy hLarge, ?_⟩
    unfold readChild
    rw [hId, hSeed]
    exact if_neg hFree

omit [Coordinate α] in
theorem ChildDefect.unique {before : List (Child α κ)} {c : Child α κ} {e e' : Error}
    (h : ChildDefect before c e) (h' : ChildDefect before c e') : e = e' := by
  cases h <;> cases h' <;> grind

theorem readChild_of_nameless {c : Child α κ} (h : c.id = none) (index : Nat) :
    readChild boxes c index = .error (.childWithoutId index) := by
  unfold readChild
  rw [h]
  rfl

theorem readChild_of_known {c : Child α κ} {id : String} (hId : c.id = some id)
    (hKnown : id ∈ boxes.keys) (index : Nat) :
    readChild boxes c index = .error (.duplicateChild id) := by
  unfold readChild
  rw [hId]
  exact if_pos ((OrderedMap.contains_iff boxes id).mpr hKnown)

theorem readChild_eq_error_iff (h : readChildren children = .ok boxes) {c : Child α κ}
    (hTyped : c.Typed) (e : Error) :
    readChild boxes c children.length = .error e ↔ ChildDefect children c e := by
  have hFails {found : Error} (hRead : readChild boxes c children.length = .error found)
      (hDefect : ChildDefect children c found) :
      readChild boxes c children.length = .error e ↔ ChildDefect children c e := by
    rw [hRead, Except.error.injEq]
    exact ⟨fun hSame => hSame ▸ hDefect, hDefect.unique⟩
  cases hId : c.id with
  | none => exact hFails (readChild_of_nameless hId _) (.nameless hId)
  | some id =>
    have hKnown := mem_keys_readChildren_iff h id
    by_cases hIn : id ∈ boxes.keys
    · exact hFails (readChild_of_known hId hIn _) (.duplicate hId (hKnown.mp hIn))
    · rcases hTyped.readChild_cases hId hIn children.length with ⟨hFits, _, hRead⟩ | ⟨hLarge, hRead⟩
      · rw [hRead]
        refine iff_of_false nofun ?_
        rintro (hNone | ⟨hSome, hEarlier⟩ | ⟨_, _, hLarge⟩)
        · cases hId.symm.trans hNone
        · cases hId.symm.trans hSome
          exact hIn (hKnown.mpr hEarlier)
        · exact hFits hLarge
      · exact hFails hRead (.tooLarge hId (mt hKnown.mpr hIn) hLarge)

theorem readChildren_of_typed (h : ∀ c ∈ children, c.Typed) :
    ((∃ boxes, readChildren children = .ok boxes) ↔ Flawless ChildDefect children) ∧
      ∀ e, readChildren children = .error e ↔ FirstDefect ChildDefect children e := by
  refine reads_to_first_defect Child.Typed ⟨_, rfl⟩ (fun cs c e hRead => ?_)
    (fun cs c boxes hAll hRead e => ?_) h
  · rw [readChildren_concat_eq, hRead]
    rfl
  · rw [← readChild_eq_error_iff hRead (hAll c (by simp)), readChildren_concat_eq, hRead]
    exact bind_pure_eq_error_iff

omit [Coordinate α] in
theorem LinkDefect.unique {l : Link κ} {e e' : Error} (h : LinkDefect children l e)
    (h' : LinkDefect children l e') : e = e' := by
  cases h <;> cases h' <;> simp_all

theorem readLink_eq_error_iff (hTyped : ∀ c ∈ children, c.Typed)
    (h : readChildren children = .ok boxes) (l : Link κ) (e : Error) :
    readLink boxes (handleOwners boxes) l = .error e ↔ LinkDefect children l e := by
  have hNamed := boxNamed?_eq_none_iff hTyped h
  have hFails {found : Error} (hDefect : LinkDefect children l found) :
      found = e ↔ LinkDefect children l e :=
    ⟨fun hSame => hSame ▸ hDefect, hDefect.unique⟩
  unfold readLink
  split
  · rename_i source _ target _ hSources hTargets
    split
    · rename_i hSource hTarget
      refine iff_of_false nofun ?_
      rintro (hNone | ⟨hSources', hTargets', hUnknown⟩)
      · simp [hSources, hTargets] at hNone
      · cases hSources.symm.trans hSources'
        cases hTargets.symm.trans hTargets'
        rw [← hNamed, ← hNamed, hSource, hTarget] at hUnknown
        simp at hUnknown
    · rename_i hUnresolved
      rw [Except.error.injEq]
      refine hFails (.unknown hSources hTargets ?_)
      rw [← hNamed, ← hNamed]
      by_contra hBoth
      obtain ⟨hSome, hSome'⟩ := not_or.mp hBoth
      obtain ⟨a, ha⟩ := Option.ne_none_iff_exists'.mp hSome
      obtain ⟨b, hb⟩ := Option.ne_none_iff_exists'.mp hSome'
      exact hUnresolved a b ha hb
  · rename_i hEnds
    rw [Except.error.injEq]
    refine hFails (.withoutEnds ?_)
    cases hSources : l.sources with
    | nil => exact .inl rfl
    | cons source sources =>
      cases hTargets : l.targets with
      | nil => exact .inr rfl
      | cons target targets => exact absurd hTargets (hEnds _ _ _ _ hSources)

omit [Coordinate α] in
theorem readLinks_concat_eq (boxes : Boxes α) (ls : List (Link κ)) (l : Link κ) :
    readLinks boxes (ls ++ [l]) = readLinks boxes ls >>= fun routes =>
      readLink boxes (handleOwners boxes) l >>= fun route => pure (routes ++ [route]) := by
  simp [readLinks, List.mapM_append]

theorem readLinks_of_typed (hTyped : ∀ c ∈ children, c.Typed)
    (h : readChildren children = .ok boxes) (ls : List (Link κ)) :
    ((∃ routes, readLinks boxes ls = .ok routes) ↔ Flawless (fun _ => LinkDefect children) ls) ∧
      ∀ e, readLinks boxes ls = .error e ↔ FirstDefect (fun _ => LinkDefect children) ls e := by
  refine reads_to_first_defect (fun _ => True) ⟨[], rfl⟩ (fun ls l e hRead => ?_)
    (fun ls l routes _ hRead e => ?_) fun _ _ => trivial
  · rw [readLinks_concat_eq, hRead]
    rfl
  · rw [← readLink_eq_error_iff hTyped h, readLinks_concat_eq, hRead]
    exact bind_pure_eq_error_iff

/-! ## Requests -/

theorem resolveRequest_eq_error_iff {request : Request α κ}
    (hTyped : ∀ c ∈ request.children, c.Typed) (e : Error) :
    resolveRequest request = .error e ↔ request.Reports e := by
  obtain ⟨hOk, hError⟩ := readChildren_of_typed hTyped
  unfold resolveRequest
  rcases readSpacing_cases (α := α) request.settings with
    ⟨hFits, spacing, hSpacing⟩ | ⟨hLarge, hSpacing⟩
  · have hSettings : ¬ request.HasLargeSpacing := fun ⟨key, hKey, hLarge⟩ => hFits key hKey hLarge
    rw [hSpacing]
    change (readChildren request.children >>= fun boxes => _) = _ ↔ _
    rw [bind_eq_error_iff, hError]
    constructor
    · rintro (hChild | ⟨boxes, hRead, hLinks⟩)
      · exact .child hSettings hChild
      · rw [bind_pure_eq_error_iff, (readLinks_of_typed hTyped hRead _).2] at hLinks
        exact .link hSettings (hOk.mp ⟨boxes, hRead⟩) hLinks
    · rintro (hSetting | ⟨_, hChild⟩ | ⟨_, hChildren, hLink⟩)
      · exact absurd hSetting hSettings
      · exact .inl hChild
      · obtain ⟨boxes, hRead⟩ := hOk.mpr hChildren
        refine .inr ⟨boxes, hRead, ?_⟩
        rwa [bind_pure_eq_error_iff, (readLinks_of_typed hTyped hRead _).2]
  · rw [hSpacing]
    change Except.error Error.numberTooLarge = _ ↔ _
    rw [Except.error.injEq]
    constructor
    · rintro rfl
      exact .setting hLarge
    · rintro (_ | ⟨hSettings, _⟩ | ⟨hSettings, _, _⟩)
      · rfl
      · exact absurd hLarge hSettings
      · exact absurd hLarge hSettings

theorem draw_eq_error_iff {request : Request α κ} {e : Error} :
    draw request = .error e ↔ resolveRequest request = .error e := by
  rw [draw_eq]
  cases resolveRequest request <;> simp [Except.map]

omit [Coordinate α] in
theorem not_flawless_children_iff : ¬ Flawless ChildDefect children ↔
    (∃ c ∈ children, c.id = none) ∨
      (∃ c d id, [c, d].Sublist children ∧ c.id = some id ∧ d.id = some id) ∨
      ∃ c ∈ children, c.TooLarge := by
  constructor
  · intro h
    simp only [Flawless, not_forall, not_not] at h
    obtain ⟨before, c, after, rfl, e, hNone | ⟨hId, other, hOther, hOtherId⟩ | ⟨_, _, hLarge⟩⟩ := h
    · exact .inl ⟨c, by simp, hNone⟩
    · refine .inr (.inl ⟨other, c, _, ?_, hOtherId, hId⟩)
      have hFirst : [other].Sublist before := List.singleton_sublist.mpr hOther
      have hSecond : [c].Sublist (c :: after) := List.singleton_sublist.mpr List.mem_cons_self
      exact hFirst.append hSecond
    · exact .inr (.inr ⟨c, by simp, hLarge⟩)
  · rintro (⟨c, hc, hNone⟩ | ⟨c, d, id, hPair, hFirst, hSecond⟩ | ⟨c, hc, hLarge⟩) hFlawless
    · obtain ⟨before, after, rfl⟩ := List.append_of_mem hc
      exact hFlawless before c after rfl _ (.nameless hNone)
    · obtain ⟨front, back, rfl, hc, hd⟩ := List.cons_sublist_iff.mp hPair
      obtain ⟨between, after, rfl⟩ := List.append_of_mem (List.singleton_sublist.mp hd)
      refine hFlawless (front ++ between) d after (by simp) _ (.duplicate hSecond ⟨c, ?_, hFirst⟩)
      exact List.mem_append_left _ hc
    · obtain ⟨before, after, rfl⟩ := List.append_of_mem hc
      cases hId : c.id with
      | none => exact hFlawless before c after rfl _ (.nameless hId)
      | some id =>
        by_cases hEarlier : ∃ other ∈ before, other.id = some id
        · exact hFlawless before c after rfl _ (.duplicate hId hEarlier)
        · exact hFlawless before c after rfl _ (.tooLarge hId hEarlier hLarge)

omit [Coordinate α] in
theorem not_flawless_links_iff {ls : List (Link κ)} :
    ¬ Flawless (fun _ => LinkDefect children) ls ↔ ∃ l ∈ ls, ∃ e, LinkDefect children l e := by
  constructor
  · intro h
    simp only [Flawless, not_forall, not_not] at h
    obtain ⟨before, l, after, rfl, e, hDefect⟩ := h
    exact ⟨l, by simp, e, hDefect⟩
  · rintro ⟨l, hl, e, hDefect⟩ hFlawless
    obtain ⟨before, after, rfl⟩ := List.append_of_mem hl
    exact hFlawless before l after rfl e hDefect

omit [Coordinate α] in
theorem exists_linkDefect_iff {l : Link κ} : (∃ e, LinkDefect children l e) ↔
    (l.sources = [] ∨ l.targets = []) ∨ ∃ name, (l.sources.head? = some name ∨
      l.targets.head? = some name) ∧ ¬ ∃ c, RefersTo children name c := by
  constructor
  · rintro ⟨e, hEnds | ⟨hSources, hTargets, hSource | hTarget⟩⟩
    · exact .inl hEnds
    · exact .inr ⟨_, .inl (by rw [hSources, List.head?_cons]), hSource⟩
    · exact .inr ⟨_, .inr (by rw [hTargets, List.head?_cons]), hTarget⟩
  · rintro (hEnds | ⟨name, hName, hUnknown⟩)
    · exact ⟨_, .withoutEnds hEnds⟩
    · cases hSources : l.sources with
      | nil => exact ⟨_, .withoutEnds (.inl hSources)⟩
      | cons source sources =>
        cases hTargets : l.targets with
        | nil => exact ⟨_, .withoutEnds (.inr hTargets)⟩
        | cons target targets =>
          rw [hSources, hTargets, List.head?_cons, List.head?_cons] at hName
          refine ⟨_, .unknown hSources hTargets ?_⟩
          rcases hName with hName | hName
          · cases hName
            exact .inl hUnknown
          · cases hName
            exact .inr hUnknown

omit [Coordinate α] in
theorem exists_reports_iff (request : Request α κ) : (∃ e, request.Reports e) ↔
    request.HasLargeSpacing ∨ ¬ Flawless ChildDefect request.children ∨
      ¬ Flawless (fun _ => LinkDefect request.children) request.edges := by
  constructor
  · rintro ⟨e, hSetting | ⟨_, hChild⟩ | ⟨_, _, hLink⟩⟩
    · exact .inl hSetting
    · exact .inr (.inl (not_flawless_iff.mpr ⟨e, hChild⟩))
    · exact .inr (.inr (not_flawless_iff.mpr ⟨e, hLink⟩))
  · intro hFlawed
    by_cases hSettings : request.HasLargeSpacing
    · exact ⟨_, .setting hSettings⟩
    · by_cases hChildren : Flawless ChildDefect request.children
      · have hLinks := (hFlawed.resolve_left hSettings).resolve_left (not_not.mpr hChildren)
        obtain ⟨e, hLink⟩ := not_flawless_iff.mp hLinks
        exact ⟨e, .link hSettings hChildren hLink⟩
      · obtain ⟨e, hChild⟩ := not_flawless_iff.mp hChildren
        exact ⟨e, .child hSettings hChild⟩

omit [Coordinate α] in
theorem tooLarge_of_reports {request : Request α κ} (h : request.Reports .numberTooLarge) :
    request.TooLarge := by
  obtain hSetting | ⟨_, hChild⟩ | ⟨_, _, hLink⟩ := h
  · exact .setting hSetting
  · obtain ⟨before, c, after, hSplit, _, hDefect⟩ := hChild
    cases hDefect with
    | tooLarge _ _ hLarge => exact .child (hSplit ▸ by simp) hLarge
  · obtain ⟨_, _, _, _, _, hDefect⟩ := hLink
    cases hDefect

omit [Coordinate α] in
/-- There is something to report of a request exactly if it is malformed or a number of it is too
large. -/
theorem malformed_or_tooLarge_iff (request : Request α κ) :
    request.Malformed ∨ request.TooLarge ↔ ∃ e, request.Reports e := by
  rw [exists_reports_iff, not_flawless_children_iff, not_flawless_links_iff]
  simp only [exists_linkDefect_iff]
  constructor
  · rintro ((⟨hChild, hNone⟩ | ⟨hPair, hFirst, hSecond⟩ | ⟨hLink, hEnds⟩ |
      ⟨hLink, hEnd, hUnknown⟩) | hSetting | ⟨hChild, hLarge⟩)
    · exact .inr (.inl (.inl ⟨_, hChild, hNone⟩))
    · exact .inr (.inl (.inr (.inl ⟨_, _, _, hPair, hFirst, hSecond⟩)))
    · exact .inr (.inr ⟨_, hLink, .inl hEnds⟩)
    · exact .inr (.inr ⟨_, hLink, .inr ⟨_, hEnd, hUnknown⟩⟩)
    · exact .inl hSetting
    · exact .inr (.inl (.inr (.inr ⟨_, hChild, hLarge⟩)))
  · rintro (hSetting | (⟨_, hChild, hNone⟩ | ⟨_, _, _, hPair, hFirst, hSecond⟩ |
      ⟨_, hChild, hLarge⟩) | ⟨_, hLink, hEnds | ⟨_, hEnd, hUnknown⟩⟩)
    · exact .inr (.setting hSetting)
    · exact .inl (.nameless hChild hNone)
    · exact .inl (.duplicate hPair hFirst hSecond)
    · exact .inr (.child hChild hLarge)
    · exact .inl (.withoutEnds hLink hEnds)
    · exact .inl (.unknown hLink hEnd hUnknown)

/-- A request is drawn unless it is malformed or a whole number of it is too large, and otherwise
fails with its first defect. What is drawn rests on a graph without cycles, every look-up finds its
key, and nothing is divided but by positive whole numbers. -/
theorem draw_fails_exactly_on_defects {request : Request α κ}
    (hTyped : ∀ c ∈ request.children, c.Typed) :
    ((∃ e, draw request = .error e) ↔ request.Malformed ∨ request.TooLarge) ∧
    (∀ e, draw request = .error e ↔ request.Reports e) ∧
    (¬ request.TooLarge → draw request ≠ .error .numberTooLarge) ∧
    (¬ request.Malformed → ¬ request.TooLarge → ∃ r drawing, resolveRequest request = .ok r ∧
      draw request = .ok drawing ∧
      (∀ n, ¬ Relation.TransGen (orientedGraph r.boxes (planOf r).routes).Joins n n) ∧
      (planOf r).Complete r ∧
      ∀ divide : α → α → α, DividesAlike divide →
        @draw α κ (Coordinate.withDivision divide) request = .ok drawing) := by
  have hError : ∀ e, draw request = .error e ↔ request.Reports e := fun e => by
    rw [draw_eq_error_iff, resolveRequest_eq_error_iff hTyped]
  have hDefective : (∃ e, draw request = .error e) ↔ request.Malformed ∨ request.TooLarge := by
    rw [malformed_or_tooLarge_iff]
    exact exists_congr hError
  refine ⟨hDefective, hError, fun hFits hFails => ?_, fun hSound hFits => ?_⟩
  · exact hFits (tooLarge_of_reports ((hError _).mp hFails))
  · rcases draw_cases request with ⟨e, _, hDraw⟩ | ⟨r, drawing, hRead, hDraw, _⟩
    · exact absurd (hDefective.mp ⟨e, hDraw⟩) (not_or.mpr ⟨hSound, hFits⟩)
    · have hRouted := wellRouted_of_resolveRequest hRead
      refine ⟨r, drawing, hRead, hDraw, hRouted.not_joins_itself, complete_planOf hRouted, ?_⟩
      exact fun divide hAlike => (draw_withDivision hAlike request).trans hDraw

/-- Edges run in a circle, back and forth, twice between the same children, and from a child to
itself. -/
def tangledRequest : Request Rat Unit :=
  let child (id : String) (handles : List (Handle Rat)) : Child Rat Unit :=
    ⟨some id, none, none, some (.number 100), none, handles, ()⟩
  let edge (source target : String) : Link Unit := ⟨.absent, [.text source], [.text target], ()⟩
  ⟨[], [child "A" [⟨some (.text "A-b"), .number 0, none⟩], child "B" [], child "C" []],
    [edge "A-b" "B", edge "B" "C", edge "C" "A", edge "A" "B", edge "B" "A", edge "C" "C"]⟩

theorem typed_tangledRequest : ∀ c ∈ tangledRequest.children, c.Typed := by
  simp only [tangledRequest, List.forall_mem_cons]
  refine ⟨?_, ?_, ?_, List.forall_mem_nil _⟩
  all_goals exact ⟨fun s => by simp, by simp⟩

/-- Once its first child is repeated and an edge has no ends, the child is what is reported. -/
theorem tangled_request_fails_exactly_on_defects :
    let flawed := { tangledRequest with
      children := tangledRequest.children ++ tangledRequest.children.take 1
      edges := ⟨.absent, [], [], ()⟩ :: tangledRequest.edges }
    (∀ c ∈ flawed.children, c.Typed) ∧ flawed.Malformed ∧ flawed.Reports (.duplicateChild "A") ∧
    draw flawed = .error (.duplicateChild "A") ∧
    (∀ c ∈ tangledRequest.children, c.Typed) ∧ ¬ tangledRequest.Malformed ∧
      ¬ tangledRequest.TooLarge ∧
      ∃ r drawing, resolveRequest tangledRequest = .ok r ∧ draw tangledRequest = .ok drawing ∧
        (∀ n, ¬ Relation.TransGen (orientedGraph r.boxes (planOf r).routes).Joins n n) ∧
        (planOf r).Complete r ∧
        @draw Rat Unit (Coordinate.withDivision fun a b => if b = 0 then 1 else a / b)
          tangledRequest = .ok drawing := by
  intro flawed
  have hFlawedTyped : ∀ c ∈ flawed.children, c.Typed := fun c hc =>
    (List.mem_append.mp hc).elim (typed_tangledRequest c) fun hFirst =>
      typed_tangledRequest c (List.mem_of_mem_take hFirst)
  have hOk : (resolveRequest tangledRequest).isOk = true := by decide +kernel
  obtain ⟨drawing, hDraw⟩ := exists_draw_eq_ok hOk
  obtain ⟨hDefective, _, _, hDrawn⟩ := draw_fails_exactly_on_defects typed_tangledRequest
  obtain ⟨hSound, hFits⟩ : ¬ tangledRequest.Malformed ∧ ¬ tangledRequest.TooLarge := by
    rw [← not_or, ← hDefective, hDraw]
    rintro ⟨_, ⟨⟩⟩
  have hSmall : ¬ tangledRequest.HasLargeSpacing := fun hSetting => hFits (.setting hSetting)
  have hReported : flawed.Reports (.duplicateChild "A") := by
    refine .child hSmall ⟨tangledRequest.children, _, [], rfl, ?_, .duplicate rfl ⟨_, .head _, rfl⟩⟩
    by_contra hFlawed
    obtain ⟨e, hFirst⟩ := not_flawless_iff.mp hFlawed
    exact ((malformed_or_tooLarge_iff _).mpr ⟨e, .child hSmall hFirst⟩).elim hSound hFits
  have hTwice : (tangledRequest.children.take 1 ++ tangledRequest.children.take 1).Sublist
      flawed.children := (List.take_sublist 1 _).append (List.Sublist.refl _)
  obtain ⟨_, hReports, _⟩ := draw_fails_exactly_on_defects hFlawedTyped
  have hAlike : DividesAlike fun a b : Rat => if b = 0 then 1 else a / b := by
    intro a n
    refine if_neg ?_
    change ¬ (((n + 1 : Nat) : Int) : Rat) = ((0 : Int) : Rat)
    rw [Rat.intCast_inj]
    exact Int.natCast_ne_zero.mpr n.succ_ne_zero
  obtain ⟨r, drawing, hRead, hDraw, hAcyclic, hComplete, hDivides⟩ := hDrawn hSound hFits
  exact ⟨hFlawedTyped, .duplicate hTwice rfl rfl, hReported, (hReports _).mpr hReported,
    typed_tangledRequest, hSound, hFits, r, drawing, hRead, hDraw, hAcyclic, hComplete,
    hDivides _ hAlike⟩

/-- A well-formed request of one child is not drawn if it asks for a room between boxes of 401
digits: the number is reported, and not replaced by the default. -/
theorem large_spacing_is_not_ignored :
    let child : Child Float Unit :=
      ⟨some "A", none, none, some (.whole 100), some (.whole 40), [], ()⟩
    let request : Request Float Unit :=
      ⟨[("elk.spacing.nodeNode", .number (.whole (Nat.pow 10 400)))], [child], []⟩
    (∀ c ∈ request.children, c.Typed) ∧ ¬ request.Malformed ∧
      draw request = .error .numberTooLarge := by
  intro child request
  have hLarge : (readSpacing request.settings : Except Error (Spacing Float)) =
      .error .numberTooLarge := by decide +kernel
  refine ⟨?_, ?_, draw_eq_error_iff.mpr (bind_eq_error_iff.mpr (.inl hLarge))⟩
  · rw [List.forall_mem_singleton]
    exact ⟨fun s => by simp [child], List.forall_mem_nil _⟩
  · rintro (⟨hChild, hNone⟩ | ⟨hPair, _, _⟩ | ⟨⟨⟩, _⟩ | ⟨⟨⟩, _, _⟩)
    · rw [List.mem_singleton.mp hChild] at hNone
      cases hNone
    · exact absurd hPair.length_le (Nat.not_succ_le_self 1)

end TypeDiagram.Layout
