import TypeDiagram.CommandLine.Run
import TypeDiagram.Proofs.Layout.Box
import TypeDiagram.Proofs.Sequence

/-! # Pins as they are written

A pin is cut at the first `=`, and what stands behind that at the first `,`, so its text names one
node and one position. Of all pins of a node the last one counts.
-/

namespace TypeDiagram.CommandLine

open Layout Number

/-- The text pins the node with the given id at the position: the id is not empty and ends at the
first `=`, and behind that stand the texts of two numbers with the first `,` between. -/
def Pins (text id : String) (position : Position Float) : Prop :=
  ∃ x y : String, ∃ a b : Numeral, text = id ++ "=" ++ x ++ "," ++ y ∧ id ≠ "" ∧
    '=' ∉ id.toList ∧ ',' ∉ x.toList ∧ Numeral.read? x = some a ∧ Numeral.read? y = some b ∧
    position = ⟨a.toFloat, b.toFloat⟩

def LastPins (texts : List String) (id : String) (position : Position Float) : Prop :=
  ∃ before text after, texts = before ++ text :: after ∧ Pins text id position ∧
    ∀ later ∈ after, ∀ other, ¬ Pins later id other

theorem readPin_of_cut {text : String} {coordinates y : List Char}
    (hMark : Text.after? '=' text.toList = some coordinates)
    (hComma : Text.after? ',' coordinates = some y) {pin : String × Position Float} :
    readPin text = .ok pin ↔ Text.before '=' text.toList ≠ [] ∧ ∃ a b,
      Numeral.read? (String.ofList (Text.before ',' coordinates)) = some a ∧
      Numeral.read? (String.ofList y) = some b ∧
      pin = (String.ofList (Text.before '=' text.toList), ⟨a.toFloat, b.toFloat⟩) := by
  by_cases hId : Text.before '=' text.toList = []
  · simp [readPin, hMark, hComma, hId]
  · cases hx : Numeral.read? (String.ofList (Text.before ',' coordinates)) with
    | none => simp [readPin, hMark, hComma, hId, hx]
    | some a =>
      cases hy : Numeral.read? (String.ofList y) with
      | none => simp [readPin, hMark, hComma, hId, hx, hy]
      | some b =>
        have hRead : readPin text =
            .ok (String.ofList (Text.before '=' text.toList), ⟨a.toFloat, b.toFloat⟩) := by
          simp [readPin, hMark, hComma, hId, hx, hy]
        rw [hRead, Except.ok.injEq, eq_comm]
        simp [hId]

theorem readPin_eq_ok_iff {text id : String} {position : Position Float} :
    readPin text = .ok (id, position) ↔ Pins text id position := by
  constructor
  · intro h
    cases hMark : Text.after? '=' text.toList with
    | none => simp [readPin, hMark] at h
    | some coordinates =>
      cases hComma : Text.after? ',' coordinates with
      | none => simp [readPin, hMark, hComma] at h
      | some last =>
        obtain ⟨hId, a, b, ha, hb, hPin⟩ := (readPin_of_cut hMark hComma).mp h
        cases hPin
        obtain ⟨hNoMark, hText⟩ := Text.cut_eq_iff.mp ⟨rfl, hMark⟩
        obtain ⟨hNoComma, hCoordinates⟩ := Text.cut_eq_iff.mp ⟨rfl, hComma⟩
        have hParts := hText.trans (congrArg (_ ++ '=' :: ·) hCoordinates)
        refine ⟨_, _, a, b, ?_, ?_, ?_, ?_, ha, hb, rfl⟩
        · exact String.toList_injective (by simpa using hParts)
        · simpa using hId
        · simpa using hNoMark
        · simpa using hNoComma
  · rintro ⟨x, y, a, b, rfl, hId, hNoMark, hNoComma, ha, hb, rfl⟩
    have hText : (id ++ "=" ++ x ++ "," ++ y).toList =
        id.toList ++ '=' :: (x.toList ++ ',' :: y.toList) := by simp
    obtain ⟨hFront, hCoordinates⟩ := Text.cut_eq_iff.mpr ⟨hNoMark, hText⟩
    obtain ⟨hx, hy⟩ := Text.cut_eq_iff.mpr ⟨hNoComma, rfl⟩
    rw [readPin_of_cut hCoordinates hy, hFront, hx]
    simp only [String.ofList_toList]
    exact ⟨by simpa using hId, a, b, ha, hb, rfl⟩

/-- A text that is read as a pin pins the node that it was read for, and no other. -/
theorem pins_iff_of_readPin {text : String} {pin : String × Position Float}
    (h : readPin text = .ok pin) {id : String} {position : Position Float} :
    Pins text id position ↔ pin = (id, position) := by
  rw [← readPin_eq_ok_iff, h, Except.ok.injEq]

/-! ## Several pins -/

theorem exists_mapM_eq_ok {β γ ε : Type} {read : β → Except ε γ} {xs : List β}
    (h : ∀ x ∈ xs, ∃ y, read x = .ok y) : ∃ ys, xs.mapM read = .ok ys := by
  induction xs with
  | nil => exact ⟨[], rfl⟩
  | cons x xs ih =>
    obtain ⟨⟨y, hy⟩, hRest⟩ := List.forall_mem_cons.mp h
    obtain ⟨ys, hys⟩ := ih hRest
    exact ⟨y :: ys, by rw [List.mapM_cons, hy, hys]; rfl⟩

variable {texts : List String} {pins : List (String × Position Float)}

theorem declared_iff_of_mapM (h : texts.mapM readPin = .ok pins) (declared : List String) :
    (∀ text ∈ texts, ∃ id ∈ declared, ∃ position, Pins text id position) ↔
      ∀ pin ∈ pins, pin.1 ∈ declared := by
  induction forall₂_of_mapM_eq_ok h with
  | nil => simp
  | @cons text pin texts pins hFirst hRest ih =>
    rw [List.forall_mem_cons, List.forall_mem_cons, ih (mapM_eq_ok_of_forall₂ hRest)]
    refine and_congr_left' ?_
    simp only [pins_iff_of_readPin hFirst]
    constructor
    · rintro ⟨id, hId, position, rfl⟩
      exact hId
    · exact fun hId => ⟨pin.1, hId, pin.2, rfl⟩

/-- Texts can all be read as pins of declared nodes if each of them pins such a node. -/
theorem forall_pins_iff (texts declared : List String) :
    (∀ text ∈ texts, ∃ id ∈ declared, ∃ position, Pins text id position) ↔
      ∃ pins, texts.mapM readPin = .ok pins ∧ ∀ pin ∈ pins, pin.1 ∈ declared := by
  constructor
  · intro h
    obtain ⟨pins, hPins⟩ : ∃ pins, texts.mapM readPin = .ok pins := by
      refine exists_mapM_eq_ok fun text hText => ?_
      obtain ⟨id, _, position, hPin⟩ := h text hText
      exact ⟨(id, position), readPin_eq_ok_iff.mpr hPin⟩
    exact ⟨pins, hPins, (declared_iff_of_mapM hPins declared).mp h⟩
  · rintro ⟨pins, hPins, hDeclared⟩
    exact (declared_iff_of_mapM hPins declared).mpr hDeclared

theorem lastPins_concat_iff {text id : String} {position : Position Float} :
    LastPins (texts ++ [text]) id position ↔
      Pins text id position ∨ (∀ other, ¬ Pins text id other) ∧ LastPins texts id position := by
  constructor
  · rintro ⟨before, pinning, after, hTexts, hPins, hLast⟩
    rcases concat_eq_append_cons_iff.mp hTexts with ⟨_, rfl, _⟩ | ⟨rest, hEarlier, rfl⟩
    · exact .inl hPins
    · exact .inr ⟨hLast text (by simp), before, pinning, rest, hEarlier, hPins,
        fun later hLater => hLast later (List.mem_append_left _ hLater)⟩
  · rintro (hPins | ⟨hNone, before, pinning, after, rfl, hPins, hLast⟩)
    · exact ⟨texts, text, [], rfl, hPins, nofun⟩
    · refine ⟨before, pinning, after ++ [text], by simp, hPins, fun later hLater => ?_⟩
      rcases List.mem_append.mp hLater with hLater | hLater
      · exact hLast later hLater
      · exact List.mem_singleton.mp hLater ▸ hNone

theorem get?_ofList_eq_some_iff (h : texts.mapM readPin = .ok pins) {id : String}
    {position : Position Float} :
    (OrderedMap.ofList pins).get? id = some position ↔ LastPins texts id position := by
  induction texts using List.reverseRecOn generalizing pins with
  | nil =>
    cases h
    exact ⟨nofun, fun ⟨_, _, _, hNil, _⟩ => absurd hNil (by simp)⟩
  | append_singleton texts text ih =>
    rw [List.mapM_append] at h
    obtain ⟨earlier, hEarlier, h⟩ := bind_eq_ok_iff.mp h
    rw [List.mapM_cons, List.mapM_nil] at h
    obtain ⟨_, hLast, h⟩ := bind_eq_ok_iff.mp h
    obtain ⟨pin, hPin, hLast⟩ := bind_eq_ok_iff.mp hLast
    cases hLast
    cases h
    rw [lastPins_concat_iff, ← ih hEarlier, OrderedMap.get?_ofList, OrderedMap.get?_ofList,
      List.reverse_append, List.reverse_singleton, List.singleton_append, List.find?_cons]
    simp only [pins_iff_of_readPin hPin]
    by_cases hId : pin.1 = id
    · subst hId
      simp [Prod.ext_iff]
    · simp [beq_eq_false_iff_ne.mpr hId, hId, Prod.ext_iff]

end TypeDiagram.CommandLine
