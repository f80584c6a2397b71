import TypeDiagram.Diagram.Arrangement
import TypeDiagram.Layout.Drawing
import TypeDiagram.Proofs.Number.SixDigits

/-! # Configured room and the room that is laid out

The room between layers and between nodes goes into a request as text with six significant digits.
The layout reads back the number nearest to these digits, so a number that needs more digits is
changed on the way.
-/

namespace TypeDiagram

open Layout

/-- The numbers that the layout reads from a request, under the names that they are written with. -/
def LayoutOptions.spacings (o : LayoutOptions) : List (String × Float) := [
  ("elk.layered.spacing.nodeNodeBetweenLayers", o.nodeNodeBetweenLayers),
  ("elk.layered.spacing.edgeNodeBetweenLayers", o.edgeNodeBetweenLayers),
  ("elk.spacing.nodeNode", o.nodeNode)]

namespace Diagram

variable {o : LayoutOptions}

theorem settings_of_no_extra (hExtra : o.extra = []) (direction : Direction) :
    o.settings direction =
      (o.ownSettings direction).map fun option => (option.1, .string option.2) := by
  rw [LayoutOptions.settings, hExtra, List.foldl_nil]

theorem lookup_spacing (hExtra : o.extra = []) (direction : Direction) {key : String} {x : Float}
    (h : (key, x) ∈ o.spacings) :
    (o.settings direction).lookup key = some (.string (Number.general x)) := by
  rw [settings_of_no_extra hExtra]
  simp only [LayoutOptions.spacings, List.mem_cons, List.not_mem_nil, or_false,
    Prod.mk.injEq] at h
  rcases h with ⟨rfl, rfl⟩ | ⟨rfl, rfl⟩ | ⟨rfl, rfl⟩ <;> rfl

theorem isHorizontal_settings (hExtra : o.extra = []) (direction : Direction) :
    isHorizontal (o.settings direction) = (direction == .horizontal) := by
  rw [settings_of_no_extra hExtra]
  cases direction <;> rfl

theorem readSetting_spacing (hExtra : o.extra = []) (direction : Direction) {key : String}
    {x : Float} (h : (key, x) ∈ o.spacings) (hx : Number.IsFinite x) (standard : Float) :
    readSetting (o.settings direction) key standard = .ok (Number.toSixDigits x) := by
  obtain ⟨n, hRead, hNumber⟩ := Number.toFloat_of_general hx
  rw [readSetting, lookup_spacing hExtra direction h]
  dsimp only
  rw [Option.bind_some, numeralOf?, hRead, Option.bind_some]
  exact congrArg Except.ok hNumber

/-- From the request for a diagram, the layout reads the configured numbers rounded to six digits,
and leaves the room that they say. So it reads exactly what is configured if and only if this is the
nearest number to some decimal of six digits. -/
theorem spacings_keep_six_digits (hExtra : o.extra = [])
    (hFinite : ∀ entry ∈ o.spacings, Number.IsFinite entry.2) (nodes : List (Node Float))
    (edges : List Edge) (direction : Direction) (pinned : List String) :
    let settings := (requestFor o nodes edges direction pinned).settings
    (∀ key x, (key, x) ∈ o.spacings → ∀ standard,
      readSetting settings key standard = .ok (Number.toSixDigits x) ∧
        (Number.toSixDigits x = x ↔ Number.HasSixDigits x)) ∧
    readSpacing settings = .ok ⟨direction == .horizontal,
      Number.toSixDigits o.nodeNodeBetweenLayers + Number.toSixDigits o.edgeNodeBetweenLayers,
      Number.toSixDigits o.nodeNode⟩ := by
  intro settings
  have hRead (key : String) (x : Float) (h : (key, x) ∈ o.spacings) (standard : Float) :
      readSetting settings key standard = .ok (Number.toSixDigits x) :=
    readSetting_spacing hExtra direction h (hFinite _ h) standard
  refine ⟨fun key x h standard =>
    ⟨hRead key x h standard, Number.toSixDigits_eq_iff (hFinite _ h)⟩, ?_⟩
  unfold readSpacing
  rw [show isHorizontal settings = _ from isHorizontal_settings hExtra direction,
    hRead _ _ (.head _), hRead _ _ (.tail _ (.head _)), hRead _ _ (.tail _ (.tail _ (.head _)))]
  rfl

theorem isFinite_thirty : Number.IsFinite 30 := ⟨false, 15 * 2 ^ 49, -48, by decide +kernel⟩

/-- With the usual options, layers are 60 apart and nodes 50. -/
theorem standard_spacings_are_kept :
    let o := LayoutOptions.standard
    (∀ entry ∈ o.spacings, Number.IsFinite entry.2) ∧ o.extra = [] ∧
      (∀ entry ∈ o.spacings, Number.HasSixDigits entry.2) ∧
      readSpacing (requestFor o ([] : List (Node Float)) [] .vertical []).settings =
        .ok ⟨false, (30 : Float) + 30, 50⟩ := by
  intro o
  have hFifty : Number.IsFinite 50 := ⟨false, 25 * 2 ^ 48, -47, by decide +kernel⟩
  have hDigits : Number.HasSixDigits 30 := ⟨false, 30, 0, by decide, by decide +kernel⟩
  have hDigits' : Number.HasSixDigits 50 := ⟨false, 50, 0, by decide, by decide +kernel⟩
  have hFinite : ∀ entry ∈ o.spacings, Number.IsFinite entry.2 :=
    List.forall_mem_cons.mpr ⟨isFinite_thirty, List.forall_mem_cons.mpr
      ⟨isFinite_thirty, List.forall_mem_singleton.mpr hFifty⟩⟩
  obtain ⟨hRead, hSpacing⟩ := spacings_keep_six_digits (o := o) rfl hFinite [] [] .vertical []
  have hSame : Number.toSixDigits 30 = 30 := (hRead _ 30 (.head _) 0).2.mpr hDigits
  have hSame' : Number.toSixDigits 50 = 50 :=
    (hRead _ 50 (.tail _ (.tail _ (.head _))) 0).2.mpr hDigits'
  refine ⟨hFinite, rfl, ?_, hSpacing.trans ?_⟩
  · exact List.forall_mem_cons.mpr ⟨hDigits, List.forall_mem_cons.mpr
      ⟨hDigits, List.forall_mem_singleton.mpr hDigits'⟩⟩
  · change Except.ok (⟨_, Number.toSixDigits 30 + Number.toSixDigits 30, Number.toSixDigits 50⟩ :
      Spacing Float) = _
    rw [hSame, hSame']
    rfl

/-- Of seven digits of room between nodes, the last one is lost. -/
theorem seventh_digit_is_lost :
    let o := { LayoutOptions.standard with nodeNode := 1234567 }
    (∀ entry ∈ o.spacings, Number.IsFinite entry.2) ∧ o.extra = [] ∧
      (readSpacing (requestFor o ([] : List (Node Float)) [] .horizontal []).settings).map
        Spacing.nodeGap = .ok (1234570 : Float) ∧ (1234570 : Float) ≠ 1234567 := by
  intro o
  have hFinite : Number.IsFinite 1234567 := ⟨false, 1234567 * 2 ^ 32, -32, by decide +kernel⟩
  exact ⟨List.forall_mem_cons.mpr ⟨isFinite_thirty, List.forall_mem_cons.mpr
    ⟨isFinite_thirty, List.forall_mem_singleton.mpr hFinite⟩⟩, rfl, by decide +kernel,
    by decide +kernel⟩

end Diagram

end TypeDiagram
