import TypeDiagram.Proofs.Layout.Ordering
import TypeDiagram.Proofs.Layout.Placement
import Mathlib.Algebra.Order.Field.Rat
import Mathlib.Tactic.Linarith

/-! # The boxes of a layer stand apart

A layer is stacked with a cursor that only moves forward, so what comes later starts behind all that
comes earlier, and its correction moves all starts by the same. Along the flow, the boxes stay
within the thickness of their layer. All this is about exact coordinates: rounding would spoil it.
-/

namespace TypeDiagram

namespace Coordinate

theorem nat_rat (n : Nat) : (nat n : Rat) = n := rfl

theorem less_rat_iff (a b : Rat) : less a b = true ↔ a < b := decide_eq_true_iff

theorem same_rat_iff (a b : Rat) : same a b = true ↔ a = b := beq_iff_eq

theorem le_max_rat (a b : Rat) : a ≤ Coordinate.max a b ∧ b ≤ Coordinate.max a b := by
  unfold Coordinate.max
  split
  · rename_i hLess
    exact ⟨((less_rat_iff a b).mp hLess).le, le_refl b⟩
  · rename_i hNotLess
    exact ⟨le_refl a, not_lt.mp (mt (less_rat_iff a b).mpr hNotLess)⟩

theorem le_maximum {as : List Rat} {a : Rat} (h : a ∈ as) (standard : Rat) :
    a ≤ (maximum? as).getD standard := by
  cases as with
  | nil => cases h
  | cons b as =>
    obtain ⟨hStart, hRest⟩ := Layout.le_foldl_of_le le_max_rat as b
    rcases List.mem_cons.mp h with rfl | hLater
    · exact hStart
    · exact hRest a hLater

theorem maximum_nonneg {as : List Rat} (h : ∀ a ∈ as, 0 ≤ a) : 0 ≤ (maximum? as).getD 0 := by
  cases as with
  | nil => exact le_refl 0
  | cons a as =>
    exact (h a List.mem_cons_self).trans (le_maximum List.mem_cons_self 0)

end Coordinate

namespace Layout

open Coordinate

/-! ## Along and across the flow -/

namespace Spacing

variable {α : Type} (s : Spacing α)

def front (p : Position α) : α := if s.horizontal then p.x else p.y

def flank (p : Position α) : α := if s.horizontal then p.y else p.x

def lengthOf (z : Size α) : α := if s.horizontal then z.width else z.height

def breadthOf (z : Size α) : α := if s.horizontal then z.height else z.width

@[simp]
theorem front_position (primary secondary : α) :
    s.front (s.position primary secondary) = primary := by
  unfold front position
  split <;> rfl

@[simp]
theorem flank_position (primary secondary : α) :
    s.flank (s.position primary secondary) = secondary := by
  unfold flank position
  split <;> rfl

@[simp]
theorem along_moved (b : Box α) (position : Position α) :
    s.along { b with position } = s.along b := rfl

@[simp]
theorem across_moved (b : Box α) (position : Position α) :
    s.across { b with position } = s.across b := rfl

end Spacing

/-! ## Stacking -/

/-- What is stacked starts at the cursor or behind it, and moves the cursor behind its slot. -/
theorem stack_cons (s : Spacing Rat) (cursor : Option Rat) (slot : Slot Rat)
    (slots : List (Slot Rat)) : ∃ start, (∀ c, cursor = some c → c ≤ start) ∧
      stack s cursor (slot :: slots) =
        start :: stack s (some (start + slot.extent + s.gapBehind slot.node)) slots := by
  refine ⟨_, ?_, rfl⟩
  rintro c rfl
  exact (le_max_rat _ c).2

theorem gapBehind_nonneg {s : Spacing Rat} (h : 0 ≤ s.nodeGap) (node : String) :
    0 ≤ s.gapBehind node := by
  unfold Spacing.gapBehind
  split
  · rw [nat_rat]
    exact div_nonneg h (Nat.cast_nonneg 2)
  · exact h

section Stacked

variable {s : Spacing Rat} (hGap : 0 ≤ s.nodeGap)

include hGap

theorem cursor_le_of_mem_stack {slots : List (Slot Rat)}
    (hExtent : ∀ slot ∈ slots, 0 ≤ slot.extent) {cursor start : Rat}
    (h : start ∈ stack s (some cursor) slots) : cursor ≤ start := by
  induction slots generalizing cursor with
  | nil => cases h
  | cons slot slots ih =>
    obtain ⟨first, hFirst, hStack⟩ := stack_cons s (some cursor) slot slots
    have hStart := hFirst cursor rfl
    rw [hStack, List.mem_cons] at h
    rcases h with rfl | hLater
    · exact hStart
    · have hNext := ih (fun slot hSlot => hExtent slot (List.mem_cons_of_mem _ hSlot)) hLater
      have hRoom := hExtent slot List.mem_cons_self
      have hBehind := gapBehind_nonneg hGap slot.node
      linarith

def Clear (s : Spacing Rat) (a b : Rat × Slot Rat) : Prop :=
  a.1 + a.2.extent + s.gapBehind a.2.node ≤ b.1

theorem stack_clear {slots : List (Slot Rat)} (hExtent : ∀ slot ∈ slots, 0 ≤ slot.extent)
    (cursor : Option Rat) : ((stack s cursor slots).zip slots).Pairwise (Clear s) := by
  induction slots generalizing cursor with
  | nil => exact .nil
  | cons slot slots ih =>
    have hLater : ∀ slot ∈ slots, 0 ≤ slot.extent :=
      fun slot hSlot => hExtent slot (List.mem_cons_of_mem _ hSlot)
    obtain ⟨start, _, hStack⟩ := stack_cons s cursor slot slots
    rw [hStack, List.zip_cons_cons]
    refine .cons ?_ (ih hLater _)
    rintro ⟨other, slot'⟩ hIn
    exact cursor_le_of_mem_stack hGap hLater (List.of_mem_zip hIn).1

end Stacked

theorem centred_eq (slots : List (Slot Rat)) (starts : List Rat) :
    ∃ d, centred slots starts = starts.map (· - d) := by
  unfold centred
  split
  · exact ⟨_, rfl⟩
  · exact ⟨0, by simp⟩

theorem centred_stack_clear {s : Spacing Rat} (hGap : 0 ≤ s.nodeGap) {slots : List (Slot Rat)}
    (hExtent : ∀ slot ∈ slots, 0 ≤ slot.extent) (cursor : Option Rat) :
    ((centred slots (stack s cursor slots)).zip slots).Pairwise (Clear s) := by
  obtain ⟨d, hCentred⟩ := centred_eq slots (stack s cursor slots)
  rw [hCentred, List.zip_map_left, List.pairwise_map]
  refine (stack_clear hGap hExtent cursor).imp fun {a b} hClear => ?_
  unfold Clear at hClear ⊢
  simp only [Prod.map_fst, Prod.map_snd, id]
  linarith

/-! ## One layer -/

def Boxes.Roomy (boxes : Boxes Rat) : Prop :=
  ∀ n b, boxes.get? n = some b → 0 ≤ b.size.width ∧ 0 ≤ b.size.height

theorem Boxes.Roomy.moved {old new : Boxes Rat} (h : old.Roomy) (hMoved : old.Moved new) :
    new.Roomy := by
  intro n b hb
  obtain ⟨position, hOld⟩ := hMoved.eq_some_of_eq_some hb
  exact h n { b with position } hOld

theorem Boxes.Roomy.nonneg {boxes : Boxes Rat} (h : boxes.Roomy) (s : Spacing Rat) {n : String}
    {b : Box Rat} (hb : boxes.get? n = some b) : 0 ≤ s.along b ∧ 0 ≤ s.across b := by
  unfold Spacing.along Spacing.across
  cases s.horizontal with
  | true => exact h n b hb
  | false => exact (h n b hb).symm

section Layer

variable {s : Spacing Rat} {g : Digraph Rat} {p : Progress Rat} {layer : List String}

theorem stacked_clear (hGap : 0 ≤ s.nodeGap) (hRoomy : p.boxes.Roomy) :
    (stacked s g p layer).Pairwise (Clear s) := by
  refine centred_stack_clear hGap (fun slot hSlot => ?_) none
  obtain ⟨n, _, rfl⟩ := List.mem_map.mp hSlot
  change 0 ≤ ((p.boxes.get? n).map s.across).getD (nat 0)
  cases hBox : p.boxes.get? n with
  | none => exact le_refl _
  | some b => exact (hRoomy.nonneg s hBox).2

theorem along_le_thickness (s : Spacing Rat) {n : String} (hn : n ∈ layer) {b : Box Rat}
    (hb : p.boxes.get? n = some b) : s.along b ≤ thickness s p.boxes layer :=
  le_maximum (List.mem_filterMap.mpr ⟨n, hn, by rw [hb]; rfl⟩) _

theorem thickness_nonneg (s : Spacing Rat) (hRoomy : p.boxes.Roomy) (layer : List String) :
    0 ≤ thickness s p.boxes layer := by
  refine maximum_nonneg fun a ha => ?_
  obtain ⟨n, _, hBox⟩ := List.mem_filterMap.mp ha
  obtain ⟨b, hb, rfl⟩ := Option.map_eq_some_iff.mp hBox
  exact (hRoomy.nonneg s hb).1

/-! ## Where the boxes of a layer stand -/

/-- A box ends, with the room behind it, before another one begins across the flow. -/
def Beside (s : Spacing Rat) (boxes : Boxes Rat) (m n : String) : Prop :=
  ∀ b c, boxes.get? m = some b → boxes.get? n = some c →
    s.flank b.position + s.across b + s.gapBehind m ≤ s.flank c.position

theorem placeLayer_beside (hGap : 0 ≤ s.nodeGap) (hRoomy : p.boxes.Roomy) (hNodup : layer.Nodup) :
    layer.Pairwise (Beside s (placeLayer s g p layer).boxes) := by
  refine pairwise_placeLayer hNodup ?_
  refine (stacked_clear hGap hRoomy).imp_of_mem fun {e f} he _ hClear b c hb _ => ?_
  unfold Clear at hClear
  rw [extent_of_mem_stacked he hb] at hClear
  simpa [Box.placed] using hClear

theorem placeLayer_within (hNodup : layer.Nodup) {n : String} (hn : n ∈ layer) {b : Box Rat}
    (hb : (placeLayer s g p layer).boxes.get? n = some b) :
    p.offset ≤ s.front b.position ∧
      s.front b.position + s.along b + s.layerGap ≤ (placeLayer s g p layer).offset := by
  obtain ⟨e, he, rfl⟩ : ∃ e ∈ stacked s g p layer, e.2.node = n := by
    rwa [← List.mem_map, map_node_stacked]
  rw [get?_placeLayer_of_mem hNodup he, Option.map_eq_some_iff] at hb
  obtain ⟨old, hOld, rfl⟩ := hb
  have hThick := along_le_thickness s hn hOld
  rw [placeLayer_eq]
  simp only [Box.placed, Spacing.front_position, Spacing.along_moved, nat_rat]
  constructor <;> push_cast <;> linarith

theorem placeLayer_offset (hRoomy : p.boxes.Roomy) (hLayerGap : 0 ≤ s.layerGap) :
    p.offset ≤ (placeLayer s g p layer).offset := by
  have hThick := thickness_nonneg s hRoomy layer
  rw [placeLayer_eq]
  dsimp only
  linarith

end Layer

end Layout

end TypeDiagram
