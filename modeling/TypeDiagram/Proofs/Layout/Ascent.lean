import TypeDiagram.Proofs.Layout.Stack
import TypeDiagram.Proofs.Number.Monotone

/-! # A layer is placed in its order

Rounded sums may leave no room between two boxes of a layer, or make their places no numbers at all.
Yet no box is placed before one that precedes it in its layer: the cursor never goes back from where
it has been, and whatever moves a layer moves all of it in the same way.
-/

namespace TypeDiagram.Layout

open Coordinate

variable {α : Type} [Coordinate α]

def Boxes.Sized (boxes : Boxes α) : Prop :=
  ∀ n b, boxes.get? n = some b → Nonneg b.size.width ∧ Nonneg b.size.height

theorem Boxes.Sized.moved {old new : Boxes α} (h : old.Sized) (hMoved : old.Moved new) :
    new.Sized := by
  intro n b hb
  obtain ⟨position, hOld⟩ := hMoved.eq_some_of_eq_some hb
  exact h n { b with position } hOld

theorem Boxes.Sized.across {boxes : Boxes α} (h : boxes.Sized) (s : Spacing α) {n : String}
    {b : Box α} (hb : boxes.get? n = some b) : Nonneg (s.across b) := by
  unfold Spacing.across
  split
  · exact (h n b hb).2
  · exact (h n b hb).1

variable [Monotone α]

theorem nonneg_gapBehind {s : Spacing α} (h : Nonneg s.nodeGap) (node : String) :
    Nonneg (s.gapBehind node) := by
  unfold Spacing.gapBehind
  split
  · exact nonneg_half h
  · exact h

/-! ## Drifting -/

theorem isNumber_of_drift? {slots : List (Slot α)} {starts : List α} {d : α}
    (hDrift : drift? slots starts = some d) (hNumber : IsNumber d) :
    ∀ e ∈ starts.zip slots, e.2.desired.isSome → IsNumber e.1 := by
  unfold drift? at hDrift
  dsimp only at hDrift
  split at hDrift
  · cases hDrift
  · cases hDrift
    intro e he hDesired
    obtain ⟨centre, hCentre⟩ := Option.isSome_iff_exists.mp hDesired
    have hOffset : IsNumber (e.1 + e.2.extent / nat 2 - centre) :=
      isNumber_of_mean hNumber (List.mem_filterMap.mpr ⟨e, he, by rw [hCentre]; rfl⟩)
    exact (isNumber_of_add (isNumber_of_sub hOffset).1).1

omit [Monotone α] in
theorem desired_of_drift?_eq_none {slots : List (Slot α)} {starts : List α}
    (hDrift : drift? slots starts = none) : ∀ e ∈ starts.zip slots, e.2.desired = none := by
  unfold drift? at hDrift
  dsimp only at hDrift
  split at hDrift
  · rename_i hEmpty
    rw [List.isEmpty_iff, List.filterMap_eq_nil_iff] at hEmpty
    exact fun e he => Option.map_eq_none_iff.mp (hEmpty e he)
  · cases hDrift

/-! ## Stacking -/

section Stacked

variable {s : Spacing α} (hGap : Nonneg s.nodeGap) {slots : List (Slot α)}
  (hExtent : ∀ slot ∈ slots, Nonneg slot.extent)

include hGap hExtent

/-- A cursor that is a number is never passed backwards. Slots that are drawn to a centre have to
start at numbers, for their wishes go before the cursor. -/
theorem behind_of_mem_stack {floor a cursor : α} (hCursor : Behind floor a cursor)
    (hDrawn : ∀ e ∈ (stack s (some cursor) slots).zip slots, e.2.desired.isSome → IsNumber e.1) :
    ∀ start ∈ stack s (some cursor) slots, Behind floor a start := by
  induction slots generalizing cursor with
  | nil => exact fun start hStart => absurd hStart List.not_mem_nil
  | cons slot slots ih =>
    obtain ⟨start, hHead, hStack⟩ : ∃ start, Behind floor a start ∧
        stack s (some cursor) (slot :: slots) =
          start :: stack s (some (start + slot.extent + s.gapBehind slot.node)) slots := by
      refine ⟨_, hCursor.max ?_, rfl⟩
      have hNumber := hDrawn _ List.mem_cons_self
      cases hDesired : slot.desired with
      | some centre => simpa [stack, hDesired] using hNumber
      | none =>
        have hWish := isNumber_max hCursor.isNumber nonneg_zero.number
        exact isNumber_max hWish hCursor.isNumber
    rw [hStack] at hDrawn ⊢
    rw [List.zip_cons_cons] at hDrawn
    have hBehind := nonneg_gapBehind hGap slot.node
    have hNext := (hHead.add (hExtent slot List.mem_cons_self)).add hBehind
    have hRest := ih (fun slot hSlot => hExtent slot (List.mem_cons_of_mem _ hSlot)) hNext
      fun e he => hDrawn e (List.mem_cons_of_mem _ he)
    intro other hOther
    rcases List.mem_cons.mp hOther with rfl | hLater
    · exact hHead
    · exact hRest other hLater

theorem stack_ascends {cursor : Option α}
    (hDrawn : ∀ e ∈ (stack s cursor slots).zip slots, e.2.desired.isSome → IsNumber e.1) :
    (stack s cursor slots).Pairwise fun a b => less b a = false := by
  induction slots generalizing cursor with
  | nil => exact .nil
  | cons slot slots ih =>
    obtain ⟨start, hStack⟩ : ∃ start, stack s cursor (slot :: slots) =
        start :: stack s (some (start + slot.extent + s.gapBehind slot.node)) slots := ⟨_, rfl⟩
    rw [hStack] at hDrawn ⊢
    rw [List.zip_cons_cons] at hDrawn
    have hLaterExtent : ∀ slot ∈ slots, Nonneg slot.extent :=
      fun slot hSlot => hExtent slot (List.mem_cons_of_mem _ hSlot)
    have hLaterDrawn := fun e he => hDrawn e (List.mem_cons_of_mem (start, slot) he)
    refine .cons (fun other hOther => ?_) (ih hLaterExtent hLaterDrawn)
    by_contra hLess
    rw [Bool.not_eq_false] at hLess
    -- The later start shows that the first one is not the lowest value there is.
    have hCursor := ((Behind.refl hLess).add (hExtent slot List.mem_cons_self)).add
      (nonneg_gapBehind hGap slot.node)
    have hBehind := behind_of_mem_stack hGap hLaterExtent hCursor hLaterDrawn other hOther
    rw [hBehind.not_less] at hLess
    cases hLess

/-- Moving a layer by how far it drifts keeps its order; a drift that is no number leaves no numbers
to be out of order. -/
theorem centred_stack_ascends (cursor : Option α) :
    (centred slots (stack s cursor slots)).Pairwise fun a b => less b a = false := by
  unfold centred
  split
  · rename_i d hDrift
    rw [List.pairwise_map]
    by_cases hNumber : IsNumber d
    · have hAscends := stack_ascends hGap hExtent (isNumber_of_drift? hDrift hNumber)
      refine hAscends.imp fun {a b} hLess => ?_
      rw [← Bool.not_eq_true] at hLess ⊢
      exact mt less_of_sub hLess
    · refine List.pairwise_of_forall fun a b => ?_
      rw [← Bool.not_eq_true]
      intro hLess
      exact hNumber (isNumber_of_sub (isNumber_of_less hLess).1).2
  · rename_i hDrift
    refine stack_ascends hGap hExtent fun e he hDesired => ?_
    rw [desired_of_drift?_eq_none hDrift e he] at hDesired
    cases hDesired

end Stacked

/-! ## Layers -/

def Ascends (s : Spacing α) (boxes : Boxes α) (layer : List String) : Prop :=
  layer.Pairwise fun m n => ∀ b c, boxes.get? m = some b → boxes.get? n = some c →
    less (s.flank c.position) (s.flank b.position) = false

omit [Monotone α] in
theorem Ascends.congr {s : Spacing α} {old new : Boxes α} {layer : List String}
    (h : Ascends s old layer) (hSame : ∀ n ∈ layer, new.get? n = old.get? n) :
    Ascends s new layer := by
  refine h.imp_of_mem fun {m n} hm hn hLess b c hb hc => ?_
  rw [hSame m hm] at hb
  rw [hSame n hn] at hc
  exact hLess b c hb hc

variable {s : Spacing α} (hGap : Nonneg s.nodeGap)

include hGap

theorem placeLayer_ascends (g : Digraph α) {p : Progress α} (hSized : p.boxes.Sized)
    {layer : List String} (hNodup : layer.Nodup) :
    Ascends s (placeLayer s g p layer).boxes layer := by
  have hExtent : ∀ slot ∈ layer.map (slotOf s g p), Nonneg slot.extent := by
    intro slot hSlot
    obtain ⟨n, _, rfl⟩ := List.mem_map.mp hSlot
    change Nonneg (((p.boxes.get? n).map s.across).getD (nat 0))
    cases hBox : p.boxes.get? n with
    | none => exact nonneg_zero
    | some b => exact hSized.across s hBox
  have hStarts : (stacked s g p layer).Pairwise fun e f => less f.1 e.1 = false := by
    have hAscends := centred_stack_ascends hGap hExtent none
    rwa [← map_fst_stacked, List.pairwise_map] at hAscends
  refine pairwise_placeLayer hNodup (hStarts.imp fun {e f} hLess b c _ _ => ?_)
  simpa [Box.placed] using hLess

theorem foldl_placeLayer_ascends (g : Digraph α) {ordering : Ordering}
    (hNodup : ordering.flatten.Nodup) {p : Progress α} (hSized : p.boxes.Sized) :
    ∀ layer ∈ ordering, Ascends s (ordering.foldl (placeLayer s g) p).boxes layer := by
  induction ordering generalizing p with
  | nil => exact fun layer hLayer => absurd hLayer List.not_mem_nil
  | cons first ordering ih =>
    rw [List.flatten_cons, List.nodup_append] at hNodup
    obtain ⟨hFirst, hRest, hApart⟩ := hNodup
    intro layer hLayer
    rw [List.foldl_cons]
    rcases List.mem_cons.mp hLayer with rfl | hLater
    · -- No later layer holds a node of this one, so its boxes stay where they are.
      refine (placeLayer_ascends hGap g hSized hFirst).congr fun n hn => ?_
      refine get?_foldl_placeLayer_of_not_mem fun hIn => ?_
      exact hApart n hn n hIn rfl
    · exact ih hRest (hSized.moved (placeLayer_moved s g p first)) layer hLater

omit hGap

theorem normalise_ascends {boxes : Boxes α} {layer : List String} (h : Ascends s boxes layer) :
    Ascends s (normalise boxes) layer := by
  unfold normalise
  split
  · refine h.imp fun {m n} hLess b c hb hc => ?_
    rw [OrderedMap.get?_mapValues, Option.map_eq_some_iff] at hb hc
    obtain ⟨b, hb, rfl⟩ := hb
    obtain ⟨c, hc, rfl⟩ := hc
    have hLess := hLess b c hb hc
    rw [← Bool.not_eq_true] at hLess ⊢
    unfold Spacing.flank at hLess ⊢
    split at hLess
    · rename_i hHorizontal
      rw [if_pos hHorizontal, if_pos hHorizontal]
      exact mt less_of_add hLess
    · rename_i hVertical
      rw [if_neg hVertical, if_neg hVertical]
      exact mt less_of_add hLess
  · exact h

include hGap in
theorem arranged_ascends {l : Layered α} (hSized : l.boxes.Sized) {ordering : Ordering}
    (hNodup : ordering.flatten.Nodup) :
    ∀ layer ∈ ordering, Ascends s (arranged s l ordering) layer :=
  fun layer hLayer => normalise_ascends
    (foldl_placeLayer_ascends hGap l.graph hNodup hSized layer hLayer)

end TypeDiagram.Layout
