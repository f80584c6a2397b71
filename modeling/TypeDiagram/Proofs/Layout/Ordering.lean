import TypeDiagram.Layout.Ordering
import TypeDiagram.Proofs.OrderedMap
import Mathlib.Data.List.Forall2
import Mathlib.Order.Nat
import Mathlib.Data.List.Perm.Basic

/-! # The order within a layer changes, not what is in it

Sweeps and the settling of seeded nodes permute each layer, so in the end each layer holds what the
layering put there.
-/

namespace TypeDiagram.Layout

theorem le_foldl_of_le {β : Type} [Preorder β] {greater : β → β → β}
    (h : ∀ a b, a ≤ greater a b ∧ b ≤ greater a b) (as : List β) (a : β) :
    a ≤ as.foldl greater a ∧ ∀ b ∈ as, b ≤ as.foldl greater a := by
  induction as generalizing a with
  | nil => exact ⟨le_refl a, fun _ hb => absurd hb List.not_mem_nil⟩
  | cons c as ih =>
    obtain ⟨hStart, hRest⟩ := ih (greater a c)
    refine ⟨(h a c).1.trans hStart, fun b hb => ?_⟩
    rcases List.mem_cons.mp hb with rfl | hLater
    · exact (h a b).2.trans hStart
    · exact hRest b hLater

variable {α : Type} [Coordinate α]

theorem sortByKey_perm {β : Type} (key : β → α) (xs : List β) : (sortByKey key xs).Perm xs := by
  have hSorted := (List.mergeSort_perm (xs.map fun x => (key x, x))
    fun a b => !Coordinate.less b.1 a.1).map (·.2)
  rw [List.map_map] at hSorted
  exact hSorted.trans (.of_eq (List.map_id xs))

namespace Ordering

abbrev SameLayers (o o' : Ordering) : Prop := List.Forall₂ List.Perm o o'

theorem SameLayers.refl (o : Ordering) : SameLayers o o :=
  List.forall₂_same.mpr fun layer _ => .refl layer

theorem SameLayers.trans {first second third : Ordering} (h : SameLayers first second)
    (h' : SameLayers second third) : SameLayers first third := by
  induction h generalizing third with
  | nil => exact h'
  | cons hLayer _ ih =>
    cases h' with
    | cons hLayer' hRest' => exact .cons (hLayer.trans hLayer') (ih hRest')

theorem sweepDown_sameLayers (g : Digraph α) (above : List String) (o : Ordering) :
    SameLayers (sweepDown g above o) o := by
  induction o generalizing above with
  | nil => exact .nil
  | cons layer rest ih => exact .cons (sortByKey_perm _ layer) (ih _)

theorem sweepUp_sameLayers (g : Digraph α) (o : Ordering) : SameLayers (sweepUp g o) o := by
  induction o with
  | nil => exact .nil
  | cons layer rest ih =>
    unfold sweepUp
    split
    · rename_i hNone
      rw [hNone] at ih
      exact .cons (.refl layer) ih
    · rename_i hSome
      rw [hSome] at ih
      exact .cons (sortByKey_perm _ layer) ih

theorem sweep_sameLayers (g : Digraph α) (o : Ordering) : SameLayers (sweep g o) o := by
  cases o with
  | nil => exact .nil
  | cons first rest =>
    exact (sweepUp_sameLayers g _).trans (.cons (.refl first) (sweepDown_sameLayers g first rest))

theorem improve_sameLayers (g : Digraph α) (fuel : Nat) (o : Ordering) :
    SameLayers (improve g fuel o) o := by
  induction fuel generalizing o with
  | zero => exact .refl o
  | succ fuel ih =>
    rw [improve]
    split
    · exact (ih _).trans (sweep_sameLayers g o)
    · exact .refl o

/-- A layer with as many places for seeded nodes as there are such nodes takes them all up. -/
theorem fillSlots_perm_append (isSeeded : String → Bool) {layer seeded : List String}
    (h : seeded.length = (layer.filter isSeeded).length) :
    (fillSlots isSeeded layer seeded).Perm (seeded ++ layer.filter fun n => !isSeeded n) := by
  -- What fills the places need not come from this part of the layer, so it is counted apart.
  induction layer generalizing seeded with
  | nil =>
    rw [List.eq_nil_of_length_eq_zero h]
    exact .nil
  | cons n layer ih =>
    by_cases hSeeded : isSeeded n = true
    · rw [List.filter_cons_of_pos hSeeded] at h
      cases seeded with
      | nil => cases h
      | cons s seeded =>
        rw [fillSlots, if_pos hSeeded, List.filter_cons_of_neg (by simp [hSeeded])]
        exact (ih (Nat.succ.inj h)).cons s
    · rw [List.filter_cons_of_neg hSeeded] at h
      rw [fillSlots.eq_def, List.filter_cons_of_pos (by simpa using hSeeded)]
      simp only [hSeeded]
      exact ((ih h).cons n).trans List.perm_middle.symm

theorem fillSlots_perm (isSeeded : String → Bool) {layer seeded : List String}
    (h : seeded.Perm (layer.filter isSeeded)) : (fillSlots isSeeded layer seeded).Perm layer :=
  (fillSlots_perm_append isSeeded h.length_eq).trans
    ((h.append_right _).trans (List.filter_append_perm isSeeded layer))

theorem settleSeeds_perm (boxes : Boxes α) (horizontal : Bool) (layer : List String) :
    (settleSeeds boxes horizontal layer).Perm layer :=
  fillSlots_perm _ (sortByKey_perm _ _)

theorem of_sameLayers (l : Layered α) (horizontal : Bool) :
    SameLayers (Ordering.of l horizontal) (initial l) := by
  refine SameLayers.trans ?_ (improve_sameLayers l.graph sweepLimit (initial l))
  unfold Ordering.of unsettled
  exact List.forall₂_map_left_iff.mpr
    (List.forall₂_same.mpr fun layer _ => settleSeeds_perm l.boxes horizontal layer)

omit [Coordinate α] in
theorem SameLayers.flatten_perm {o o' : Ordering} (h : SameLayers o o') :
    o.flatten.Perm o'.flatten := by
  induction h with
  | nil => exact .nil
  | cons hLayer _ ih =>
    rw [List.flatten_cons, List.flatten_cons]
    exact hLayer.append ih

omit [Coordinate α] in
theorem mem_layers_of_mem_initial {l : Layered α} {layer : List String} (hLayer : layer ∈ initial l)
    {n : String} (hn : n ∈ layer) : n ∈ l.layers.keys := by
  obtain ⟨i, _, rfl⟩ := List.mem_map.mp hLayer
  exact (List.mergeSort_perm _ _).mem_iff.mp (List.mem_filter.mp hn).1

theorem mem_layers_of_mem {l : Layered α} {horizontal : Bool} {layer : List String}
    (hLayer : layer ∈ Ordering.of l horizontal) {n : String} (hn : n ∈ layer) :
    n ∈ l.layers.keys := by
  obtain ⟨i, hi, rfl⟩ := List.mem_iff_getElem.mp hLayer
  have hSame := of_sameLayers l horizontal
  have hPerm := hSame.get hi (hSame.length_eq ▸ hi)
  exact mem_layers_of_mem_initial (List.getElem_mem _) (hPerm.mem_iff.mp hn)

/-! ## Layers by their numbers -/

omit [Coordinate α] in
theorem mem_initial_getElem_iff (l : Layered α) {i : Nat} (hi : i < (initial l).length)
    (n : String) : n ∈ (initial l)[i] ↔ n ∈ l.layers.keys ∧ l.layers.of n = i := by
  simp only [initial, List.getElem_map, List.getElem_range, List.mem_filter,
    (List.mergeSort_perm _ _).mem_iff, beq_iff_eq]

omit [Coordinate α] in
theorem nodup_flatten_initial {l : Layered α} (h : l.layers.keys.Nodup) :
    (initial l).flatten.Nodup := by
  have hSorted : ∀ before : String → String → Bool, (l.layers.keys.mergeSort before).Nodup :=
    fun before => (List.mergeSort_perm _ _).nodup_iff.mpr h
  rw [List.nodup_flatten]
  constructor
  · intro layer hLayer
    obtain ⟨i, _, rfl⟩ := List.mem_map.mp hLayer
    exact (hSorted _).filter _
  · refine List.pairwise_iff_getElem.mpr fun i j hi hj hLess n hn hn' => ?_
    have hFirst := ((mem_initial_getElem_iff l hi n).mp hn).2
    have hSecond := ((mem_initial_getElem_iff l hj n).mp hn').2
    omega

theorem nodup_flatten_unsettled {l : Layered α} (h : l.layers.keys.Nodup) :
    (unsettled l).flatten.Nodup :=
  (improve_sameLayers _ _ _).flatten_perm.nodup_iff.mpr (nodup_flatten_initial h)

theorem nodup_flatten_of {l : Layered α} (h : l.layers.keys.Nodup) (horizontal : Bool) :
    (Ordering.of l horizontal).flatten.Nodup :=
  (of_sameLayers l horizontal).flatten_perm.nodup_iff.mpr (nodup_flatten_initial h)

theorem length_of (l : Layered α) (horizontal : Bool) :
    (Ordering.of l horizontal).length = l.layers.count := by
  rw [(of_sameLayers l horizontal).length_eq, initial, List.length_map, List.length_range]

theorem mem_of_getElem_iff (l : Layered α) {horizontal : Bool} {i : Nat}
    (hi : i < (Ordering.of l horizontal).length) (n : String) :
    n ∈ (Ordering.of l horizontal)[i] ↔ n ∈ l.layers.keys ∧ l.layers.of n = i := by
  have hSame := of_sameLayers l horizontal
  have hPerm := hSame.get hi (hSame.length_eq ▸ hi)
  exact hPerm.mem_iff.trans (mem_initial_getElem_iff l _ n)

end Ordering

namespace Layers

theorem of_eq_of_get? {layers : Layers} {n : String} {i : Nat}
    (h : OrderedMap.get? layers n = some i) : layers.of n = i := by rw [of, h, Option.getD_some]

theorem of_lt_count {layers : Layers} {n : String} (h : n ∈ layers.keys) :
    layers.of n < layers.count := by
  obtain ⟨i, hi⟩ := OrderedMap.mem_keys_iff_exists.mp h
  have hIn : i + 1 ∈ layers.values.map (· + 1) :=
    List.mem_map_of_mem (List.mem_map_of_mem (f := Prod.snd) (OrderedMap.mem_entries_of_get? hi))
  rw [of_eq_of_get? hi]
  exact (le_foldl_of_le (fun a b => ⟨Nat.le_max_left a b, Nat.le_max_right a b⟩) _ 0).2 _ hIn

end Layers

end TypeDiagram.Layout
