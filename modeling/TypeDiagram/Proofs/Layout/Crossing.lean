import TypeDiagram.Proofs.Layout.Ordering
import TypeDiagram.Proofs.Layout.Stack
import TypeDiagram.Proofs.Layout.Subdivision
import Mathlib.Data.List.Sym
import Mathlib.Data.Prod.Lex
import Mathlib.Data.Set.Card

/-! # What is counted as a crossing

Arcs leave their upper ends at a fraction of one place, so the number that is compared for two arcs
ranks them by the places of their upper ends first and by the fractions second. As the arcs between
two layers are listed once each, the count is that of the pairs of arcs with their ends in opposite
orders.
-/

namespace TypeDiagram.Layout.Ordering

open Coordinate

/-! ## Pairs that cross -/

theorem cross_iff (a b : Rat × Int) :
    cross a b = true ↔ (a.1 < b.1 ∧ b.2 < a.2) ∨ (b.1 < a.1 ∧ a.2 < b.2) := by
  have hLess : cross a b = true ↔ (a.1 - b.1) * ((a.2 - b.2 : Int) : Rat) < 0 := decide_eq_true_iff
  rw [hLess, mul_neg_iff, sub_pos, sub_neg, Int.cast_lt_zero, Int.cast_pos, sub_pos, sub_neg]
  tauto

theorem cross_comm (a b : Rat × Int) : cross a b = cross b a := by
  rw [Bool.eq_iff_iff, cross_iff, cross_iff]
  tauto

theorem cross_self (a : Rat × Int) : cross a a = false := by
  rw [← Bool.not_eq_true, cross_iff]
  simp

variable {β : Type}

def crossingsOf (f : β → Rat × Int) (xs : List β) : Set (Sym2 β) :=
  {e | ∃ a ∈ xs, ∃ b ∈ xs, cross (f a) (f b) = true ∧ e = s(a, b)}

theorem finite_crossingsOf (f : β → Rat × Int) (xs : List β) : (crossingsOf f xs).Finite := by
  refine (List.finite_toSet xs.sym2).subset ?_
  rintro _ ⟨a, ha, b, hb, _, rfl⟩
  exact List.mk_mem_sym2_iff.mpr ⟨ha, hb⟩

theorem crossingsOf_cons (f : β → Rat × Int) (x : β) (xs : List β) :
    crossingsOf f (x :: xs) =
      (s(x, ·)) '' {b | b ∈ xs.filter fun b => cross (f x) (f b)} ∪ crossingsOf f xs := by
  ext e
  constructor
  · rintro ⟨a, ha, b, hb, hCross, rfl⟩
    rcases List.mem_cons.mp ha with rfl | haLater <;> rcases List.mem_cons.mp hb with rfl | hbLater
    · rw [cross_self] at hCross
      cases hCross
    · exact .inl ⟨b, List.mem_filter.mpr ⟨hbLater, hCross⟩, rfl⟩
    · rw [cross_comm] at hCross
      exact .inl ⟨a, List.mem_filter.mpr ⟨haLater, hCross⟩, Sym2.eq_swap⟩
    · exact .inr ⟨a, haLater, b, hbLater, hCross, rfl⟩
  · rintro (⟨b, hb, rfl⟩ | ⟨a, ha, b, hb, hCross, rfl⟩)
    · obtain ⟨hIn, hCross⟩ := List.mem_filter.mp hb
      exact ⟨x, List.mem_cons_self, b, List.mem_cons_of_mem x hIn, hCross, rfl⟩
    · exact ⟨a, List.mem_cons_of_mem x ha, b, List.mem_cons_of_mem x hb, hCross, rfl⟩

theorem crossingPairs_map (f : β → Rat × Int) {xs : List β} (h : xs.Nodup) :
    crossingPairs (xs.map f) = (crossingsOf f xs).ncard := by
  classical
  induction xs with
  | nil => simp [crossingPairs, crossingsOf]
  | cons x xs ih =>
    obtain ⟨hNew, hRest⟩ := List.nodup_cons.mp h
    let partners := xs.filter fun b => cross (f x) (f b)
    have hPartners : ((s(x, ·)) '' {b | b ∈ partners}).ncard = partners.length := by
      rw [Set.ncard_image_of_injective _ fun _ _ => Sym2.congr_right.mp, ← List.coe_toFinset,
        Set.ncard_coe_finset, List.toFinset_card_of_nodup (hRest.filter _)]
    have hApart : Disjoint ((s(x, ·)) '' {b | b ∈ partners}) (crossingsOf f xs) := by
      rw [Set.disjoint_left]
      rintro _ ⟨b, _, rfl⟩ ⟨a, ha, c, hc, _, hSame⟩
      rcases Sym2.eq_iff.mp hSame with ⟨rfl, _⟩ | ⟨rfl, _⟩
      · exact hNew ha
      · exact hNew hc
    rw [crossingsOf_cons, Set.ncard_union_eq hApart ((List.finite_toSet _).image _)
      (finite_crossingsOf f xs), hPartners, List.map_cons, crossingPairs, ih hRest, List.filter_map,
      List.length_map]
    rfl

/-! ## Arcs between layers -/

/-- Where an arc begins in a layer: at the place of its source and, there, at its weight. -/
def upperEnd (upper : List String) (a : Arc Rat) : ℕ ×ₗ ℚ := toLex (upper.idxOf a.source, a.weight)

def Spans (upper lower : List String) (a : Arc Rat) : Prop := a.source ∈ upper ∧ a.target ∈ lower

/-- The arcs have their upper ends in one order and their lower ends in the other. -/
def Opposed (upper lower : List String) (a b : Arc Rat) : Prop :=
  (upperEnd upper a < upperEnd upper b ∧ lower.idxOf b.target < lower.idxOf a.target) ∨
    (upperEnd upper b < upperEnd upper a ∧ lower.idxOf a.target < lower.idxOf b.target)

/-- The pairs of arcs of the graph that run between the same two adjacent layers with their ends in
opposite orders. -/
def crossingArcs (g : Digraph Rat) (o : Ordering) : Set (Sym2 (Arc Rat)) :=
  {e | ∃ layers ∈ o.consecutivePairs, ∃ a ∈ g.arcs, ∃ b ∈ g.arcs,
    Spans layers.1 layers.2 a ∧ Spans layers.1 layers.2 b ∧ Opposed layers.1 layers.2 a b ∧
      e = s(a, b)}

theorem finite_crossingArcs (g : Digraph Rat) (o : Ordering) : (crossingArcs g o).Finite := by
  refine (List.finite_toSet g.arcs.sym2).subset ?_
  rintro _ ⟨_, _, a, ha, b, hb, _, _, _, rfl⟩
  exact List.mk_mem_sym2_iff.mpr ⟨ha, hb⟩

theorem crossingArcs_cons (g : Digraph Rat) (upper lower : List String) (o : Ordering) :
    crossingArcs g (upper :: lower :: o) =
      crossingArcs g [upper, lower] ∪ crossingArcs g (lower :: o) := by
  have hPairs : (upper :: lower :: o).consecutivePairs =
    (upper, lower) :: (lower :: o).consecutivePairs := rfl
  have hFirst : [upper, lower].consecutivePairs = [(upper, lower)] := rfl
  ext e
  simp only [crossingArcs, hPairs, hFirst, Set.mem_union, Set.mem_ofPred_eq, List.mem_cons,
    List.not_mem_nil, or_false, or_and_right, exists_or]

theorem notMem_crossingArcs (g : Digraph Rat) {upper lower : List String} {o : Ordering}
    (h : ∀ n ∈ upper, ∀ m ∈ (lower :: o).flatten, n ≠ m) :
    ∀ ⦃p⦄, p ∈ crossingArcs g [upper, lower] → p ∉ crossingArcs g (lower :: o) := by
  rintro _ ⟨_, hFirst, a, _, b, _, haSpans, hbSpans, _, rfl⟩
    ⟨later, hLater, c, _, d, _, hcSpans, _, _, hSame⟩
  rw [List.mem_singleton.mp hFirst] at haSpans hbSpans
  have hIn := List.mem_flatten.mpr ⟨_, (mem_of_mem_consecutivePairs hLater).1, hcSpans.1⟩
  rcases Sym2.eq_iff.mp hSame with ⟨rfl, _⟩ | ⟨_, rfl⟩
  · exact h _ haSpans.1 _ hIn rfl
  · exact h _ hbSpans.1 _ hIn rfl

section Between

variable (g : Digraph Rat) {upper lower : List String}

def between (upper lower : List String) : List (Arc Rat) :=
  (upper.flatMap g.arcsFrom).filter fun a => a.target ∈ lower

theorem mem_between_iff (a : Arc Rat) :
    a ∈ between g upper lower ↔ a ∈ g.arcs ∧ Spans upper lower a := by
  simp only [between, Spans, List.mem_filter, List.mem_flatMap, Digraph.arcsFrom, beq_iff_eq,
    decide_eq_true_eq]
  grind

def segmentOf (upper lower : List String) (a : Arc Rat) : Rat × Int :=
  (nat (upper.idxOf a.source) + a.weight, (lower.idxOf a.target : Int))

theorem idxOf?_of_mem {layer : List String} {n : String} (h : n ∈ layer) :
    layer.idxOf? n = some (layer.idxOf n) := by
  obtain ⟨i, hi⟩ := Option.isSome_iff_exists.mp (List.isSome_idxOf?.mpr h)
  rw [List.idxOf_eq_getD_idxOf?, hi]
  rfl

theorem filterMap_idxOf? {γ : Type} (f : Arc Rat → Nat → γ) (lower : List String)
    (arcs : List (Arc Rat)) : (arcs.filterMap fun a => (lower.idxOf? a.target).map (f a)) =
      (arcs.filter fun a => a.target ∈ lower).map fun a => f a (lower.idxOf a.target) := by
  induction arcs with
  | nil => rfl
  | cons a arcs ih =>
    rw [List.filterMap_cons, ih]
    by_cases hTarget : a.target ∈ lower
    · simp [hTarget, idxOf?_of_mem hTarget]
    · simp [hTarget, List.idxOf?_eq_none_iff.mpr hTarget]

theorem segments_eq (h : upper.Nodup) :
    segments g upper lower = (between g upper lower).map (segmentOf upper lower) := by
  have hPlaces : upper.zipIdx = upper.map fun n => (n, upper.idxOf n) := by
    refine List.ext_getElem (by simp) fun i hi hi' => ?_
    simp [h.idxOf_getElem]
  rw [segments, hPlaces, List.flatMap_map, between, List.filter_flatMap, List.map_flatMap]
  refine List.flatMap_congr fun n _ => ?_
  simp only [bind_pure_comp, Option.map_eq_map, Option.map_map, Function.comp_def]
  rw [filterMap_idxOf? fun a j => (nat (upper.idxOf n) + a.weight, (j : Int))]
  refine List.map_congr_left fun a ha => ?_
  obtain ⟨hFrom, _⟩ := List.mem_filter.mp ha
  rw [segmentOf, beq_iff_eq.mp (List.mem_filter.mp hFrom).2]

end Between

theorem add_weight_lt_iff {i j : Nat} {w v : Rat} (hw : 0 ≤ w ∧ w < 1) (hv : 0 ≤ v ∧ v < 1) :
    nat i + w < nat j + v ↔ toLex (i, w) < toLex (j, v) := by
  rw [Prod.Lex.toLex_lt_toLex, nat_rat, nat_rat]
  rcases Nat.lt_trichotomy i j with hLess | rfl | hMore
  · have hStep : (i : Rat) + 1 ≤ j := by exact_mod_cast hLess
    exact iff_of_true (by linarith) (.inl hLess)
  · simp
  · have hStep : (j : Rat) + 1 ≤ i := by exact_mod_cast hMore
    refine iff_of_false (by linarith) ?_
    rintro (hLess | ⟨hSame, _⟩)
    · exact hLess.asymm hMore
    · exact hMore.ne' hSame

theorem cross_segmentOf {upper lower : List String} {a b : Arc Rat}
    (ha : 0 ≤ a.weight ∧ a.weight < 1) (hb : 0 ≤ b.weight ∧ b.weight < 1) :
    cross (segmentOf upper lower a) (segmentOf upper lower b) = true ↔ Opposed upper lower a b := by
  unfold Opposed upperEnd
  rw [cross_iff, ← add_weight_lt_iff ha hb, ← add_weight_lt_iff hb ha, ← Int.ofNat_lt,
    ← Int.ofNat_lt]
  rfl

section Crossings

variable {g : Digraph Rat} (hEnds : (g.arcs.map Arc.ends).Nodup)
  (hWeights : ∀ a ∈ g.arcs, 0 ≤ a.weight ∧ a.weight < 1)

include hEnds hWeights

theorem crossingPairs_segments {upper lower : List String} (h : upper.Nodup) :
    crossingPairs (segments g upper lower) = (crossingArcs g [upper, lower]).ncard := by
  have hNodup : (between g upper lower).Nodup :=
    (Digraph.nodup_ends_flatMap_arcsFrom h hEnds).of_map.filter _
  rw [segments_eq g h, crossingPairs_map _ hNodup]
  congr 1
  ext e
  constructor
  · rintro ⟨a, ha, b, hb, hCross, rfl⟩
    obtain ⟨haArc, haSpans⟩ := (mem_between_iff g a).mp ha
    obtain ⟨hbArc, hbSpans⟩ := (mem_between_iff g b).mp hb
    exact ⟨_, List.mem_singleton_self _, a, haArc, b, hbArc, haSpans, hbSpans,
      (cross_segmentOf (hWeights a haArc) (hWeights b hbArc)).mp hCross, rfl⟩
  · rintro ⟨layers, hLayers, a, ha, b, hb, haSpans, hbSpans, hOpposed, rfl⟩
    obtain rfl : layers = (upper, lower) := List.mem_singleton.mp hLayers
    exact ⟨a, (mem_between_iff g a).mpr ⟨ha, haSpans⟩, b, (mem_between_iff g b).mpr ⟨hb, hbSpans⟩,
      (cross_segmentOf (hWeights a ha) (hWeights b hb)).mpr hOpposed, rfl⟩

theorem crossings_eq_ncard {o : Ordering} (h : o.flatten.Nodup) :
    crossings g o = (crossingArcs g o).ncard := by
  induction o with
  | nil => simp [crossings, crossingArcs, List.consecutivePairs]
  | cons upper o ih =>
    rw [List.flatten_cons, List.nodup_append] at h
    obtain ⟨hUpper, hRest, hApart⟩ := h
    cases o with
    | nil => simp [crossings, crossingArcs, List.consecutivePairs]
    | cons lower o =>
      rw [crossingArcs_cons, Set.ncard_union_eq (Set.disjoint_left.mpr (notMem_crossingArcs g hApart))
        (finite_crossingArcs g _) (finite_crossingArcs g _), crossings,
        crossingPairs_segments hEnds hWeights hUpper, ih hRest]

end Crossings

end TypeDiagram.Layout.Ordering
