import Mathlib.Data.List.Chain
import TypeDiagram.Proofs.Layout.Echo
import TypeDiagram.Proofs.Layout.Relayout
import TypeDiagram.Proofs.Number.Monotone

/-! # Seeds change places among themselves

Seeds count in the last step on a layer only. The seeded nodes leave their places and come back to
them in the order of their coordinates across the flow; sorting is stable, so nodes with the same
coordinate keep the order that they would have without seeds. All others stay where they are.
-/

namespace TypeDiagram.Layout

open Coordinate

variable {α κ : Type}

/-! ## Sorting -/

section Merge

variable {β : Type} {le : β → β → Bool}

theorem mem_head?_merge {xs ys : List β} {z : β} (h : z ∈ (xs.merge ys le).head?) :
    z ∈ xs.head? ∨ z ∈ ys.head? := by
  cases xs with
  | nil => exact .inr (by rwa [List.nil_merge] at h)
  | cons x xs =>
    cases ys with
    | nil => exact .inl (by rwa [List.merge_right] at h)
    | cons y ys =>
      rw [List.cons_merge_cons] at h
      split at h
      · exact .inl h
      · exact .inr h

variable (hTotal : ∀ a b, le a b = true ∨ le b a = true)

include hTotal

theorem isChain_merge {xs ys : List β} (hxs : xs.IsChain fun a b => le a b = true)
    (hys : ys.IsChain fun a b => le a b = true) :
    (xs.merge ys le).IsChain fun a b => le a b = true := by
  induction xs, ys using List.merge.induct le with
  | case1 ys => rwa [List.nil_merge]
  | case2 xs _ => rwa [List.merge_right]
  | case3 x xs y ys hFirst ih =>
    rw [List.cons_merge_cons, if_pos hFirst]
    obtain ⟨hHead, hTail⟩ := List.isChain_cons.mp hxs
    refine List.isChain_cons.mpr ⟨fun z hz => ?_, ih hTail hys⟩
    rcases mem_head?_merge hz with hOwn | hOther
    · exact hHead z hOwn
    · cases hOther
      exact hFirst
  | case4 x xs y ys hFirst ih =>
    rw [List.cons_merge_cons, if_neg hFirst]
    obtain ⟨hHead, hTail⟩ := List.isChain_cons.mp hys
    refine List.isChain_cons.mpr ⟨fun z hz => ?_, ih hxs hTail⟩
    rcases mem_head?_merge hz with hOther | hOwn
    · cases hOther
      exact (hTotal x y).resolve_left hFirst
    · exact hHead z hOwn

/-- Elements next to each other are in order, even if the order is not transitive. -/
theorem isChain_mergeSort (xs : List β) : (xs.mergeSort le).IsChain fun a b => le a b = true := by
  induction xs, le using List.mergeSort.induct with
  | case1 le =>
    rw [List.mergeSort_nil]
    exact .nil
  | case2 le a =>
    rw [List.mergeSort_singleton]
    exact .singleton a
  | case3 a b xs le halves _ _ ih ih' =>
    rw [List.mergeSort]
    exact isChain_merge hTotal (ih hTotal) (ih' hTotal)

end Merge

theorem not_pair_sublist_of_nodup {β : Type} {xs : List β} (h : xs.Nodup) {x y : β}
    (hPair : [x, y].Sublist xs) : ¬ [y, x].Sublist xs := by
  obtain ⟨before, after, rfl, hx, hy⟩ := List.cons_sublist_iff.mp hPair
  rw [List.singleton_sublist] at hy
  have hApart := (List.nodup_append.mp h).2.2
  intro hSwapped
  obtain ⟨front, back, hSplit, hFront, hBack⟩ := List.sublist_append_iff.mp hSwapped
  cases front with
  | nil =>
    have hIn : x ∈ after := hBack.subset (by rw [← List.nil_append back, ← hSplit]; simp)
    exact hApart x hx x hIn rfl
  | cons z front =>
    obtain ⟨rfl, _⟩ := List.cons.inj hSplit
    exact hApart y (hFront.subset List.mem_cons_self) y hy rfl

theorem pair_sublist_or {β : Type} {xs : List β} {x y : β} (hx : x ∈ xs) (hy : y ∈ xs)
    (hNe : x ≠ y) : [x, y].Sublist xs ∨ [y, x].Sublist xs := by
  obtain ⟨before, after, rfl⟩ := List.append_of_mem hx
  rcases List.mem_append.mp hy with hBefore | hAfter
  · right
    exact (List.singleton_sublist.mpr hBefore).append
      (List.singleton_sublist.mpr List.mem_cons_self)
  · left
    have hLater := (List.mem_cons.mp hAfter).resolve_left hNe.symm
    exact ((List.singleton_sublist.mpr hLater).cons_cons x).trans (List.sublist_append_right _ _)

/-- Sorting is stable: elements that compare both ways keep the order that they had. -/
theorem pairwise_mergeSort_of_nodup {β : Type} {le : β → β → Bool}
    (hTrans : ∀ x y z, le x y = true → le y z = true → le x z = true)
    (hTotal : ∀ x y, (le x y || le y x) = true) {xs : List β} (h : xs.Nodup) :
    (xs.mergeSort le).Pairwise fun x y =>
      le x y = true ∧ (le y x = true → [x, y].Sublist xs) := by
  have hPerm := List.mergeSort_perm xs le
  have hNodup : (xs.mergeSort le).Nodup := hPerm.nodup_iff.mpr h
  rw [List.pairwise_iff_forall_sublist]
  intro x y hPair
  have hLe := List.pairwise_iff_forall_sublist.mp (List.pairwise_mergeSort hTrans hTotal xs) hPair
  refine ⟨hLe, fun hTie => ?_⟩
  have hNe : x ≠ y := by
    rintro rfl
    exact not_pair_sublist_of_nodup hNodup hPair hPair
  have hx : x ∈ xs := hPerm.mem_iff.mp (hPair.subset (by simp))
  have hy : y ∈ xs := hPerm.mem_iff.mp (hPair.subset (by simp))
  rcases pair_sublist_or hx hy hNe with hOwn | hOther
  · exact hOwn
  · exact absurd (List.pair_sublist_mergeSort hTrans hTotal hTie hOther)
      (not_pair_sublist_of_nodup hNodup hPair)

section Keys

variable [Coordinate α] [Asymmetric α] {β : Type} (key : β → α)

theorem sorted_or_sorted (x y : β) :
    (!less (key y) (key x)) = true ∨ (!less (key x) (key y)) = true := by
  cases hLess : less (key y) (key x) with
  | false => exact .inl rfl
  | true => exact .inr (congrArg _ (less_asymm hLess))

theorem isChain_sortByKey (xs : List β) :
    (sortByKey key xs).IsChain fun x y => less (key y) (key x) = false := by
  rw [sortByKey_eq_mergeSort]
  exact (isChain_mergeSort (sorted_or_sorted key) xs).imp fun _ _ => (Bool.not_eq_true' _).mp

variable [Monotone α] {key}

/-- Elements whose keys are numbers come in ascending order of their keys, and those with the same
key in the order that they had. -/
theorem pairwise_sortByKey {xs : List β} (hNodup : xs.Nodup)
    (hNumbers : ∀ x ∈ xs, IsNumber (key x)) :
    (sortByKey key xs).Pairwise fun x y => less (key y) (key x) = false ∧
      (less (key x) (key y) = false → [x, y].Sublist xs) := by
  let numbers : List {x // IsNumber (key x)} := xs.attachWith _ hNumbers
  let le (x y : {x // IsNumber (key x)}) : Bool := !less (key y) (key x)
  have hTotal : ∀ x y, (le x y || le y x) = true := fun x y =>
    (Bool.or_eq_true _ _).mpr (sorted_or_sorted key x.1 y.1)
  have hTrans : ∀ x y z, le x y = true → le y z = true → le x z = true := by
    intro x y z hxy hyz
    simp only [le, Bool.not_eq_true'] at hxy hyz ⊢
    rw [← Bool.not_eq_true]
    intro hLess
    rcases less_or_less hLess y.2 with hFirst | hSecond
    · rw [hyz] at hFirst
      cases hFirst
    · rw [hxy] at hSecond
      cases hSecond
  have hValues : numbers.map Subtype.val = xs := List.attachWith_map_subtype_val hNumbers
  have hSorted : sortByKey key xs = (numbers.mergeSort le).map Subtype.val := by
    rw [sortByKey_eq_mergeSort, List.map_mergeSort (s := fun x y => !less (key y) (key x)), hValues]
    exact fun _ _ _ _ => rfl
  have hDistinct : numbers.Nodup := (hValues ▸ hNodup).of_map
  rw [hSorted, List.pairwise_map]
  refine (pairwise_mergeSort_of_nodup hTrans hTotal hDistinct).imp fun {x y} hBoth => ?_
  refine ⟨(Bool.not_eq_true' _).mp hBoth.1, fun hTie => ?_⟩
  rw [← hValues]
  exact (hBoth.2 ((Bool.not_eq_true' _).mpr hTie)).map Subtype.val

end Keys

/-! ## Places of seeds -/

/-- The places are filled in order, and what stands in no such place stays there. -/
theorem fillSlots_spec (isSeeded : String → Bool) {layer seeded : List String}
    (hLength : seeded.length = (layer.filter isSeeded).length)
    (hSeeded : ∀ n ∈ seeded, isSeeded n = true) :
    (Ordering.fillSlots isSeeded layer seeded).filter isSeeded = seeded ∧
      List.Forall₂ (fun n n' => isSeeded n' = isSeeded n ∧ (isSeeded n = false → n' = n)) layer
        (Ordering.fillSlots isSeeded layer seeded) := by
  induction layer generalizing seeded with
  | nil =>
    rw [List.eq_nil_of_length_eq_zero hLength]
    exact ⟨rfl, .nil⟩
  | cons n layer ih =>
    by_cases hn : isSeeded n = true
    · rw [List.filter_cons_of_pos hn] at hLength
      cases seeded with
      | nil => cases hLength
      | cons s seeded =>
        obtain ⟨hs, hLater⟩ := List.forall_mem_cons.mp hSeeded
        obtain ⟨hFilter, hPlaces⟩ := ih (Nat.succ.inj hLength) hLater
        rw [Ordering.fillSlots, if_pos hn, List.filter_cons_of_pos hs, hFilter]
        refine ⟨rfl, .cons ⟨hs.trans hn.symm, fun hNot => ?_⟩ hPlaces⟩
        rw [hn] at hNot
        cases hNot
    · rw [List.filter_cons_of_neg hn] at hLength
      obtain ⟨hFilter, hPlaces⟩ := ih hLength hSeeded
      rw [Ordering.fillSlots.eq_def]
      simp only [hn]
      exact ⟨(List.filter_cons_of_neg hn).trans hFilter, .cons ⟨rfl, fun _ => rfl⟩ hPlaces⟩

variable [Coordinate α]

/-- The nodes of a layer that have a coordinate of their own have changed places among themselves.
None of them has a lower coordinate than the one before it. If all these coordinates are numbers,
they ascend, and nodes with the same coordinate are in the order that they had. -/
structure Settles (across : String → Option α) (layer settled : List String) : Prop where
  perm : settled.Perm layer
  places : List.Forall₂
    (fun n n' => (across n').isSome = (across n).isSome ∧ (across n = none → n' = n)) layer settled
  chain : (settled.filter fun n => (across n).isSome).IsChain fun m n =>
    ∀ a ∈ across m, ∀ b ∈ across n, less b a = false
  ascending : (∀ n ∈ layer, ∀ a ∈ across n, IsNumber a) → settled.Pairwise fun m n =>
    ∀ a ∈ across m, ∀ b ∈ across n,
      less b a = false ∧ (less a b = false → [m, n].Sublist layer)

theorem settles_settleSeeds [Monotone α] [Asymmetric α] (s : Spacing α) (boxes : Boxes α)
    {layer : List String} (hNodup : layer.Nodup) :
    Settles (fun n => ((boxes.get? n).bind Box.seed).map s.flank) layer
      (Ordering.settleSeeds boxes s.horizontal layer) := by
  let across (n : String) : Option α := ((boxes.get? n).bind Box.seed).map s.flank
  let isSeeded (n : String) : Bool := (across n).isSome
  let key (n : String) : α := (across n).getD (nat 0)
  let seeded := sortByKey key (layer.filter isSeeded)
  have hPerm : seeded.Perm (layer.filter isSeeded) := sortByKey_perm key _
  have hKey : ∀ n, ∀ a ∈ across n, key n = a := by
    intro n a ha
    exact congrArg (Option.getD · (nat 0)) ha
  have hSettled : Ordering.settleSeeds boxes s.horizontal layer =
      Ordering.fillSlots isSeeded layer seeded := by
    unfold Ordering.settleSeeds
    simp only [seeded, key, isSeeded, across, Option.isSome_map]
    rfl
  obtain ⟨hFilter, hPlaces⟩ := fillSlots_spec isSeeded hPerm.length_eq fun n hn =>
    (List.mem_filter.mp (hPerm.mem_iff.mp hn)).2
  refine ⟨Ordering.settleSeeds_perm boxes s.horizontal layer, ?_, ?_, fun hNumbers => ?_⟩
  · rw [hSettled]
    exact hPlaces.imp fun n n' h => ⟨h.1, fun hNone => h.2 (Option.isSome_eq_false_iff.mpr
      (Option.isNone_iff_eq_none.mpr hNone))⟩
  · rw [hSettled, hFilter]
    refine (isChain_sortByKey key _).imp fun m n hLess a ha b hb => ?_
    rwa [hKey m a ha, hKey n b hb] at hLess
  · have hSorted := pairwise_sortByKey (hNodup.filter isSeeded) fun n hn => by
      obtain ⟨a, ha⟩ := Option.isSome_iff_exists.mp (List.mem_filter.mp hn).2
      exact hKey n a ha ▸ hNumbers n (List.mem_filter.mp hn).1 a ha
    change seeded.Pairwise _ at hSorted
    rw [← hFilter, List.pairwise_filter] at hSorted
    rw [hSettled]
    refine hSorted.imp fun {m n} hBoth a ha b hb => ?_
    obtain ⟨hLess, hTie⟩ := hBoth (Option.isSome_iff_exists.mpr ⟨a, ha⟩)
      (Option.isSome_iff_exists.mpr ⟨b, hb⟩)
    rw [hKey m a ha, hKey n b hb] at hLess hTie
    exact ⟨hLess, fun hSame => (hTie hSame).trans List.filter_sublist⟩

/-! ## Requests without their seeds -/

def Request.unseeded (request : Request α κ) : Request α κ :=
  { request with children := request.children.map fun c => { c with x := none, y := none } }

def unseed : Reseeding α := fun _ _ => none

theorem resolveRequest_unseeded {request : Request α κ} {r : Resolved α}
    (hRead : resolveRequest request = .ok r) :
    resolveRequest request.unseeded = .ok (r.reseed unseed) := by
  obtain ⟨hChildren, hLinks⟩ := resolveRequest_eq_ok hRead
  have hReseeds : List.Forall₂ (Reseeds unseed) request.children request.unseeded.children :=
    List.forall₂_map_right_iff.mpr (List.forall₂_same.mpr fun c _ =>
      ⟨rfl, rfl, rfl, rfl, fun _ _ _ _ => rfl⟩)
  have hLinks' : readLinks (r.boxes.reseed unseed) request.unseeded.edges = .ok r.routes :=
    (readLinks_mapValues (f := Box.reseed unseed) (fun _ _ => rfl) r.boxes request.edges).trans
      hLinks
  have hSpacing := readSpacing_of_resolveRequest hRead
  exact resolveRequest_eq_ok_iff.mpr
    ⟨hSpacing, readChildren_reseed hReseeds hChildren, hLinks'⟩

def Request.across? (request : Request α κ) (id : String) : Option α :=
  ((request.children.find? fun c => c.id == some id).bind fun c =>
    (readSeed c).toOption.join).map request.flank

section Across

variable {request : Request α κ}
  (hPlain : ∀ c ∈ request.children, ∀ id, c.id = some id → isDummy id = false) {r : Resolved α}
  (hRead : resolveRequest request = .ok r)

include hRead

theorem across?_of_get? (n : String) :
    request.across? n = ((r.boxes.get? n).bind Box.seed).map r.spacing.flank := by
  obtain ⟨hChildren, _⟩ := resolveRequest_eq_ok hRead
  rw [Request.across?, flank_of_resolveRequest hRead]
  congr 1
  cases hFound : request.children.find? fun c => c.id == some n with
  | some c =>
    obtain ⟨id, b, hb, hBox⟩ := exists_box_of_mem hChildren (List.mem_of_find?_eq_some hFound)
    have hId : c.id = some n := beq_iff_eq.mp (List.find?_eq_some_iff_append.mp hFound).1
    obtain rfl : id = n := Option.some.inj (hBox.id.symm.trans hId)
    rw [hb, Option.bind_some, Option.bind_some, hBox.seed]
    rfl
  | none =>
    cases hBox : r.boxes.get? n with
    | none => rfl
    | some b =>
      obtain ⟨c, hc, hOf⟩ := exists_child_of_get? hChildren hBox
      exact absurd (beq_iff_eq.mpr hOf.id) (List.find?_eq_none.mp hFound c hc)

include hPlain

theorem seed_layered (n : String) : ((planOf r).layered.boxes.get? n).bind Box.seed =
    (r.boxes.get? n).bind Box.seed := by
  refine Option.ext fun p => ⟨seed_of_layered, fun hSeed => ?_⟩
  obtain ⟨b, hb, _⟩ := Option.bind_eq_some_iff.mp hSeed
  obtain ⟨c, hc, hBox⟩ := exists_child_of_get? (resolveRequest_eq_ok hRead).1 hb
  obtain ⟨hSplits, _⟩ := (wellRouted_of_resolveRequest hRead).splits_planOf
  rwa [hSplits.spared n fun hTaken => ?_]
  have hDummy := hSplits.dummies n hTaken
  rw [hPlain c hc n hBox.id] at hDummy
  cases hDummy

end Across

/-- Without the coordinates of its children, a request leads to the same layers, but for seeded
children that have changed places with each other. -/
theorem seeds_change_places_only [Monotone α] [Asymmetric α] {request : Request α κ}
    (hPlain : ∀ c ∈ request.children, ∀ id, c.id = some id → isDummy id = false) {r : Resolved α}
    (hRead : resolveRequest request = .ok r) :
    ∃ r', resolveRequest request.unseeded = .ok r' ∧
      List.Forall₂ (Settles request.across?) (planOf r').ordering (planOf r).ordering := by
  have hRead' := resolveRequest_unseeded hRead
  refine ⟨_, hRead', ?_⟩
  have hFree : ∀ c ∈ request.unseeded.children, c.isSeeded = false := by
    intro c hc
    obtain ⟨_, _, rfl⟩ := List.mem_map.mp hc
    rfl
  have hSame : (planOf (r.reseed unseed)).ordering = Ordering.unsettled (planOf r).layered := by
    rw [ordering_of_free hRead' hFree, layered_reseed fun _ _ => rfl, unsettled_reseed]
  rw [hSame, planOf_ordering, Ordering.of, List.forall₂_map_right_iff]
  refine List.forall₂_same.mpr fun layer hLayer => ?_
  have hNodup : layer.Nodup := (List.nodup_flatten.mp
    (Ordering.nodup_flatten_unsettled (nodup_layers_planOf hRead))).1 layer hLayer
  have hAcross : request.across? = fun n =>
      (((planOf r).layered.boxes.get? n).bind Box.seed).map r.spacing.flank := by
    funext n
    rw [across?_of_get? hRead, seed_layered hPlain hRead]
  rw [hAcross]
  exact settles_settleSeeds r.spacing _ hNodup

/-- Three seeded children of a layer, two of them with the same coordinate, change places around a
child without a seed. -/
theorem tied_seeds_change_places :
    let child (id : String) (place : Option (Rat × Rat)) : Child Rat Unit :=
      ⟨some id, place.map fun p => .number p.1, place.map fun p => .number p.2,
        some (.number 40), some (.number 20), [], ()⟩
    let edge (target : String) : Link Unit := ⟨.absent, [.text "A"], [.text target], ()⟩
    let request : Request Rat Unit :=
      ⟨[("elk.direction", .string "RIGHT")],
        [child "A" none, child "B" (some (7, 50)), child "C" none, child "D" (some (90, 10)),
          child "E" (some (0, 10))], ["B", "C", "D", "E"].map edge⟩
    ∃ r r', resolveRequest request = .ok r ∧ resolveRequest request.unseeded = .ok r' ∧
      List.Forall₂ (Settles request.across?) (planOf r').ordering (planOf r).ordering ∧
      (planOf r').ordering = [["A"], ["B", "C", "D", "E"]] ∧
      (planOf r).ordering = [["A"], ["D", "C", "E", "B"]] := by
  intro child edge request
  have hPlain : ∀ c ∈ request.children, ∀ id, c.id = some id → isDummy id = false := by
    have hAll : ∀ id ∈ request.children.filterMap Child.id, isDummy id = false := by decide +kernel
    exact fun c hc id hId => hAll id (List.mem_filterMap.mpr ⟨c, hc, hId⟩)
  have hWithout : (resolveRequest request.unseeded).toOption.map (fun r => (planOf r).ordering) =
      some [["A"], ["B", "C", "D", "E"]] := by cbv
  have hWith : (resolveRequest request).toOption.map (fun r => (planOf r).ordering) =
      some [["A"], ["D", "C", "E", "B"]] := by cbv
  cases hRead : resolveRequest request with
  | error e =>
    rw [hRead] at hWith
    cases hWith
  | ok r =>
    obtain ⟨r', hRead', hSettles⟩ := seeds_change_places_only hPlain hRead
    rw [hRead] at hWith
    rw [hRead'] at hWithout
    exact ⟨r, r', rfl, hRead', hSettles, Option.some.inj hWithout, Option.some.inj hWith⟩

end TypeDiagram.Layout
