import TypeDiagram.Proofs.Layout.Chain
import TypeDiagram.Proofs.Layout.Depth
import Mathlib.Data.List.Defs
import Mathlib.Data.List.Infix

/-! # Long arcs become chains

The chains of different arcs share no dummy, so no segment of one is a segment of another. The
layered graph then has the segments of all chains as its arcs and no other ones, each from a layer
to the next. A dummy has the arcs of its own chain only; who follows them from the upper end of an
arc, without passing a node of the graph, goes along its chain.
-/

namespace TypeDiagram.Layout

variable {α : Type}

/-! ## Consecutive elements -/

section Consecutive

variable {β : Type}

theorem consecutivePairs_concat (xs : List β) (x y : β) :
    (xs ++ [x, y]).consecutivePairs = (xs ++ [x]).consecutivePairs ++ [(x, y)] := by
  induction xs with
  | nil => rfl
  | cons z xs ih =>
    cases xs with
    | nil => rfl
    | cons w xs => exact congrArg ((z, w) :: ·) ih

theorem consecutivePairs_cons_concat (x : β) (xs : List β) (y : β) :
    (x :: (xs ++ [y])).consecutivePairs = (x :: xs).zip (xs ++ [y]) := by
  induction xs generalizing x with
  | nil => rfl
  | cons z xs ih => exact congrArg ((x, z) :: ·) (ih z)

theorem isChain_iff_forall_consecutivePairs {R : β → β → Prop} {xs : List β} :
    xs.IsChain R ↔ ∀ p ∈ xs.consecutivePairs, R p.1 p.2 := by
  induction xs with
  | nil => simp
  | cons x xs ih =>
    cases xs with
    | nil => exact iff_of_true (.singleton x) (List.forall_mem_nil _)
    | cons y xs =>
      have hPairs : (x :: y :: xs).consecutivePairs = (x, y) :: (y :: xs).consecutivePairs := rfl
      rw [List.isChain_cons_cons, ih, hPairs, List.forall_mem_cons]

variable {x y : β} {xs : List β} {p : β × β}

theorem map_fst_consecutivePairs : (x :: (xs ++ [y])).consecutivePairs.map Prod.fst = x :: xs := by
  rw [consecutivePairs_cons_concat]
  exact List.map_fst_zip (by simp)

theorem map_snd_consecutivePairs :
    (x :: (xs ++ [y])).consecutivePairs.map Prod.snd = xs ++ [y] := by
  rw [consecutivePairs_cons_concat]
  exact List.map_snd_zip (by simp)

theorem mem_consecutivePairs_append (before : List β) (x y : β) (after : List β) :
    (x, y) ∈ (before ++ x :: y :: after).consecutivePairs := by
  induction before with
  | nil => exact List.mem_cons_self
  | cons z before ih =>
    cases before with
    | nil => exact List.mem_cons_of_mem _ ih
    | cons w before => exact List.mem_cons_of_mem _ ih

theorem mem_of_mem_consecutivePairs (h : p ∈ xs.consecutivePairs) : p.1 ∈ xs ∧ p.2 ∈ xs :=
  (List.of_mem_zip h).imp_right List.mem_of_mem_tail

/-- A pair of neighbours on a way is the whole of it, or has a part of its inside. -/
theorem mem_consecutivePairs_cases (h : p ∈ (x :: (xs ++ [y])).consecutivePairs) :
    (xs = [] ∧ p = (x, y)) ∨ p.1 ∈ xs ∨ p.2 ∈ xs := by
  cases xs with
  | nil => exact .inl ⟨rfl, List.mem_singleton.mp h⟩
  | cons z xs =>
    right
    rcases List.mem_cons.mp h with rfl | hLater
    · exact .inr List.mem_cons_self
    · left
      rw [← map_fst_consecutivePairs (y := y)]
      exact List.mem_map_of_mem hLater

end Consecutive

namespace Digraph

theorem nodes_foldl_setArc (arcs : List (Arc α)) (g : Digraph α) :
    (arcs.foldl setArc g).nodes = g.nodes := by
  induction arcs generalizing g with
  | nil => rfl
  | cons a arcs ih => exact (ih _).trans (setArc_nodes g a)

theorem arcs_foldl_setArc {arcs : List (Arc α)} {g : Digraph α}
    (h : ((g.arcs ++ arcs).map Arc.ends).Nodup) : (arcs.foldl setArc g).arcs = g.arcs ++ arcs := by
  induction arcs generalizing g with
  | nil => exact (List.append_nil _).symm
  | cons a arcs ih =>
    have hNew : ¬ (g.arc? a.source a.target).isSome = true := by
      rw [arc?_isSome_iff, joins_iff_mem_ends]
      rw [List.map_append, List.nodup_append] at h
      exact fun hIn => h.2.2 _ hIn a.ends (List.mem_map_of_mem List.mem_cons_self) rfl
    have hSet : (g.setArc a).arcs = g.arcs ++ [a] := by rw [setArc, if_neg hNew]
    rw [List.foldl_cons, ih, hSet, List.append_assoc, List.singleton_append]
    rwa [hSet, List.append_assoc, List.singleton_append]

section Simple

variable {g : Digraph α} (h : (g.arcs.map Arc.ends).Nodup) {n m : String}

include h

/-- With at most one arc between two nodes, one that all arcs into a node come from is listed as the
only predecessor. -/
theorem predecessors_eq_singleton (hOnly : ∀ p, g.Joins p n ↔ p = m) :
    g.predecessors n = [m] := by
  have hEnds : (g.arcsInto n).map Arc.ends = (g.predecessors n).map (·, n) := by
    rw [predecessors, List.map_map]
    exact List.map_congr_left fun a ha =>
      congrArg (Prod.mk a.source) (beq_iff_eq.mp (List.mem_filter.mp ha).2)
  have hNodup : ((g.arcsInto n).map Arc.ends).Nodup := h.sublist (List.filter_sublist.map _)
  rw [hEnds] at hNodup
  rw [← List.perm_singleton, List.perm_ext_iff_of_nodup hNodup.of_map (List.nodup_singleton m)]
  intro p
  rw [mem_predecessors_iff, hOnly, List.mem_singleton]

theorem successors_eq_singleton (hOnly : ∀ s, g.Joins n s ↔ s = m) : g.successors n = [m] := by
  have hEnds : (g.arcsFrom n).map Arc.ends = (g.successors n).map (n, ·) := by
    rw [successors, List.map_map]
    exact List.map_congr_left fun a ha =>
      congrArg (·, a.target) (beq_iff_eq.mp (List.mem_filter.mp ha).2)
  have hNodup : ((g.arcsFrom n).map Arc.ends).Nodup := h.sublist (List.filter_sublist.map _)
  rw [hEnds] at hNodup
  rw [← List.perm_singleton, List.perm_ext_iff_of_nodup hNodup.of_map (List.nodup_singleton m)]
  intro s
  rw [mem_successors_iff, hOnly, List.mem_singleton]

end Simple

end Digraph

namespace Layered

/-! ## Dummies of different arcs -/

/-- The arcs run between nodes that are no dummies; no two have the same ends or the same number. -/
structure Numbered (arcs : List (Arc α × Nat)) : Prop where
  plain : ∀ e ∈ arcs, isDummy e.1.source = false ∧ isDummy e.1.target = false
  ends : (arcs.map fun e => e.1.ends).Nodup
  numbers : (arcs.map Prod.snd).Nodup

theorem isDummy_of_mem_dummies {layers : Layers} {e : Arc α × Nat} {n : String}
    (h : n ∈ dummies layers e) : isDummy n = true := by
  obtain ⟨step, _, rfl⟩ := List.mem_map.mp h
  exact isDummy_dummyId e.2 step

theorem nodup_dummies (layers : Layers) (e : Arc α × Nat) : (dummies layers e).Nodup :=
  (List.nodup_range').map fun _ _ hSame => (dummyId_inj.mp hSame).2

section Numbered

variable {arcs : List (Arc α × Nat)} (h : Numbered arcs) {layers : Layers} {d e : Arc α × Nat}
  (hd : d ∈ arcs) (he : e ∈ arcs)

include h hd in
theorem Numbered.not_mem_dummies (e : Arc α × Nat) :
    d.1.source ∉ dummies layers e ∧ d.1.target ∉ dummies layers e := by
  obtain ⟨hSource, hTarget⟩ := h.plain d hd
  constructor
  · intro hIn
    rw [isDummy_of_mem_dummies hIn] at hSource
    cases hSource
  · intro hIn
    rw [isDummy_of_mem_dummies hIn] at hTarget
    cases hTarget

include h hd in
theorem Numbered.nodup_through (hLess : layers.of d.1.source < layers.of d.1.target) :
    (d.1.through (dummies layers d)).Nodup := by
  obtain ⟨hSource, hTarget⟩ := h.not_mem_dummies hd d
  refine List.nodup_cons.mpr ⟨?_, ?_⟩
  · rw [List.mem_append, List.mem_singleton, not_or]
    exact ⟨hSource, fun hSame => hLess.ne (congrArg _ hSame)⟩
  · rw [← List.concat_eq_append]
    exact (nodup_dummies layers d).concat hTarget

include h hd

theorem Numbered.mem_dummies_of_mem_through {n : String} (hn : n ∈ d.1.through (dummies layers d))
    (hn' : n ∈ dummies layers e) : n ∈ dummies layers d := by
  obtain ⟨hSource, hTarget⟩ := h.not_mem_dummies hd e
  rcases List.mem_cons.mp hn with rfl | hIn
  · exact absurd hn' hSource
  · rcases List.mem_append.mp hIn with hOwn | hLast
    · exact hOwn
    · rw [List.mem_singleton.mp hLast] at hn'
      exact absurd hn' hTarget

include he

theorem Numbered.eq_of_mem_dummies {n : String} (hn : n ∈ dummies layers d)
    (hn' : n ∈ dummies layers e) : d = e := by
  obtain ⟨_, _, rfl⟩ := List.mem_map.mp hn
  obtain ⟨_, _, hSame⟩ := List.mem_map.mp hn'
  exact List.inj_on_of_nodup_map h.numbers hd he (dummyId_inj.mp hSame).1.symm

theorem Numbered.eq_of_mem_consecutivePairs {p : String × String}
    (hp : p ∈ (d.1.through (dummies layers d)).consecutivePairs)
    (hp' : p ∈ (e.1.through (dummies layers e)).consecutivePairs) : d = e := by
  obtain ⟨hFirst, hSecond⟩ := mem_of_mem_consecutivePairs hp'
  rcases mem_consecutivePairs_cases hp with ⟨_, rfl⟩ | hIn | hIn
  · -- The step from end to end is no step of another arc, which would have to have the same ends.
    rcases mem_consecutivePairs_cases hp' with ⟨_, hSame⟩ | hIn | hIn
    · exact List.inj_on_of_nodup_map h.ends hd he hSame
    · exact absurd hIn (h.not_mem_dummies hd e).1
    · exact absurd hIn (h.not_mem_dummies hd e).2
  · exact h.eq_of_mem_dummies hd he hIn (h.mem_dummies_of_mem_through he hFirst hIn)
  · exact h.eq_of_mem_dummies hd he hIn (h.mem_dummies_of_mem_through he hSecond hIn)

end Numbered

variable [Coordinate α]

/-! ## Segments -/

def segment (a : Arc α) (p : String × String) : Arc α := ⟨p.1, p.2, segmentWeight a p.1⟩

def segments (a : Arc α) (between : List String) : List (Arc α) :=
  (a.through between).consecutivePairs.map (segment a)

theorem ends_segments (a : Arc α) (between : List String) :
    (segments a between).map Arc.ends = (a.through between).consecutivePairs := by
  rw [segments, List.map_map]
  exact List.map_id _

theorem graph_foldl_grow (number : Nat) (a : Arc α) (l : Layered α) (steps : List Nat) :
    let g := steps.foldl (grow number a) ⟨l, [], a.source⟩
    ∃ nodes, a.source :: g.chain = nodes ++ [g.previous] ∧ g.layered.graph =
      ((nodes ++ [g.previous]).consecutivePairs.map (segment a)).foldl Digraph.setArc l.graph := by
  induction steps using List.reverseRecOn with
  | nil => exact ⟨[], rfl, rfl⟩
  | append_singleton steps step ih =>
    obtain ⟨nodes, hChain, hGraph⟩ := ih
    rw [List.foldl_append]
    refine ⟨nodes ++ [(steps.foldl (grow number a) ⟨l, [], a.source⟩).previous], ?_, ?_⟩
    · rw [← hChain]
      rfl
    · rw [List.append_assoc, List.singleton_append, consecutivePairs_concat, List.map_append,
        List.foldl_append, ← hGraph]
      rfl

theorem graph_addChain (l : Layered α) (a : Arc α) (number : Nat) :
    (l.addChain a number).graph =
      (segments a (dummies l.layers (a, number))).foldl Digraph.setArc l.graph := by
  obtain ⟨nodes, hChain, hGraph⟩ := graph_foldl_grow number a l
    (List.range' 1 (l.layers.of a.target - l.layers.of a.source - 1))
  rw [chain_foldl_grow] at hChain
  unfold addChain segments Arc.through dummies
  dsimp only
  rw [← List.cons_append, hChain, hGraph, List.append_assoc, List.singleton_append,
    consecutivePairs_concat, List.map_append, List.foldl_append]
  rfl

/-- What holds of a graph without arcs, and is kept when an arc is set that has the weight of an arc
or one half, holds once the arcs are split. -/
theorem graph_ofGraph_induction {P : Digraph α → Prop} (boxes : Boxes α) {g : Digraph α}
    (start : P (.ofNodes g.nodes))
    (set : ∀ g' b, (∃ a ∈ g.arcs, b.weight = a.weight) ∨ b.weight = Coordinate.half → P g' →
      P (g'.setArc b)) : P (ofGraph boxes g).graph := by
  have hChain : ∀ (a : Arc α) (pairs : List (String × String)) (g' : Digraph α), a ∈ g.arcs →
      P g' → P ((pairs.map (segment a)).foldl Digraph.setArc g') := by
    intro a pairs
    induction pairs with
    | nil => exact fun _ _ hg' => hg'
    | cons p pairs ih =>
      refine fun g' ha hg' => ih _ ha (set g' _ ?_ hg')
      unfold segment segmentWeight
      split
      · exact .inl ⟨a, ha, rfl⟩
      · exact .inr rfl
  have hArcs : ∀ e ∈ g.arcsByNode.zipIdx, e.1 ∈ g.arcs := by
    intro e he
    obtain ⟨n, _, hFrom⟩ := List.mem_flatMap.mp (List.fst_mem_of_mem_zipIdx he)
    exact (List.mem_filter.mp hFrom).1
  unfold ofGraph
  generalize g.arcsByNode.zipIdx = arcs at hArcs
  induction arcs using List.reverseRecOn with
  | nil => exact start
  | append_singleton arcs e ih =>
    rw [List.foldl_append, List.foldl_cons, List.foldl_nil, graph_addChain]
    exact hChain e.1 _ _ (hArcs e (by simp)) (ih fun d hd => hArcs d (List.mem_append_left _ hd))

theorem graph_foldl_addChain (start : Layered α) {arcs : List (Arc α × Nat)} (h : Numbered arcs) :
    (arcs.foldl (fun l e => l.addChain e.1 e.2) start).graph =
      (arcs.flatMap fun e => segments e.1 (dummies start.layers e)).foldl Digraph.setArc
        start.graph := by
  induction arcs using List.reverseRecOn with
  | nil => rfl
  | append_singleton arcs e ih =>
    have hEarlier : Numbered arcs := by
      obtain ⟨hPlain, hEnds, hNumbers⟩ := h
      rw [List.map_append, List.nodup_append] at hEnds hNumbers
      exact ⟨fun d hd => hPlain d (List.mem_append_left _ hd), hEnds.1, hNumbers.1⟩
    have hThreads := threads_foldl_addChain start hEarlier.plain hEarlier.ends hEarlier.numbers
    obtain ⟨hSource, hTarget⟩ := h.plain e (by simp)
    rw [List.foldl_append, List.foldl_cons, List.foldl_nil, graph_addChain, ih hEarlier,
      List.flatMap_append, List.foldl_append, List.flatMap_singleton]
    unfold dummies
    rw [hThreads.plain _ hSource, hThreads.plain _ hTarget]

/-- The chains of the numbered arcs make up the graph. Each arc leads to a later layer. -/
structure Woven (start : Layers) (arcs : List (Arc α × Nat)) (l : Layered α) : Prop
    extends Threads start arcs l where
  numbered : Numbered arcs
  later : ∀ e ∈ arcs, start.of e.1.source < start.of e.1.target
  arcs_eq : l.graph.arcs = arcs.flatMap fun e => segments e.1 (dummies start e)

theorem Numbered.nodup_pairs {layers : Layers} {arcs : List (Arc α × Nat)} (h : Numbered arcs)
    (hLater : ∀ e ∈ arcs, layers.of e.1.source < layers.of e.1.target) :
    ((arcs.flatMap fun e => segments e.1 (dummies layers e)).map Arc.ends).Nodup := by
  rw [List.map_flatMap]
  simp only [ends_segments]
  rw [List.nodup_flatMap]
  constructor
  · intro e he
    refine .of_map Prod.fst ?_
    rw [Arc.through, map_fst_consecutivePairs]
    exact (h.nodup_through he (hLater e he)).sublist ((List.sublist_append_left _ _).cons_cons _)
  · refine h.numbers.of_map.imp_of_mem fun {d e} hd he hOther p hp hp' => ?_
    exact hOther (h.eq_of_mem_consecutivePairs hd he hp hp')

section Woven

variable {start : Layers} {arcs : List (Arc α × Nat)} {l : Layered α} (h : Woven start arcs l)

include h

theorem Woven.simple : (l.graph.arcs.map Arc.ends).Nodup := by
  rw [h.arcs_eq]
  exact h.numbered.nodup_pairs h.later

theorem Woven.joins_iff (source target : String) : l.graph.Joins source target ↔
    ∃ e ∈ arcs, (source, target) ∈ (e.1.through (dummies start e)).consecutivePairs := by
  rw [Digraph.joins_iff_mem_ends, h.arcs_eq, List.map_flatMap]
  simp only [ends_segments, List.mem_flatMap]

variable {e : Arc α × Nat} (he : e ∈ arcs)

include he

theorem Woven.nodup_through : (e.1.through (dummies start e)).Nodup :=
  h.numbered.nodup_through he (h.later e he)

theorem Woven.layer_lt : l.layers.of e.1.source < l.layers.of e.1.target := by
  obtain ⟨hSource, hTarget⟩ := h.numbered.plain e he
  rw [h.plain _ hSource, h.plain _ hTarget]
  exact h.later e he

theorem Woven.isChain_through : (e.1.through (dummies start e)).IsChain l.graph.Joins :=
  isChain_iff_forall_consecutivePairs.mpr fun p hp => (h.joins_iff p.1 p.2).mpr ⟨e, he, hp⟩

theorem Woven.step_through {p : String × String}
    (hp : p ∈ (e.1.through (dummies start e)).consecutivePairs) :
    l.layers.of p.2 = l.layers.of p.1 + 1 := by
  have hRange := List.isChain_range' (l.layers.of e.1.source)
    (l.layers.of e.1.target - l.layers.of e.1.source + 1) 1
  obtain ⟨hSource, hTarget⟩ := h.numbered.plain e he
  rw [← h.map_through he hSource hTarget (h.layer_lt he), List.isChain_map,
    isChain_iff_forall_consecutivePairs] at hRange
  exact hRange p hp

theorem Woven.mem_pairs_of_dummy {d : String} (hd : d ∈ dummies start e) {p : String × String}
    (hJoins : l.graph.Joins p.1 p.2) (hEnd : p.1 = d ∨ p.2 = d) :
    p ∈ (e.1.through (dummies start e)).consecutivePairs := by
  obtain ⟨other, hOther, hPair⟩ := (h.joins_iff p.1 p.2).mp hJoins
  have hIn : d ∈ other.1.through (dummies start other) := by
    obtain ⟨hFirst, hSecond⟩ := mem_of_mem_consecutivePairs hPair
    exact hEnd.elim (· ▸ hFirst) (· ▸ hSecond)
  have hOwn := h.numbered.mem_dummies_of_mem_through hOther hIn hd
  rwa [h.numbered.eq_of_mem_dummies hOther he hOwn hd] at hPair

theorem Woven.fst_inj {p q : String × String}
    (hp : p ∈ (e.1.through (dummies start e)).consecutivePairs)
    (hq : q ∈ (e.1.through (dummies start e)).consecutivePairs) (hSame : p.1 = q.1) : p = q := by
  refine List.inj_on_of_nodup_map (f := Prod.fst) ?_ hp hq hSame
  rw [Arc.through, map_fst_consecutivePairs]
  exact (h.nodup_through he).sublist ((List.sublist_append_left _ _).cons_cons _)

theorem Woven.snd_inj {p q : String × String}
    (hp : p ∈ (e.1.through (dummies start e)).consecutivePairs)
    (hq : q ∈ (e.1.through (dummies start e)).consecutivePairs) (hSame : p.2 = q.2) : p = q := by
  refine List.inj_on_of_nodup_map (f := Prod.snd) ?_ hp hq hSame
  rw [Arc.through, map_snd_consecutivePairs]
  exact (List.nodup_cons.mp (h.nodup_through he)).2

theorem Woven.neighbours_of_dummy {d : String} (hd : d ∈ dummies start e) :
    (∃ p, l.graph.predecessors d = [p]) ∧ ∃ s, l.graph.successors d = [s] := by
  constructor
  · have hIn : d ∈ dummies start e ++ [e.1.target] := List.mem_append_left _ hd
    rw [← map_snd_consecutivePairs (x := e.1.source)] at hIn
    obtain ⟨⟨p, _⟩, hPair, rfl⟩ := List.mem_map.mp hIn
    refine ⟨p, Digraph.predecessors_eq_singleton h.simple fun q => ⟨fun hJoins => ?_, ?_⟩⟩
    · have hOther := h.mem_pairs_of_dummy he hd (p := (q, _)) hJoins (.inr rfl)
      exact congrArg Prod.fst (h.snd_inj he hOther hPair rfl)
    · rintro rfl
      exact (h.joins_iff _ _).mpr ⟨e, he, hPair⟩
  · have hIn : d ∈ e.1.source :: dummies start e := List.mem_cons_of_mem _ hd
    rw [← map_fst_consecutivePairs (y := e.1.target)] at hIn
    obtain ⟨⟨_, s⟩, hPair, rfl⟩ := List.mem_map.mp hIn
    refine ⟨s, Digraph.successors_eq_singleton h.simple fun q => ⟨fun hJoins => ?_, ?_⟩⟩
    · have hOther := h.mem_pairs_of_dummy he hd (p := (_, q)) hJoins (.inl rfl)
      exact congrArg Prod.snd (h.fst_inj he hOther hPair rfl)
    · rintro rfl
      exact (h.joins_iff _ _).mpr ⟨e, he, hPair⟩

theorem Woven.next_eq {before after : List String} {n next own : String}
    (hWay : e.1.through (dummies start e) = before ++ n :: own :: after)
    (hStep : (n, next) ∈ (e.1.through (dummies start e)).consecutivePairs) : next = own := by
  have hOwn : (n, own) ∈ (e.1.through (dummies start e)).consecutivePairs := by
    rw [hWay]
    exact mem_consecutivePairs_append before n own after
  exact congrArg Prod.snd (h.fst_inj he hStep hOwn rfl)

/-- Who goes on from a node of the way, by dummies only and then to a node that is none, keeps to
the way and comes to its end. -/
theorem Woven.keeps_to_way {before rest other : List String} {n last : String}
    (hWay : e.1.through (dummies start e) = before ++ n :: (rest ++ [e.1.target]))
    (hRest : ∀ d ∈ rest, d ∈ dummies start e)
    (hNext : ∀ next ∈ (other ++ [last]).head?,
      (n, next) ∈ (e.1.through (dummies start e)).consecutivePairs)
    (hChain : (other ++ [last]).IsChain l.graph.Joins) (hOther : ∀ d ∈ other, isDummy d = true)
    (hLast : isDummy last = false) : other = rest ∧ last = e.1.target := by
  obtain ⟨_, hTarget⟩ := h.numbered.plain e he
  induction other generalizing before n rest with
  | nil =>
    have hStep := hNext last rfl
    cases rest with
    | nil => exact ⟨rfl, h.next_eq he hWay hStep⟩
    | cons d rest =>
      have hDummy := isDummy_of_mem_dummies (hRest d List.mem_cons_self)
      rw [← h.next_eq he hWay hStep, hLast] at hDummy
      cases hDummy
  | cons o other ih =>
    have hStep := hNext o rfl
    obtain ⟨hHead, hTail⟩ := List.isChain_cons.mp hChain
    cases rest with
    | nil =>
      have hDummy := hOther o List.mem_cons_self
      rw [h.next_eq he hWay hStep, hTarget] at hDummy
      cases hDummy
    | cons d rest =>
      obtain rfl : o = d := h.next_eq he hWay hStep
      have hIn := hRest o List.mem_cons_self
      have hWay' : e.1.through (dummies start e) =
          (before ++ [n]) ++ o :: (rest ++ [e.1.target]) := by rw [hWay]; simp
      obtain ⟨rfl, hEnd⟩ := ih hWay' (fun d hd => hRest d (List.mem_cons_of_mem _ hd))
        (fun next hNext => h.mem_pairs_of_dummy he hIn (hHead next hNext) (.inl rfl))
        hTail (fun d hd => hOther d (List.mem_cons_of_mem _ hd))
      exact ⟨rfl, hEnd⟩

theorem Woven.eq_dummies_of_isChain {other : List String}
    (hChain : (e.1.through other).IsChain l.graph.Joins) (hOther : ∀ d ∈ other, isDummy d = true) :
    other = dummies start e := by
  obtain ⟨hHead, hTail⟩ := List.isChain_cons.mp hChain
  obtain ⟨next, after, hCons⟩ := List.exists_cons_of_ne_nil
    (List.append_ne_nil_of_right_ne_nil other (List.cons_ne_nil e.1.target []))
  have hFirst : next ∈ (other ++ [e.1.target]).head? := by rw [hCons]; rfl
  obtain ⟨d, hd, hPair⟩ := (h.joins_iff _ _).mp (hHead next hFirst)
  have hSource : e.1.source = d.1.source :=
    (List.mem_cons.mp
      (List.of_mem_zip (consecutivePairs_cons_concat _ _ _ ▸ hPair)).1).resolve_right
        (h.numbered.not_mem_dummies he d).1
  have hWay : d.1.through (dummies start d) =
      [] ++ d.1.source :: (dummies start d ++ [d.1.target]) := rfl
  obtain ⟨rfl, hTarget⟩ := h.keeps_to_way hd hWay (fun _ hn => hn)
    (fun other hOther => by
      rw [Option.mem_unique hOther hFirst, ← hSource]
      exact hPair) hTail hOther (h.numbered.plain e he).2
  rw [List.inj_on_of_nodup_map h.numbered.ends he hd (Prod.ext hSource hTarget)]

end Woven

/-! ## Graphs without cycles -/

/-- The arc is replaced by the way through a chain of new nodes, one in each layer between its ends,
and by no other way past new nodes. The first segment has the weight of the arc. -/
structure RunsThrough (l : Layered α) (g : Digraph α) (a : Arc α) (chain : List String) :
    Prop where
  filed : l.chains.get? a.ends = some chain
  fresh : ∀ d ∈ chain, d ∈ l.layers.keys ∧ d ∉ g.nodes
  path : l.graph.IsPath (a.through chain)
  only : ∀ other, (∀ d ∈ other, d ∉ g.nodes) → (a.through other).IsChain l.graph.Joins →
    other = chain
  layers : chain.map l.layers.of = List.range' (l.layers.of a.source + 1)
    (l.layers.of a.target - l.layers.of a.source - 1)
  weights : ∀ b ∈ l.graph.arcs, b.ends ∈ (a.through chain).consecutivePairs →
    b.weight = if b.source = a.source then a.weight else Coordinate.half

/-- The nodes of the graph are in the layers that the longest paths give them. Each arc is replaced
by a way through new nodes, and each arc of the layered graph belongs to the way of one of them and
leads to the next layer. Each new node is on the way of one arc and has no other neighbours. -/
structure Subdivides (l : Layered α) (g : Digraph α) : Prop where
  depth : ∀ n ∈ g.nodes, g.IsDepth n (l.layers.of n)
  proper : ∀ source target, l.graph.Joins source target →
    l.layers.of target = l.layers.of source + 1
  simple : (l.graph.arcs.map Arc.ends).Nodup
  replaced : ∀ a ∈ g.arcs, ∃ chain, l.RunsThrough g a chain
  covered : ∀ b ∈ l.graph.arcs, ∃! a, a ∈ g.arcs ∧
    ∃ chain, l.chains.get? a.ends = some chain ∧ b.ends ∈ (a.through chain).consecutivePairs
  owned : ∀ d ∈ l.layers.keys, d ∉ g.nodes →
    (∃ p, l.graph.predecessors d = [p]) ∧ (∃ s, l.graph.successors d = [s]) ∧
      ∃! a, a ∈ g.arcs ∧ ∃ chain, l.chains.get? a.ends = some chain ∧ d ∈ chain

section Graph

variable (boxes : Boxes α) {g : Digraph α} (h : g.IsProper) (hArcs : (g.arcs.map Arc.ends).Nodup)
  (hPlain : ∀ n ∈ g.nodes, isDummy n = false)
  (hAcyclic : ∀ n, ¬ Relation.TransGen g.Joins n n)

omit [Coordinate α] in
include h in
theorem mem_numbered_iff (a : Arc α) : (∃ number, (a, number) ∈ g.arcsByNode.zipIdx) ↔
    a ∈ g.arcs := by
  rw [← Digraph.mem_arcsByNode_iff (fun b hb => (h.ends _ _ ⟨b, hb, rfl, rfl⟩).1),
    List.mem_iff_getElem?]
  simp only [List.mem_zipIdx_iff_getElem?]

include h hArcs hPlain

omit [Coordinate α] in
theorem numbered_arcsByNode : Numbered g.arcsByNode.zipIdx := by
  refine ⟨fun e he => ?_, ?_, ?_⟩
  · have hArc := (mem_numbered_iff h e.1).mp ⟨e.2, he⟩
    exact (h.ends _ _ ⟨e.1, hArc, rfl, rfl⟩).imp (hPlain _) (hPlain _)
  · change (g.arcsByNode.zipIdx.map (Arc.ends ∘ Prod.fst)).Nodup
    rw [← List.map_map, List.zipIdx_map_fst]
    exact Digraph.nodup_ends_arcsByNode h.nodes hArcs
  · rw [List.zipIdx_map_snd]
    exact List.nodup_range'

include hAcyclic in
theorem woven_ofGraph : Woven (Layers.assign g g.topologicalOrder) g.arcsByNode.zipIdx
    (ofGraph boxes g) := by
  have hNumbered := numbered_arcsByNode h hArcs hPlain
  have hEnds : ∀ a ∈ g.arcs, a.source ∈ g.nodes ∧ a.target ∈ g.nodes :=
    fun a ha => h.ends _ _ ⟨a, ha, rfl, rfl⟩
  have hThreads := threads_ofGraph boxes h.nodes hArcs (fun a ha => (hEnds a ha).1) fun a ha =>
    (hEnds a ha).imp (hPlain _) (hPlain _)
  have hMeasure := Layers.measurePaths_assign h hAcyclic
    (Digraph.isTopological_topologicalOrder h hAcyclic)
  have hLater : ∀ e ∈ g.arcsByNode.zipIdx,
      (Layers.assign g g.topologicalOrder).of e.1.source <
        (Layers.assign g g.topologicalOrder).of e.1.target := fun e he =>
    hMeasure.later _ _ ⟨e.1, (mem_numbered_iff h e.1).mp ⟨e.2, he⟩, rfl, rfl⟩
  refine ⟨hThreads, hNumbered, hLater, ?_⟩
  unfold ofGraph
  rw [graph_foldl_addChain _ hNumbered]
  exact Digraph.arcs_foldl_setArc (hNumbered.nodup_pairs hLater)

theorem nodes_ofGraph : (ofGraph boxes g).graph.nodes = g.nodes := by
  unfold ofGraph
  rw [graph_foldl_addChain _ (numbered_arcsByNode h hArcs hPlain), Digraph.nodes_foldl_setArc]
  rfl

include hAcyclic

/-- What is at an end of an arc of the layered graph and no node of the graph is a dummy. -/
theorem exists_dummies_of_joins {p : String × String}
    (hJoins : (ofGraph boxes g).graph.Joins p.1 p.2) {d : String} (hEnd : p.1 = d ∨ p.2 = d)
    (hNew : d ∉ g.nodes) :
    ∃ e ∈ g.arcsByNode.zipIdx, d ∈ dummies (Layers.assign g g.topologicalOrder) e := by
  have hWoven := woven_ofGraph boxes h hArcs hPlain hAcyclic
  obtain ⟨e, he, hPair⟩ := (hWoven.joins_iff p.1 p.2).mp hJoins
  obtain ⟨hFirst, hSecond⟩ := mem_of_mem_consecutivePairs hPair
  have hIn : d ∈ e.1.through (dummies (Layers.assign g g.topologicalOrder) e) :=
    hEnd.elim (· ▸ hFirst) (· ▸ hSecond)
  obtain ⟨hSource, hTarget⟩ := h.ends _ _ ⟨e.1, (mem_numbered_iff h e.1).mp ⟨e.2, he⟩, rfl, rfl⟩
  simp only [Arc.through, List.mem_cons, List.mem_append, List.not_mem_nil, or_false] at hIn
  rcases hIn with rfl | hDummy | rfl
  · exact absurd hSource hNew
  · exact ⟨e, he, hDummy⟩
  · exact absurd hTarget hNew

variable (hBoxes : ∀ n ∈ g.nodes, n ∈ boxes.keys)

include hBoxes

theorem runsThrough_ofGraph {e : Arc α × Nat} (he : e ∈ g.arcsByNode.zipIdx) :
    (ofGraph boxes g).RunsThrough g e.1 (dummies (Layers.assign g g.topologicalOrder) e) := by
  have hWoven := woven_ofGraph boxes h hArcs hPlain hAcyclic
  have hHoused := (housed_ofGraph hBoxes fun a ha => h.ends _ _ ⟨a, ha, rfl, rfl⟩).1
  obtain ⟨hSource, hTarget⟩ := hWoven.numbered.plain e he
  refine ⟨hWoven.filed e he, fun d hd => ⟨?_, fun hNode => ?_⟩,
    ⟨hWoven.nodup_through he, hWoven.isChain_through he⟩, fun other hNew hChain => ?_,
    hWoven.map_of_dummies he hSource hTarget, fun b hb hPair => ?_⟩
  · exact hHoused.chained _ _ (hWoven.filed e he) d hd
  · have hDummy := isDummy_of_mem_dummies hd
    rw [hPlain d hNode] at hDummy
    cases hDummy
  · refine hWoven.eq_dummies_of_isChain he hChain fun d hd => ?_
    have hIn : d ∈ other ++ [e.1.target] := List.mem_append_left _ hd
    rw [← map_snd_consecutivePairs (x := e.1.source)] at hIn
    obtain ⟨p, hPair, hEnd⟩ := List.mem_map.mp hIn
    obtain ⟨d', _, hDummy⟩ := exists_dummies_of_joins boxes h hArcs hPlain hAcyclic
      (isChain_iff_forall_consecutivePairs.mp hChain p hPair) (.inr hEnd) (hNew d hd)
    exact isDummy_of_mem_dummies hDummy
  · rw [hWoven.arcs_eq] at hb
    obtain ⟨d, hd, hSegment⟩ := List.mem_flatMap.mp hb
    obtain ⟨p, hOwn, rfl⟩ := List.mem_map.mp hSegment
    rw [hWoven.numbered.eq_of_mem_consecutivePairs hd he hOwn hPair]
    simp only [segment, segmentWeight, beq_iff_eq]

theorem subdivides_ofGraph : (ofGraph boxes g).Subdivides g := by
  have hWoven := woven_ofGraph boxes h hArcs hPlain hAcyclic
  have hHoused := (housed_ofGraph hBoxes fun a ha => h.ends _ _ ⟨a, ha, rfl, rfl⟩).1
  have hRuns := fun {e} he => runsThrough_ofGraph boxes h hArcs hPlain hAcyclic hBoxes (e := e) he
  have hMeasure := Layers.measurePaths_assign h hAcyclic
    (Digraph.isTopological_topologicalOrder h hAcyclic)
  have hChain : ∀ a ∈ g.arcs, ∀ chain, (ofGraph boxes g).chains.get? a.ends = some chain →
      ∃ e ∈ g.arcsByNode.zipIdx, e.1 = a ∧
        chain = dummies (Layers.assign g g.topologicalOrder) e := by
    intro a ha chain hFiled
    obtain ⟨number, hNumber⟩ := (mem_numbered_iff h a).mpr ha
    refine ⟨(a, number), hNumber, rfl, ?_⟩
    exact Option.some.inj (hFiled.symm.trans (hWoven.filed _ hNumber))
  refine ⟨fun n hn => ?_, fun source target hJoins => ?_, hWoven.simple, fun a ha => ?_,
    fun b hb => ?_, fun d hd hNew => ?_⟩
  · rw [hWoven.plain n (hPlain n hn)]
    exact hMeasure.depth n hn
  · obtain ⟨e, he, hPair⟩ := (hWoven.joins_iff source target).mp hJoins
    exact hWoven.step_through he hPair
  · obtain ⟨number, hNumber⟩ := (mem_numbered_iff h a).mpr ha
    exact ⟨_, hRuns hNumber⟩
  · obtain ⟨e, he, hPair⟩ := (hWoven.joins_iff _ _).mp ⟨b, hb, rfl, rfl⟩
    refine ⟨e.1, ⟨(mem_numbered_iff h e.1).mp ⟨e.2, he⟩, _, hWoven.filed e he, hPair⟩, ?_⟩
    rintro a ⟨ha, chain, hFiled, hOther⟩
    obtain ⟨d, hd, rfl, rfl⟩ := hChain a ha chain hFiled
    rw [hWoven.numbered.eq_of_mem_consecutivePairs hd he hOther hPair]
  · obtain ⟨e, he, hOwn⟩ : ∃ e ∈ g.arcsByNode.zipIdx,
        d ∈ dummies (Layers.assign g g.topologicalOrder) e := by
      rcases hHoused.known d hd with hNode | ⟨m, hInto | hFrom⟩
      · rw [nodes_ofGraph boxes h hArcs hPlain] at hNode
        exact absurd hNode hNew
      · exact exists_dummies_of_joins boxes h hArcs hPlain hAcyclic (p := (m, d)) hInto (.inr rfl)
          hNew
      · exact exists_dummies_of_joins boxes h hArcs hPlain hAcyclic (p := (d, m)) hFrom (.inl rfl)
          hNew
    obtain ⟨hBefore, hBehind⟩ := hWoven.neighbours_of_dummy he hOwn
    refine ⟨hBefore, hBehind, e.1,
      ⟨(mem_numbered_iff h e.1).mp ⟨e.2, he⟩, _, hWoven.filed e he, hOwn⟩, ?_⟩
    rintro a ⟨ha, chain, hFiled, hOther⟩
    obtain ⟨d', hd', rfl, rfl⟩ := hChain a ha chain hFiled
    rw [hWoven.numbered.eq_of_mem_dummies hd' he hOther hOwn]

end Graph

end Layered

variable [Coordinate α]

/-- In the oriented graph of any routes that have no cycle, long arcs become chains through the
layers between their ends, and each route passes the chain of its pair from its own source to its
own target. -/
theorem long_arcs_become_chains {boxes : Boxes α} {routes : List OrientedRoute}
    (hDistinct : boxes.keys.Nodup) (hPlain : ∀ id ∈ boxes.keys, isDummy id = false)
    (hEnds : ∀ r ∈ routes, r.upper ∈ boxes.keys ∧ r.lower ∈ boxes.keys)
    (hAcyclic : ∀ n, ¬ Relation.TransGen (orientedGraph boxes routes).Joins n n) :
    let g := orientedGraph boxes routes
    let l := Layered.ofGraph boxes g
    l.Subdivides g ∧ ∀ r ∈ routes, r.route.isLoop = false →
      ∃ a ∈ g.arcs, a.source = r.upper ∧ a.target = r.lower ∧
        ∃ chain, l.chains.get? a.ends = some chain ∧
          r.route.source :: (l.chainOf r ++ [r.route.target]) =
            if r.turned then (a.through chain).reverse else a.through chain := by
  intro g l
  have hNodes : g.nodes = boxes.keys := orientedGraph_nodes boxes routes
  have hProper : g.IsProper := by
    refine ⟨hNodes ▸ hDistinct, ?_⟩
    rintro _ _ ⟨a, ha, rfl, rfl⟩
    obtain ⟨r, hr, _, rfl⟩ := mem_arcs_orientedGraph ha
    exact hNodes ▸ hEnds r hr
  have hArcs : (g.arcs.map Arc.ends).Nodup :=
    Digraph.nodup_ends_foldl_addArc _ _ List.nodup_nil
  have hSubdivides : l.Subdivides g := Layered.subdivides_ofGraph boxes hProper hArcs
    (fun n hn => hPlain n (hNodes ▸ hn)) hAcyclic fun n hn => hNodes ▸ hn
  refine ⟨hSubdivides, fun r hr hLoop => ?_⟩
  obtain ⟨a, ha, hUpper, hLower⟩ := joins_orientedGraph boxes hr hLoop
  obtain ⟨chain, hRuns⟩ := hSubdivides.replaced a ha
  refine ⟨a, ha, hUpper, hLower, chain, hRuns.filed, ?_⟩
  have hFiled := hRuns.filed
  rw [Arc.ends, hUpper, hLower] at hFiled
  rw [Layered.way_eq hLoop hFiled, Arc.through, hUpper, hLower]

/-- An arc is a short cut beside a way of two arcs. One route takes it from a handle, one takes it
backwards, and the last one is a loop. -/
theorem short_cut_becomes_chain :
    let box (index : Nat) (handles : OrderedMap Name Rat) : Box Rat :=
      ⟨⟨10, 10⟩, index, none, handles, ⟨0, 0⟩⟩
    let boxes : Boxes Rat :=
      ⟨[("A", box 0 ⟨[(.text "A-b", 3 / 4)]⟩), ("B", box 1 .empty), ("C", box 2 .empty)]⟩
    let short : OrientedRoute := ⟨⟨.absent, "A", "C", some (.text "A-b")⟩, false⟩
    let back : OrientedRoute := ⟨⟨.absent, "C", "A", none⟩, true⟩
    let routes : List OrientedRoute := [short, ⟨⟨.absent, "A", "B", none⟩, false⟩,
      ⟨⟨.absent, "B", "C", none⟩, false⟩, back, ⟨⟨.absent, "B", "B", none⟩, false⟩]
    let g := orientedGraph boxes routes
    let l := Layered.ofGraph boxes g
    (l.Subdivides g ∧ ∀ r ∈ routes, r.route.isLoop = false →
      ∃ a ∈ g.arcs, a.source = r.upper ∧ a.target = r.lower ∧
        ∃ chain, l.chains.get? a.ends = some chain ∧
          r.route.source :: (l.chainOf r ++ [r.route.target]) =
            if r.turned then (a.through chain).reverse else a.through chain) ∧
      l.chainOf short = ["__dummy_0_1"] ∧ l.chainOf back = ["__dummy_0_1"] ∧
      l.graph.arcs = [⟨"A", "__dummy_0_1", 3 / 4⟩, ⟨"__dummy_0_1", "C", 1 / 2⟩,
        ⟨"A", "B", 1 / 2⟩, ⟨"B", "C", 1 / 2⟩] := by
  intro box boxes short back routes g l
  have hRank : ∀ a ∈ g.arcs, boxes.keys.idxOf a.source < boxes.keys.idxOf a.target := by
    decide +kernel
  refine ⟨long_arcs_become_chains (by decide) (by decide) (by decide)
    (Digraph.not_transGen_self boxes.keys.idxOf hRank), ?_, ?_, ?_⟩ <;> decide +kernel

end TypeDiagram.Layout
