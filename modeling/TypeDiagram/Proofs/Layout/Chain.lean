import Std.Data.String.ToNat
import TypeDiagram.Proofs.Layout.Echo
import TypeDiagram.Proofs.Layout.LongestPath

/-! # Chains pass the layers between their ends one by one

The dummies of an arc are named by its number and by their distance from its upper end, and no two
names are the same. So a chain that is added later leaves earlier dummies in their layers, and along
a route each box is one layer further than the one before.
-/

namespace TypeDiagram.Layout

variable {α : Type}

/-! ## Names of dummies -/

theorem underscore_notMem_toString (n : Nat) : '_' ∉ (toString n).toList := by
  rw [Nat.toString_eq_repr, Nat.toList_repr]
  exact fun hIn => absurd (Nat.isDigit_of_mem_toDigits (by decide) (by decide) hIn) (by decide)

theorem dummyId_inj {arc step arc' step' : Nat} :
    Layered.dummyId arc step = Layered.dummyId arc' step' ↔ arc = arc' ∧ step = step' := by
  refine ⟨fun hSame => ?_, fun ⟨hArc, hStep⟩ => hArc ▸ hStep ▸ rfl⟩
  have hMark : ∀ s : String, ("_" ++ s).toList = '_' :: s.toList := fun _ => String.toList_append
  have hLetters := congrArg String.toList hSame
  simp only [Layered.dummyId, String.append_assoc, String.toList_append (s := dummyPrefix),
    List.append_cancel_left_eq] at hLetters
  rw [String.toList_append (s := toString arc), String.toList_append (s := toString arc'), hMark,
    hMark, List.append_cons_inj_of_notMem (underscore_notMem_toString arc)
      (underscore_notMem_toString step)] at hLetters
  obtain ⟨hArc, _, hStep⟩ := hLetters
  exact ⟨Nat.repr_injective (String.toList_injective hArc),
    Nat.repr_injective (String.toList_injective hStep)⟩

def Arc.through (a : Arc α) (between : List String) : List String :=
  a.source :: (between ++ [a.target])

namespace Layers

theorem of_insert (layers : Layers) (m : String) (layer : Nat) (n : String) :
    of (layers.insert m layer) n = if n = m then layer else layers.of n := by
  unfold of
  rw [OrderedMap.get?_insert]
  split <;> rfl

end Layers

variable [Coordinate α]

namespace Layered

/-! ## One chain -/

section Growth

variable {number : Nat} {a : Arc α} {l : Layered α} {steps : List Nat}

theorem chain_foldl_grow (number : Nat) (a : Arc α) (l : Layered α) (steps : List Nat) :
    (steps.foldl (grow number a) ⟨l, [], a.source⟩).chain = steps.map (dummyId number) := by
  induction steps using List.reverseRecOn with
  | nil => rfl
  | append_singleton steps step ih =>
    rw [List.foldl_append, List.map_append]
    exact congrArg (· ++ [dummyId number step]) ih

theorem of_foldl_grow_of_notMem {n : String} (h : n ∉ steps.map (dummyId number)) :
    (steps.foldl (grow number a) ⟨l, [], a.source⟩).layered.layers.of n = l.layers.of n := by
  induction steps using List.reverseRecOn with
  | nil => rfl
  | append_singleton steps step ih =>
    rw [List.map_append, List.mem_append, not_or] at h
    rw [List.foldl_append, List.foldl_cons, List.foldl_nil, grow, Layers.of_insert, if_neg]
    · exact ih h.1
    · exact fun hSame => h.2 (List.mem_singleton.mpr hSame)

theorem of_foldl_grow_of_mem (hPlain : isDummy a.source = false) {step : Nat} (h : step ∈ steps) :
    (steps.foldl (grow number a) ⟨l, [], a.source⟩).layered.layers.of (dummyId number step) =
      l.layers.of a.source + step := by
  have hSource : ∀ steps : List Nat, a.source ∉ steps.map (dummyId number) := by
    intro steps hIn
    obtain ⟨other, _, hSame⟩ := List.mem_map.mp hIn
    rw [← hSame, isDummy_dummyId] at hPlain
    cases hPlain
  induction steps using List.reverseRecOn with
  | nil => cases h
  | append_singleton steps last ih =>
    rw [List.foldl_append, List.foldl_cons, List.foldl_nil, grow, Layers.of_insert]
    by_cases hLast : step = last
    · rw [if_pos (congrArg _ hLast), of_foldl_grow_of_notMem (hSource steps), hLast]
    · rw [if_neg (fun hSame => hLast (dummyId_inj.mp hSame).2)]
      refine ih ((List.mem_append.mp h).resolve_right fun hIn => hLast ?_)
      exact List.mem_singleton.mp hIn

end Growth

/-! ## All chains -/

def dummies (layers : Layers) (e : Arc α × Nat) : List String :=
  (List.range' 1 (layers.of e.1.target - layers.of e.1.source - 1)).map (dummyId e.2)

/-- The numbered arcs are split. The chain of each has its dummies, which are as many layers behind
its upper end as their names say; other nodes are in the layers that they began in. -/
structure Threads (start : Layers) (arcs : List (Arc α × Nat)) (l : Layered α) : Prop where
  plain : ∀ n, isDummy n = false → l.layers.of n = start.of n
  filed : ∀ e ∈ arcs, l.chains.get? e.1.ends = some (dummies start e)
  behind : ∀ e ∈ arcs, ∀ step, dummyId e.2 step ∈ dummies start e →
    l.layers.of (dummyId e.2 step) = start.of e.1.source + step

omit [Coordinate α] in
/-- The dummies of a chain are in the layers between the ends of its arc, one in each. -/
theorem Threads.map_of_dummies {start : Layers} {arcs : List (Arc α × Nat)} {l : Layered α}
    (h : Threads start arcs l) {e : Arc α × Nat} (he : e ∈ arcs)
    (hSource : isDummy e.1.source = false) (hTarget : isDummy e.1.target = false) :
    (dummies start e).map l.layers.of = List.range' (l.layers.of e.1.source + 1)
      (l.layers.of e.1.target - l.layers.of e.1.source - 1) := by
  rw [h.plain _ hSource, h.plain _ hTarget, ← List.map_add_range', dummies, List.map_map]
  exact List.map_congr_left fun step hStep => h.behind _ he step (List.mem_map_of_mem hStep)

omit [Coordinate α] in
/-- Along the way of an arc that leads to a later layer, the layers go up one by one. -/
theorem Threads.map_through {start : Layers} {arcs : List (Arc α × Nat)} {l : Layered α}
    (h : Threads start arcs l) {e : Arc α × Nat} (he : e ∈ arcs)
    (hSource : isDummy e.1.source = false) (hTarget : isDummy e.1.target = false)
    (hLess : l.layers.of e.1.source < l.layers.of e.1.target) :
    (e.1.through (dummies start e)).map l.layers.of = List.range' (l.layers.of e.1.source)
      (l.layers.of e.1.target - l.layers.of e.1.source + 1) := by
  obtain ⟨between, hBetween⟩ := Nat.exists_eq_add_of_lt hLess
  rw [Arc.through, List.map_cons, List.map_append, h.map_of_dummies he hSource hTarget,
    List.map_singleton, hBetween, Nat.add_assoc, Nat.add_sub_cancel_left, Nat.add_sub_cancel,
    List.range'_succ, List.range'_1_concat, Nat.add_right_comm, Nat.add_assoc]

theorem Threads.addChain {start : Layers} {arcs : List (Arc α × Nat)} {l : Layered α}
    (h : Threads start arcs l) {e : Arc α × Nat} (hSource : isDummy e.1.source = false)
    (hTarget : isDummy e.1.target = false) (hEnds : ∀ d ∈ arcs, d.1.ends ≠ e.1.ends)
    (hNumber : ∀ d ∈ arcs, d.2 ≠ e.2) : Threads start (arcs ++ [e]) (l.addChain e.1 e.2) := by
  let steps := List.range' 1 (start.of e.1.target - start.of e.1.source - 1)
  have hLayers : (l.addChain e.1 e.2).layers =
      (steps.foldl (grow e.2 e.1) ⟨l, [], e.1.source⟩).layered.layers := by
    unfold Layered.addChain
    rw [h.plain _ hSource, h.plain _ hTarget]
  have hChains : (l.addChain e.1 e.2).chains = l.chains.insert e.1.ends (dummies start e) := by
    unfold Layered.addChain
    rw [h.plain _ hSource, h.plain _ hTarget]
    dsimp only
    rw [chain_foldl_grow, (extends_foldl_grow e.2 e.1 l _).chains]
    rfl
  constructor
  · intro n hPlain
    rw [hLayers]
    refine (of_foldl_grow_of_notMem fun hIn => ?_).trans (h.plain n hPlain)
    obtain ⟨step, _, rfl⟩ := List.mem_map.mp hIn
    rw [isDummy_dummyId] at hPlain
    cases hPlain
  · intro d hd
    rw [hChains, OrderedMap.get?_insert]
    rcases List.mem_append.mp hd with hEarlier | hLast
    · rw [if_neg (hEnds d hEarlier)]
      exact h.filed d hEarlier
    · rw [List.mem_singleton.mp hLast, if_pos rfl]
  · intro d hd step hStep
    rw [hLayers]
    rcases List.mem_append.mp hd with hEarlier | hLast
    · refine (of_foldl_grow_of_notMem fun hIn => ?_).trans (h.behind d hEarlier step hStep)
      obtain ⟨_, _, hSame⟩ := List.mem_map.mp hIn
      exact hNumber d hEarlier (dummyId_inj.mp hSame).1.symm
    · rw [List.mem_singleton.mp hLast] at hStep ⊢
      obtain ⟨other, hOther, hSame⟩ := List.mem_map.mp hStep
      rw [(dummyId_inj.mp hSame).2] at hOther
      exact (of_foldl_grow_of_mem hSource hOther).trans (by rw [h.plain _ hSource])

theorem threads_foldl_addChain (start : Layered α) {arcs : List (Arc α × Nat)}
    (hPlain : ∀ e ∈ arcs, isDummy e.1.source = false ∧ isDummy e.1.target = false)
    (hEnds : (arcs.map fun e => e.1.ends).Nodup) (hNumbers : (arcs.map Prod.snd).Nodup) :
    Threads start.layers arcs (arcs.foldl (fun l e => l.addChain e.1 e.2) start) := by
  induction arcs using List.reverseRecOn with
  | nil =>
    exact ⟨fun _ _ => rfl, fun _ he => absurd he List.not_mem_nil,
      fun _ he => absurd he List.not_mem_nil⟩
  | append_singleton arcs e ih =>
    rw [List.map_append, List.nodup_append] at hEnds hNumbers
    obtain ⟨hSource, hTarget⟩ := hPlain e (by simp)
    rw [List.foldl_append]
    refine Threads.addChain (ih (fun d hd => hPlain d (List.mem_append_left _ hd)) hEnds.1
      hNumbers.1) hSource hTarget (fun d hd => ?_) fun d hd => ?_
    · exact hEnds.2.2 _ (List.mem_map_of_mem hd) _ (by simp)
    · exact hNumbers.2.2 _ (List.mem_map_of_mem hd) _ (by simp)

theorem threads_ofGraph (boxes : Boxes α) {g : Digraph α} (hNodes : g.nodes.Nodup)
    (hArcs : (g.arcs.map Arc.ends).Nodup) (hSources : ∀ a ∈ g.arcs, a.source ∈ g.nodes)
    (hPlain : ∀ a ∈ g.arcs, isDummy a.source = false ∧ isDummy a.target = false) :
    Threads (Layers.assign g g.topologicalOrder) g.arcsByNode.zipIdx (ofGraph boxes g) := by
  refine threads_foldl_addChain ⟨boxes, Layers.assign g g.topologicalOrder, .ofNodes g.nodes,
    .empty⟩ (fun e he => ?_) ?_ ?_
  · exact hPlain e.1 ((Digraph.mem_arcsByNode_iff hSources e.1).mp (List.fst_mem_of_mem_zipIdx he))
  · change (g.arcsByNode.zipIdx.map (Arc.ends ∘ Prod.fst)).Nodup
    rw [← List.map_map, List.zipIdx_map_fst]
    exact Digraph.nodup_ends_arcsByNode hNodes hArcs
  · rw [List.zipIdx_map_snd]
    exact List.nodup_range'

omit [Coordinate α] in
/-- A route follows the chain of its pair from the upper end to the lower one, or back if it is
turned. -/
theorem way_eq {l : Layered α} {r : OrientedRoute} (hLoop : r.route.isLoop = false)
    {chain : List String} (hChain : l.chains.get? (r.upper, r.lower) = some chain) :
    r.route.source :: (l.chainOf r ++ [r.route.target]) =
      if r.turned then (r.upper :: (chain ++ [r.lower])).reverse
      else r.upper :: (chain ++ [r.lower]) := by
  unfold chainOf
  rw [hLoop, if_neg Bool.false_ne_true, hChain, Option.getD_some]
  unfold OrientedRoute.upper OrientedRoute.lower
  cases r.turned <;> simp

end Layered

/-! ## Routes -/

section Planned

variable {r : Resolved α} (h : WellRouted r.boxes r.routes)
  (hPlain : ∀ id ∈ r.boxes.keys, isDummy id = false) {route : OrientedRoute}
  (hRoute : route ∈ (planOf r).routes) (hLoop : route.route.isLoop = false)

include h hPlain hRoute hLoop

/-- The chain of a route leads from its upper to its lower end through every layer between. -/
theorem WellRouted.exists_chain : ∃ chain,
    (planOf r).layered.chains.get? (route.upper, route.lower) = some chain ∧
      (route.upper :: (chain ++ [route.lower])).map (planOf r).layered.layers.of =
        List.range' ((planOf r).layered.layers.of route.upper)
          ((planOf r).layered.layers.of route.lower -
            (planOf r).layered.layers.of route.upper + 1) := by
  let g := orientedGraph r.boxes (orient r.boxes r.routes)
  have hNodes : g.nodes = r.boxes.keys := orientedGraph_nodes _ _
  have hThreads : Layered.Threads (Layers.assign g g.topologicalOrder) g.arcsByNode.zipIdx
      (planOf r).layered := by
    refine Layered.threads_ofGraph r.boxes (hNodes ▸ h.distinct)
      (Digraph.nodup_ends_foldl_addArc _ _ List.nodup_nil) (fun a ha => ?_) fun a ha => ?_
    · exact hNodes ▸ (h.arc_ends ha).1
    · exact (h.arc_ends ha).imp (hPlain _) (hPlain _)
  obtain ⟨a, ha, hUpper, hLower⟩ := joins_orientedGraph r.boxes hRoute hLoop
  obtain ⟨hSource, hTarget⟩ := h.arc_ends ha
  obtain ⟨number, hNumber⟩ := List.mem_iff_getElem?.mp
    ((Digraph.mem_arcsByNode_iff (fun b hb => hNodes ▸ (h.arc_ends hb).1) a).mpr ha)
  have hIn : (a, number) ∈ g.arcsByNode.zipIdx := List.mem_zipIdx_iff_getElem?.mpr hNumber
  have hLess := h.layer_upper_lt_lower hPlain hRoute hLoop
  change (planOf r).layered.layers.of _ < (planOf r).layered.layers.of _ at hLess
  rw [← hUpper, ← hLower] at hLess ⊢
  exact ⟨_, hThreads.filed _ hIn,
    hThreads.map_through hIn (hPlain _ hSource) (hPlain _ hTarget) hLess⟩

/-- From box to box along a route, the layers go up, or down if the route is turned. -/
theorem WellRouted.pairwise_route :
    (route.route.source :: ((planOf r).layered.chainOf route ++ [route.route.target])).Pairwise
      fun m n => if route.turned then
        (planOf r).layered.layers.of n < (planOf r).layered.layers.of m
      else (planOf r).layered.layers.of m < (planOf r).layered.layers.of n := by
  obtain ⟨chain, hChain, hLayers⟩ := h.exists_chain hPlain hRoute hLoop
  have hUp : (route.upper :: (chain ++ [route.lower])).Pairwise fun m n =>
      (planOf r).layered.layers.of m < (planOf r).layered.layers.of n := by
    rw [← List.pairwise_map, hLayers]
    exact List.pairwise_lt_range' 1
  rw [Layered.way_eq hLoop hChain]
  split
  · rw [List.pairwise_reverse]
    exact hUp
  · exact hUp

end Planned

end TypeDiagram.Layout
