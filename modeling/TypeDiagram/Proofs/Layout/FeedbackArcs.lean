import TypeDiagram.Proofs.Layout.LongestPath
import Mathlib.Algebra.Order.BigOperators.Group.List
import Mathlib.Algebra.Order.Ring.Nat
import Mathlib.Data.Fintype.Card
import Mathlib.Data.Fintype.EquivFin
import Mathlib.Data.Fintype.Sets

/-! # Few arcs run backwards

Taking sinks or sources turns no arc. A single node is taken where its excess is greatest; degrees
among the remaining nodes add up to the same, so it has at least as many outgoing arcs as incoming
ones, and of the arcs that are taken with it at most half run backwards. If there is no cycle, some
node is always a sink, and no arc runs backwards at all.
-/

namespace TypeDiagram.Layout.Digraph

variable {α : Type}

/-! ## Counting arcs -/

theorem countP_split {β : Type} (p q : β → Bool) (xs : List β) :
    xs.countP p = xs.countP (fun x => p x && q x) + xs.countP (fun x => p x && !q x) := by
  rw [List.countP_eq_countP_filter_add xs p q, List.countP_filter, List.countP_filter]

def inside (nodes : List String) (a : Arc α) : Bool :=
  nodes.contains a.source && nodes.contains a.target

theorem inside_iff {nodes : List String} {a : Arc α} :
    inside nodes a = true ↔ a.source ∈ nodes ∧ a.target ∈ nodes := by
  simp [inside]

theorem outDegree_eq (g : Digraph α) (among : List String) (node : String) :
    g.outDegree among node =
      g.arcs.countP fun a => among.contains a.target && a.source == node := by
  rw [outDegree, successors, arcsFrom, List.filter_map, List.length_map, List.filter_filter,
    List.countP_eq_length_filter]
  rfl

theorem inDegree_eq (g : Digraph α) (among : List String) (node : String) :
    g.inDegree among node =
      g.arcs.countP fun a => among.contains a.source && a.target == node := by
  rw [inDegree, predecessors, arcsInto, List.filter_map, List.length_map, List.filter_filter,
    List.countP_eq_length_filter]
  rfl

theorem sum_countP {β : Type} (key : β → String) (p : β → Bool) (xs : List β) {keys : List String}
    (h : keys.Nodup) : (keys.map fun k => xs.countP fun x => p x && key x == k).sum =
      xs.countP fun x => p x && keys.contains (key x) := by
  induction keys with
  | nil => simp
  | cons k keys ih =>
    obtain ⟨hNew, hRest⟩ := List.nodup_cons.mp h
    rw [List.map_cons, List.sum_cons, ih hRest,
      countP_split (fun x => p x && (k :: keys).contains (key x)) (fun x => key x == k)]
    congr 1
    · refine List.countP_congr fun x _ => ?_
      by_cases hKey : key x = k <;> simp [hKey]
    · refine List.countP_congr fun x _ => ?_
      by_cases hKey : key x = k <;> simp [hKey, hNew]

theorem sum_outDegree_eq_sum_inDegree (g : Digraph α) {active : List String} (h : active.Nodup) :
    (active.map (g.outDegree active)).sum = (active.map (g.inDegree active)).sum := by
  have hOut := sum_countP Arc.source (fun a => active.contains a.target) g.arcs h
  have hIn := sum_countP Arc.target (fun a => active.contains a.source) g.arcs h
  simp only [← outDegree_eq, ← inDegree_eq] at hOut hIn
  rw [hOut, hIn]
  exact List.countP_congr fun a _ => by rw [Bool.and_comm]

theorem excess_le_mostOutgoing (g : Digraph α) (among others : List String) (best : String) :
    ∀ n ∈ best :: others, g.excess among n ≤ g.excess among (g.mostOutgoing among others best) := by
  induction others generalizing best with
  | nil =>
    intro n hn
    rw [List.mem_singleton.mp hn]
    exact le_refl _
  | cons other others ih =>
    intro n hn
    rw [mostOutgoing]
    have hBetter := ih (if g.excess among best < g.excess among other then other else best)
    have hFirst := hBetter _ List.mem_cons_self
    rcases List.mem_cons.mp hn with rfl | hLater
    · refine le_trans ?_ hFirst
      split <;> omega
    · rcases List.mem_cons.mp hLater with rfl | hRest
      · refine le_trans ?_ hFirst
        split <;> omega
      · exact hBetter n (List.mem_cons_of_mem _ hRest)

theorem inDegree_le_outDegree_of_greatest (g : Digraph α) {active : List String}
    (h : active.Nodup) {best : String} (hBest : best ∈ active)
    (hGreatest : ∀ n ∈ active, g.excess active n ≤ g.excess active best) :
    g.inDegree active best ≤ g.outDegree active best := by
  by_contra hMore
  have hAll : ∀ n ∈ active, g.outDegree active n < g.inDegree active n := by
    intro n hn
    have := hGreatest n hn
    unfold excess at this
    omega
  have hLess := List.sum_lt_sum_of_ne_nil (List.ne_nil_of_mem hBest) _ _ hAll
  rw [g.sum_outDegree_eq_sum_inDegree h] at hLess
  exact lt_irrefl _ hLess

/-! ## One round -/

theorem nodup_without {nodes : List String} (h : nodes.Nodup) (taken : List String) :
    (without nodes taken).Nodup := h.filter _

theorem arrange_cases (g : Digraph α) {active : List String} (h : active.Nodup)
    (hActive : active ≠ []) :
    (g.arrange active =
        g.arrange (without active (g.sinks active)) ++ (g.sinks active).reverse ∧
      g.sinks active ≠ []) ∨
    (g.arrange active = g.sources active ++ g.arrange (without active (g.sources active)) ∧
      g.sinks active = [] ∧ g.sources active ≠ []) ∨
    ∃ best ∈ active, g.arrange active = [best] ++ g.arrange (without active [best]) ∧
      g.sinks active = [] ∧ g.inDegree active best ≤ g.outDegree active best := by
  obtain ⟨_, hSub, hNe⟩ := g.nextTaken_spec h
  have hLess := length_without_lt (hNe hActive) hSub
  rw [arrange]
  simp only [hLess, if_true]
  by_cases hSinks : g.sinks active = []
  · rw [hSinks]
    by_cases hSources : g.sources active = []
    · obtain ⟨first, others, rfl⟩ := List.exists_cons_of_ne_nil hActive
      have hTaken : g.nextTaken (first :: others) =
          [g.mostOutgoing (first :: others) others first] := by
        simp [nextTaken, hSinks, hSources]
      have hBest := g.mostOutgoing_mem (first :: others) others first
      rw [hTaken]
      exact .inr (.inr ⟨_, hBest, rfl, rfl, g.inDegree_le_outDegree_of_greatest h hBest
        (g.excess_le_mostOutgoing (first :: others) others first)⟩)
    · have hTaken : g.nextTaken active = g.sources active := by
        simp [nextTaken, hSinks, hSources]
      rw [hTaken]
      exact .inr (.inl ⟨rfl, rfl, hSources⟩)
  · have hTaken : g.nextTaken active = g.sinks active := by
      simp [nextTaken, hSinks]
    rw [hTaken]
    exact .inl ⟨by simp [hSinks], hSinks⟩

theorem mem_arrange_iff (g : Digraph α) {active : List String} (h : active.Nodup) (n : String) :
    n ∈ g.arrange active ↔ n ∈ active := (g.arrange_perm h).mem_iff

theorem source_not_mem_sinks {g : Digraph α} {active : List String} {a : Arc α} (ha : a ∈ g.arcs)
    (hTarget : a.target ∈ active) : a.source ∉ g.sinks active := by
  intro hSink
  have hNone := beq_iff_eq.mp (List.mem_filter.mp hSink).2
  rw [outDegree_eq, List.countP_eq_zero] at hNone
  exact hNone a ha (by simp [hTarget])

theorem target_not_mem_sources {g : Digraph α} {active : List String} {a : Arc α}
    (ha : a ∈ g.arcs) (hSource : a.source ∈ active) : a.target ∉ g.sources active := by
  intro hIn
  have hNone := beq_iff_eq.mp (List.mem_filter.mp hIn).2
  rw [inDegree_eq, List.countP_eq_zero] at hNone
  exact hNone a ha (by simp [hSource])

/-! ## Backward arcs -/

section Line

variable {first second : List String} {source target : String}

theorem isBackward_append_left (hSource : source ∈ first) (hTarget : target ∈ first) :
    isBackward (first ++ second) source target = isBackward first source target := by
  rw [isBackward, isBackward, List.idxOf_append_of_mem hSource, List.idxOf_append_of_mem hTarget]

theorem isBackward_append_right (hSource : source ∉ first) (hTarget : target ∉ first) :
    isBackward (first ++ second) source target = isBackward second source target := by
  rw [isBackward, isBackward, List.idxOf_append_of_notMem hSource,
    List.idxOf_append_of_notMem hTarget]
  simp

theorem isBackward_append_across (hSource : source ∈ first) (hTarget : target ∉ first) :
    isBackward (first ++ second) source target = false := by
  rw [isBackward, List.idxOf_append_of_mem hSource, List.idxOf_append_of_notMem hTarget]
  have := List.idxOf_lt_length_of_mem hSource
  exact decide_eq_false (by omega)

end Line

/-- The number of arcs among the nodes of a list that run backwards in their line. -/
def backwardAmong (g : Digraph α) (active : List String) : Nat :=
  g.arcs.countP fun a => inside active a && isBackward (g.arrange active) a.source a.target

theorem two_mul_backwardAmong_le_of_rest {g : Digraph α} {active : List String}
    (taken : List String)
    (hRest : ∀ a ∈ g.arcs, inside active a = true →
      isBackward (g.arrange active) a.source a.target = true →
      inside (without active taken) a = true ∧
        isBackward (g.arrange (without active taken)) a.source a.target = true)
    (ih : 2 * g.backwardAmong (without active taken) ≤
      g.arcs.countP (inside (without active taken))) :
    2 * g.backwardAmong active ≤ g.arcs.countP (inside active) := by
  have hFewer : g.backwardAmong active ≤ g.backwardAmong (without active taken) := by
    refine List.countP_mono_left fun a ha hBackward => ?_
    rw [Bool.and_eq_true] at hBackward ⊢
    exact hRest a ha hBackward.1 hBackward.2
  have hMore : g.arcs.countP (inside (without active taken)) ≤ g.arcs.countP (inside active) := by
    refine List.countP_mono_left fun a _ hInside => ?_
    obtain ⟨hSource, hTarget⟩ := inside_iff.mp hInside
    exact inside_iff.mpr ⟨(mem_without_iff.mp hSource).1, (mem_without_iff.mp hTarget).1⟩
  exact (Nat.mul_le_mul_left 2 hFewer).trans (ih.trans hMore)

section Round

variable {g : Digraph α} {active : List String}

/-- With the sinks at the end, an arc that runs backwards does so among the other nodes. -/
theorem backward_of_sinks (h : active.Nodup) {a : Arc α} (ha : a ∈ g.arcs)
    (hInside : inside active a = true)
    (hBackward : isBackward (g.arrange (without active (g.sinks active)) ++
      (g.sinks active).reverse) a.source a.target = true) :
    inside (without active (g.sinks active)) a = true ∧
      isBackward (g.arrange (without active (g.sinks active))) a.source a.target = true := by
  have hMem := g.mem_arrange_iff (nodup_without h (g.sinks active))
  obtain ⟨hSource, hTarget⟩ := inside_iff.mp hInside
  have hSourceRest : a.source ∈ without active (g.sinks active) :=
    mem_without_iff.mpr ⟨hSource, source_not_mem_sinks ha hTarget⟩
  have hSourceLine := (hMem a.source).mpr hSourceRest
  by_cases hTargetLine : a.target ∈ g.arrange (without active (g.sinks active))
  · rw [isBackward_append_left hSourceLine hTargetLine] at hBackward
    exact ⟨inside_iff.mpr ⟨hSourceRest, (hMem a.target).mp hTargetLine⟩, hBackward⟩
  · rw [isBackward_append_across hSourceLine hTargetLine] at hBackward
    cases hBackward

/-- With the sources in front, an arc that runs backwards does so among the other nodes. -/
theorem backward_of_sources {a : Arc α} (ha : a ∈ g.arcs) (hInside : inside active a = true)
    (hBackward : isBackward (g.sources active ++ g.arrange (without active (g.sources active)))
      a.source a.target = true) :
    inside (without active (g.sources active)) a = true ∧
      isBackward (g.arrange (without active (g.sources active))) a.source a.target = true := by
  obtain ⟨hSource, hTarget⟩ := inside_iff.mp hInside
  have hTargetRest := target_not_mem_sources ha hSource
  by_cases hIn : a.source ∈ g.sources active
  · rw [isBackward_append_across hIn hTargetRest] at hBackward
    cases hBackward
  · rw [isBackward_append_right hIn hTargetRest] at hBackward
    exact ⟨inside_iff.mpr ⟨mem_without_iff.mpr ⟨hSource, hIn⟩,
      mem_without_iff.mpr ⟨hTarget, hTargetRest⟩⟩, hBackward⟩

/-- With a single node in front, the arcs into it run backwards besides those among the others. -/
theorem backwardAmong_le_of_single {best : String}
    (hLine : g.arrange active = [best] ++ g.arrange (without active [best])) :
    g.backwardAmong active ≤ g.backwardAmong (without active [best]) + g.inDegree active best := by
  rw [backwardAmong, countP_split _ fun a => a.target == best, hLine, Nat.add_comm, inDegree_eq]
  refine Nat.add_le_add (List.countP_mono_left fun a _ hOther => ?_)
    (List.countP_mono_left fun a _ hInto => ?_)
  · simp only [Bool.and_eq_true, Bool.not_eq_true', beq_eq_false_iff_ne, inside_iff] at hOther ⊢
    obtain ⟨⟨⟨hSource, hTarget⟩, hBackward⟩, hNotInto⟩ := hOther
    have hTargetRest : a.target ∉ [best] := by simpa using hNotInto
    by_cases hFrom : a.source ∈ [best]
    · rw [isBackward_append_across hFrom hTargetRest] at hBackward
      cases hBackward
    · rw [isBackward_append_right hFrom hTargetRest] at hBackward
      exact ⟨⟨mem_without_iff.mpr ⟨hSource, hFrom⟩, mem_without_iff.mpr ⟨hTarget, hTargetRest⟩⟩,
        hBackward⟩
  · simp only [Bool.and_eq_true, inside_iff] at hInto
    simp [hInto.1.1.1, hInto.2]

/-- The arcs from a single node, those into it and those among the others are different arcs. -/
theorem degrees_le_of_single (hLoops : ∀ n, ¬ g.Joins n n) {best : String} (hBest : best ∈ active) :
    g.arcs.countP (inside (without active [best])) + g.inDegree active best +
      g.outDegree active best ≤ g.arcs.countP (inside active) := by
  rw [countP_split (inside active) fun a => a.source == best,
    countP_split (fun a => inside active a && !(a.source == best)) fun a => a.target == best,
    outDegree_eq, inDegree_eq]
  have hOut : g.arcs.countP (fun a => active.contains a.target && a.source == best) ≤
      g.arcs.countP fun a => inside active a && a.source == best := by
    refine List.countP_mono_left fun a _ hFrom => ?_
    simp only [Bool.and_eq_true, beq_iff_eq, inside_iff, List.contains_iff_mem] at hFrom ⊢
    exact ⟨⟨hFrom.2 ▸ hBest, hFrom.1⟩, hFrom.2⟩
  have hIn : g.arcs.countP (fun a => active.contains a.source && a.target == best) ≤
      g.arcs.countP fun a => (inside active a && !(a.source == best)) && a.target == best := by
    refine List.countP_mono_left fun a ha hInto => ?_
    simp only [Bool.and_eq_true, beq_iff_eq, inside_iff, List.contains_iff_mem, Bool.not_eq_true',
      beq_eq_false_iff_ne] at hInto ⊢
    exact ⟨⟨⟨hInto.1, hInto.2 ▸ hBest⟩, fun hLoop => hLoops best ⟨a, ha, hLoop, hInto.2⟩⟩, hInto.2⟩
  have hOthers : g.arcs.countP (inside (without active [best])) ≤
      g.arcs.countP fun a => (inside active a && !(a.source == best)) && !(a.target == best) := by
    refine List.countP_mono_left fun a _ hRest => ?_
    simp only [Bool.and_eq_true, inside_iff, Bool.not_eq_true', beq_eq_false_iff_ne,
      mem_without_iff, List.mem_singleton] at hRest ⊢
    exact ⟨⟨⟨hRest.1.1, hRest.2.1⟩, hRest.1.2⟩, hRest.2.2⟩
  omega

end Round

theorem two_mul_backwardAmong_le {g : Digraph α} (hLoops : ∀ n, ¬ g.Joins n n)
    {active : List String} (h : active.Nodup) :
    2 * g.backwardAmong active ≤ g.arcs.countP (inside active) := by
  by_cases hActive : active = []
  · subst hActive
    simp [backwardAmong, inside]
  rcases g.arrange_cases h hActive with ⟨hLine, hTaken⟩ | ⟨hLine, _, hTaken⟩ |
    ⟨best, hBest, hLine, _, hDegrees⟩
  · have hLess := length_without_lt hTaken (List.filter_subset_self _)
    refine two_mul_backwardAmong_le_of_rest (g.sinks active) ?_
      (two_mul_backwardAmong_le hLoops (nodup_without h (g.sinks active)))
    rw [hLine]
    exact fun a ha => backward_of_sinks h ha
  · have hLess := length_without_lt hTaken (List.filter_subset_self _)
    refine two_mul_backwardAmong_le_of_rest (g.sources active) ?_
      (two_mul_backwardAmong_le hLoops (nodup_without h (g.sources active)))
    rw [hLine]
    exact fun a ha => backward_of_sources ha
  -- Only the arcs into the node are turned, and it has at least as many that go out.
  · have hLess := length_without_lt (List.cons_ne_nil best [])
      (List.cons_subset.mpr ⟨hBest, List.nil_subset active⟩)
    have ih := two_mul_backwardAmong_le hLoops (nodup_without h [best])
    have hFewer := backwardAmong_le_of_single hLine
    have hArcs := degrees_le_of_single hLoops hBest
    omega
termination_by active.length

/-! ## Graphs without cycles -/

theorem sinks_ne_nil {g : Digraph α} (hAcyclic : ∀ n, ¬ Relation.TransGen g.Joins n n)
    {active : List String} (hActive : active ≠ []) : g.sinks active ≠ [] := by
  -- Reachability orders the finitely many nodes strictly, and the last of them is a sink.
  let Reached (x y : {n // n ∈ active}) : Prop := Relation.TransGen g.Joins y.1 x.1
  have : IsTrans {n // n ∈ active} Reached := ⟨fun _ _ _ hxy hyz => hyz.trans hxy⟩
  have : Std.Irrefl Reached := ⟨fun x => hAcyclic x.1⟩
  obtain ⟨first, hFirst⟩ := List.exists_mem_of_ne_nil active hActive
  obtain ⟨last, _, hLast⟩ := (Finite.wellFounded_of_trans_of_irrefl Reached).has_min Set.univ
    ⟨⟨first, hFirst⟩, trivial⟩
  refine List.ne_nil_of_mem (a := last.1) (List.mem_filter.mpr ⟨last.2, ?_⟩)
  rw [beq_iff_eq, outDegree_eq, List.countP_eq_zero]
  intro a ha hFrom
  simp only [Bool.and_eq_true, beq_iff_eq, List.contains_iff_mem] at hFrom
  exact hLast ⟨a.target, hFrom.1⟩ trivial (.single ⟨a, ha, hFrom.2, rfl⟩)

theorem not_isBackward_of_acyclic {g : Digraph α} (hAcyclic : ∀ n, ¬ Relation.TransGen g.Joins n n)
    {active : List String} (h : active.Nodup) {a : Arc α} (ha : a ∈ g.arcs)
    (hInside : inside active a = true) :
    isBackward (g.arrange active) a.source a.target = false := by
  have hActive : active ≠ [] := List.ne_nil_of_mem (inside_iff.mp hInside).1
  have hSinks := sinks_ne_nil hAcyclic hActive
  rcases g.arrange_cases h hActive with ⟨hLine, hTaken⟩ | ⟨_, hNone, _⟩ | ⟨_, _, _, hNone, _⟩
  · have hLess := length_without_lt hTaken (List.filter_subset_self _)
    rw [hLine]
    by_contra hBackward
    obtain ⟨hRest, hRestBackward⟩ := backward_of_sinks h ha hInside (eq_true_of_ne_false hBackward)
    have ih := not_isBackward_of_acyclic hAcyclic (nodup_without h (g.sinks active)) ha hRest
    rw [ih] at hRestBackward
    cases hRestBackward
  · exact absurd hNone hSinks
  · exact absurd hNone hSinks
termination_by active.length

end TypeDiagram.Layout.Digraph
