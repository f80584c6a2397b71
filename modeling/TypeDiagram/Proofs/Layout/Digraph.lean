import TypeDiagram.Layout.Orientation
import Mathlib.Data.Finset.Max
import Mathlib.Data.List.Nodup

/-! # Graphs whose arcs run along a line

The two ways in which the nodes of a graph are put in a line lose none of them. Sinks, sources and
single nodes can be taken from any graph. Nodes without predecessors can be taken as long as the
arcs increase some rank, so a graph whose arcs run along a line has a topological order of all its
nodes.
-/

namespace TypeDiagram.Layout.Digraph

variable {α : Type}

/-! ## Taking nodes from a list -/

theorem mem_without_iff {nodes taken : List String} {n : String} :
    n ∈ without nodes taken ↔ n ∈ nodes ∧ n ∉ taken := by
  simp [without]

theorem perm_append_without {nodes taken : List String} (hNodes : nodes.Nodup)
    (hTaken : taken.Nodup) (hSub : taken ⊆ nodes) : (taken ++ without nodes taken).Perm nodes := by
  have hApart : (taken ++ without nodes taken).Nodup := by
    refine List.nodup_append.mpr ⟨hTaken, hNodes.filter _, ?_⟩
    rintro n hIn m hOut rfl
    exact (mem_without_iff.mp hOut).2 hIn
  rw [List.perm_ext_iff_of_nodup hApart hNodes]
  intro n
  rw [List.mem_append, mem_without_iff]
  by_cases hIn : n ∈ taken
  · simp [hIn, hSub hIn]
  · simp [hIn]

theorem length_without_lt {nodes taken : List String} (hTaken : taken ≠ [])
    (hSub : taken ⊆ nodes) : (without nodes taken).length < nodes.length := by
  obtain ⟨n, hn⟩ := List.exists_mem_of_ne_nil taken hTaken
  rw [without, List.length_filter_lt_length_iff_exists]
  exact ⟨n, hSub hn, by simpa using hn⟩

/-! ## The line of all nodes -/

theorem mostOutgoing_mem (g : Digraph α) (among others : List String) (best : String) :
    g.mostOutgoing among others best ∈ best :: others := by
  induction others generalizing best with
  | nil => exact List.mem_singleton_self best
  | cons n others ih =>
    rw [mostOutgoing]
    rcases List.mem_cons.mp (ih (if g.excess among best < g.excess among n then n else best)) with
      hBest | hOther
    · rw [hBest]
      split <;> simp
    · simp [hOther]

theorem nextTaken_spec (g : Digraph α) {active : List String} (h : active.Nodup) :
    (g.nextTaken active).Nodup ∧ g.nextTaken active ⊆ active ∧
      (active ≠ [] → g.nextTaken active ≠ []) := by
  unfold nextTaken
  split
  · rename_i hSinks
    refine ⟨h.filter _, List.filter_subset_self _, fun _ hNone => ?_⟩
    simp [hNone] at hSinks
  · split
    · rename_i hSources
      refine ⟨h.filter _, List.filter_subset_self _, fun _ hNone => ?_⟩
      simp [hNone] at hSources
    · cases active with
      | nil => exact ⟨List.nodup_nil, fun _ hIn => hIn, fun hNe => hNe⟩
      | cons first others =>
        refine ⟨List.nodup_singleton _, fun n hn => ?_, fun _ => List.cons_ne_nil _ _⟩
        rw [List.mem_singleton.mp hn]
        exact g.mostOutgoing_mem (first :: others) others first

theorem arrange_perm (g : Digraph α) {active : List String} (h : active.Nodup) :
    (g.arrange active).Perm active := by
  obtain ⟨hNodup, hSub, hNe⟩ := g.nextTaken_spec h
  rw [arrange]
  by_cases hActive : active = []
  · subst hActive
    simp
  · -- Every round takes some of the nodes, so the rest is shorter and goes on to be arranged.
    have hLess := length_without_lt (hNe hActive) hSub
    have ih : (g.arrange (without active (g.nextTaken active))).Perm
        (without active (g.nextTaken active)) := g.arrange_perm (h.filter _)
    have hAll := (ih.append_left (g.nextTaken active)).trans (perm_append_without h hNodup hSub)
    simp only [hLess, if_true]
    split
    · exact hAll
    · exact ((List.reverse_perm _).append_left _).trans (List.perm_append_comm.trans hAll)
termination_by active.length

/-! ## Topological orders -/

theorem ready_ne_nil {g : Digraph α} {rank : String → Nat}
    (hRank : ∀ a ∈ g.arcs, rank a.source < rank a.target) {remaining : List String}
    (hRemaining : remaining ≠ []) : g.ready remaining ≠ [] := by
  -- The predecessors of a node of least rank have lower ranks, so none of them is left.
  obtain ⟨n, hn, hLeast⟩ := remaining.toFinset.exists_min_image rank
    (List.toFinset_nonempty_iff remaining |>.mpr hRemaining)
  refine List.ne_nil_of_mem (a := n) (List.mem_filter.mpr ⟨List.mem_toFinset.mp hn, ?_⟩)
  rw [List.all_eq_true]
  intro p hp
  obtain ⟨a, ha, rfl⟩ := List.mem_map.mp hp
  obtain ⟨hArc, hTarget⟩ := List.mem_filter.mp ha
  have hLess := hRank a hArc
  rw [beq_iff_eq.mp hTarget] at hLess
  rw [Bool.not_eq_true', List.contains_eq_mem, decide_eq_false_iff_not]
  intro hIn
  have := hLeast a.source (List.mem_toFinset.mpr hIn)
  omega

theorem topologicalOrderOf_perm {g : Digraph α} (rank : String → Nat)
    (hRank : ∀ a ∈ g.arcs, rank a.source < rank a.target) {remaining : List String}
    (h : remaining.Nodup) : (g.topologicalOrderOf remaining).Perm remaining := by
  rw [topologicalOrderOf]
  by_cases hRemaining : remaining = []
  · subst hRemaining
    simp
  · have hSub : g.ready remaining ⊆ remaining := List.filter_subset_self _
    have hLess := length_without_lt (ready_ne_nil hRank hRemaining) hSub
    have ih : (g.topologicalOrderOf (without remaining (g.ready remaining))).Perm
        (without remaining (g.ready remaining)) := topologicalOrderOf_perm rank hRank (h.filter _)
    simp only [hLess, if_true]
    exact (ih.append_left _).trans (perm_append_without h (h.filter _) hSub)
termination_by remaining.length

/-! ## Adding arcs -/

def Joins (g : Digraph α) (source target : String) : Prop :=
  ∃ a ∈ g.arcs, a.source = source ∧ a.target = target

theorem not_transGen_self {g : Digraph α} (rank : String → Nat)
    (hRank : ∀ a ∈ g.arcs, rank a.source < rank a.target) (n : String) :
    ¬ Relation.TransGen g.Joins n n := by
  have hPath : ∀ {source target : String}, Relation.TransGen g.Joins source target →
      rank source < rank target := by
    intro source target hPath
    induction hPath with
    | single hJoins =>
      obtain ⟨a, ha, rfl, rfl⟩ := hJoins
      exact hRank a ha
    | tail _ hJoins ih =>
      obtain ⟨a, ha, rfl, rfl⟩ := hJoins
      exact ih.trans (hRank a ha)
  exact fun hCycle => Nat.lt_irrefl _ (hPath hCycle)

theorem arc?_isSome_iff (g : Digraph α) (source target : String) :
    (g.arc? source target).isSome = true ↔ g.Joins source target := by
  simp [arc?, Joins, List.find?_isSome]

theorem addArc_nodes (g : Digraph α) (a : Arc α) : (g.addArc a).nodes = g.nodes := by
  unfold addArc
  split <;> rfl

theorem mem_arcs_addArc {g : Digraph α} {a b : Arc α} (h : b ∈ (g.addArc a).arcs) :
    b ∈ g.arcs ∨ b = a := by
  unfold addArc at h
  split at h
  · exact .inl h
  · simpa using h

theorem Joins.addArc {g : Digraph α} {source target : String} (h : g.Joins source target)
    (a : Arc α) : (g.addArc a).Joins source target := by
  obtain ⟨b, hb, hEnds⟩ := h
  refine ⟨b, ?_, hEnds⟩
  unfold Digraph.addArc
  split
  · exact hb
  · exact List.mem_append_left _ hb

theorem joins_addArc (g : Digraph α) (a : Arc α) : (g.addArc a).Joins a.source a.target := by
  by_cases h : g.Joins a.source a.target
  · exact h.addArc a
  · refine ⟨a, ?_, rfl, rfl⟩
    rw [addArc, if_neg (mt (g.arc?_isSome_iff _ _).mp h)]
    simp

theorem mem_arcsByNode_iff {g : Digraph α} (h : ∀ a ∈ g.arcs, a.source ∈ g.nodes) (a : Arc α) :
    a ∈ g.arcsByNode ↔ a ∈ g.arcs := by
  simp only [arcsByNode, arcsFrom, List.mem_flatMap, List.mem_filter, beq_iff_eq]
  exact ⟨fun ⟨_, _, ha, _⟩ => ha, fun ha => ⟨a.source, h a ha, ha, rfl⟩⟩

/-! ## Setting arcs -/

theorem setArc_nodes (g : Digraph α) (a : Arc α) : (g.setArc a).nodes = g.nodes := by
  unfold setArc
  split <;> rfl

theorem mem_arcs_setArc {g : Digraph α} {a b : Arc α} (h : b ∈ (g.setArc a).arcs) :
    b ∈ g.arcs ∨ b = a := by
  unfold setArc at h
  split at h
  · obtain ⟨c, hc, rfl⟩ := List.mem_map.mp h
    split
    · exact .inr rfl
    · exact .inl hc
  · simpa using h

theorem joins_setArc_iff (g : Digraph α) (a : Arc α) (source target : String) :
    (g.setArc a).Joins source target ↔
      g.Joins source target ∨ a.source = source ∧ a.target = target := by
  constructor
  · rintro ⟨b, hb, hSource, hTarget⟩
    rcases mem_arcs_setArc hb with hOld | rfl
    · exact .inl ⟨b, hOld, hSource, hTarget⟩
    · exact .inr ⟨hSource, hTarget⟩
  · unfold setArc
    split
    · rename_i hIs
      intro h
      obtain ⟨b, hb, rfl, rfl⟩ : g.Joins source target := by
        rcases h with hOld | ⟨rfl, rfl⟩
        · exact hOld
        · exact (g.arc?_isSome_iff _ _).mp hIs
      refine ⟨_, List.mem_map_of_mem hb, ?_⟩
      split
      · rename_i hSame
        simp only [Bool.and_eq_true, beq_iff_eq] at hSame
        exact ⟨hSame.1.symm, hSame.2.symm⟩
      · exact ⟨rfl, rfl⟩
    · rintro (⟨b, hb, hEnds⟩ | hEnds)
      · exact ⟨b, List.mem_append_left _ hb, hEnds⟩
      · exact ⟨a, by simp, hEnds⟩

/-! ## Adding many arcs -/

variable {β : Type}

theorem nodes_foldl_addArc (arcOf : β → Arc α) (xs : List β) (g : Digraph α) :
    (xs.foldl (fun g x => g.addArc (arcOf x)) g).nodes = g.nodes := by
  induction xs generalizing g with
  | nil => rfl
  | cons x xs ih => exact (ih _).trans (addArc_nodes g _)

theorem mem_arcs_foldl_addArc {arcOf : β → Arc α} {xs : List β} {g : Digraph α} {b : Arc α}
    (h : b ∈ (xs.foldl (fun g x => g.addArc (arcOf x)) g).arcs) :
    b ∈ g.arcs ∨ ∃ x ∈ xs, b = arcOf x := by
  induction xs generalizing g with
  | nil => exact .inl h
  | cons x xs ih =>
    rcases ih h with hOld | ⟨y, hy, hSame⟩
    · rcases mem_arcs_addArc hOld with hOld | hNew
      · exact .inl hOld
      · exact .inr ⟨x, List.mem_cons_self, hNew⟩
    · exact .inr ⟨y, List.mem_cons_of_mem x hy, hSame⟩

theorem joins_foldl_addArc (arcOf : β → Arc α) {xs : List β} (g : Digraph α) {x : β}
    (hx : x ∈ xs) : (xs.foldl (fun g x => g.addArc (arcOf x)) g).Joins
      (arcOf x).source (arcOf x).target := by
  have hKept : ∀ (ys : List β) (h : Digraph α), h.Joins (arcOf x).source (arcOf x).target →
      (ys.foldl (fun g x => g.addArc (arcOf x)) h).Joins (arcOf x).source (arcOf x).target := by
    intro ys
    induction ys with
    | nil => exact fun _ hJoins => hJoins
    | cons y ys ih => exact fun h hJoins => ih _ (hJoins.addArc (arcOf y))
  obtain ⟨before, after, rfl⟩ := List.append_of_mem hx
  rw [List.foldl_append, List.foldl_cons]
  exact hKept after _ (joins_addArc _ (arcOf x))

end TypeDiagram.Layout.Digraph

namespace TypeDiagram.Layout

/-! ## Ends of arcs -/

variable {α β : Type}

def Arc.ends (a : Arc α) : String × String := (a.source, a.target)

namespace Digraph

theorem joins_iff_mem_ends (g : Digraph α) (source target : String) :
    g.Joins source target ↔ (source, target) ∈ g.arcs.map Arc.ends := by
  simp only [Joins, List.mem_map, Arc.ends, Prod.mk.injEq]

theorem nodup_ends_foldl_addArc (arcOf : β → Arc α) (xs : List β) {g : Digraph α}
    (h : (g.arcs.map Arc.ends).Nodup) :
    ((xs.foldl (fun g x => g.addArc (arcOf x)) g).arcs.map Arc.ends).Nodup := by
  induction xs generalizing g with
  | nil => exact h
  | cons x xs ih =>
    refine ih ?_
    change ((g.addArc (arcOf x)).arcs.map Arc.ends).Nodup
    unfold addArc
    split
    · exact h
    · rename_i hNew
      rw [arc?_isSome_iff, joins_iff_mem_ends] at hNew
      rw [List.map_append, List.map_singleton, ← List.concat_eq_append]
      exact h.concat hNew

theorem nodup_ends_flatMap_arcsFrom {g : Digraph α} {nodes : List String} (hNodes : nodes.Nodup)
    (hArcs : (g.arcs.map Arc.ends).Nodup) : ((nodes.flatMap g.arcsFrom).map Arc.ends).Nodup := by
  rw [List.map_flatMap, List.nodup_flatMap]
  refine ⟨fun n _ => hArcs.sublist ((List.filter_sublist).map _), ?_⟩
  refine hNodes.imp fun {m n} hNe => ?_
  rintro ends hFirst hSecond
  obtain ⟨a, ha, rfl⟩ := List.mem_map.mp hFirst
  obtain ⟨b, hb, hSame⟩ := List.mem_map.mp hSecond
  have hSources : b.source = a.source := congrArg Prod.fst hSame
  have hm : a.source = m := beq_iff_eq.mp (List.mem_filter.mp ha).2
  have hn : b.source = n := beq_iff_eq.mp (List.mem_filter.mp hb).2
  exact hNe (hm.symm.trans (hSources.symm.trans hn))

theorem nodup_ends_arcsByNode {g : Digraph α} (hNodes : g.nodes.Nodup)
    (hArcs : (g.arcs.map Arc.ends).Nodup) : (g.arcsByNode.map Arc.ends).Nodup :=
  nodup_ends_flatMap_arcsFrom hNodes hArcs

theorem nodup_ends_setArc {g : Digraph α} (h : (g.arcs.map Arc.ends).Nodup) (a : Arc α) :
    ((g.setArc a).arcs.map Arc.ends).Nodup := by
  unfold setArc
  split
  · have hSame : (g.arcs.map fun b =>
        if b.source == a.source && b.target == a.target then a else b).map Arc.ends =
          g.arcs.map Arc.ends := by
      rw [List.map_map]
      refine List.map_congr_left fun b _ => ?_
      rw [Function.comp_apply]
      split
      · rename_i hBoth
        simp only [Bool.and_eq_true, beq_iff_eq] at hBoth
        exact Prod.ext hBoth.1.symm hBoth.2.symm
      · rfl
    rwa [hSame]
  · rename_i hNew
    rw [arc?_isSome_iff, joins_iff_mem_ends] at hNew
    rw [List.map_append, List.map_singleton, ← List.concat_eq_append]
    exact h.concat hNew

end Digraph

end TypeDiagram.Layout
