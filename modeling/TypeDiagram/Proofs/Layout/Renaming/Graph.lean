import TypeDiagram.Proofs.Layout.Digraph
import TypeDiagram.Proofs.OrderedMap
import Mathlib.Data.List.Basic
import Mathlib.Logic.Function.Basic

/-! # Renamed graphs

Maps and graphs compare names and do nothing else with them. So what they are asked about renamed
entries, nodes and arcs, they answer as before: look-up, degrees, the line of all nodes and the
topological order go along with an injective renaming.
-/

namespace TypeDiagram

/-! ## Lists -/

section Lists

variable {β γ : Type} [DecidableEq β] [DecidableEq γ] {f : β → γ} (hf : Function.Injective f)

include hf

theorem contains_map_injective (xs : List β) (x : β) : (xs.map f).contains (f x) = xs.contains x := by
  rw [Bool.eq_iff_iff, List.contains_iff_mem, List.contains_iff_mem, List.mem_map_of_injective hf]

theorem idxOf_map_injective (xs : List β) (x : β) : (xs.map f).idxOf (f x) = xs.idxOf x := by
  induction xs with
  | nil => rfl
  | cons y xs ih => rw [List.map_cons, List.idxOf_cons, List.idxOf_cons, hf.beq_eq, ih]

theorem idxOf?_map_injective (xs : List β) (x : β) : (xs.map f).idxOf? (f x) = xs.idxOf? x := by
  induction xs with
  | nil => rfl
  | cons y xs ih => rw [List.map_cons, List.idxOf?_cons, List.idxOf?_cons, hf.beq_eq, ih]

end Lists

namespace OrderedMap

/-! ## Maps -/

variable {κ κ' ν ν' : Type}

def rename (f : κ → κ') (g : ν → ν') (m : OrderedMap κ ν) : OrderedMap κ' ν' :=
  ⟨m.entries.map (Prod.map f g)⟩

theorem keys_rename (f : κ → κ') (g : ν → ν') (m : OrderedMap κ ν) :
    (m.rename f g).keys = m.keys.map f := by
  simp [keys, rename]

theorem values_rename (f : κ → κ') (g : ν → ν') (m : OrderedMap κ ν) :
    (m.rename f g).values = m.values.map g := by
  simp [values, rename]

theorem size_rename (f : κ → κ') (g : ν → ν') (m : OrderedMap κ ν) :
    (m.rename f g).size = m.size :=
  List.length_map _

variable [DecidableEq κ] [DecidableEq κ'] {f : κ → κ'} (hf : Function.Injective f)

include hf

theorem get?_rename (g : ν → ν') (m : OrderedMap κ ν) (k : κ) :
    (m.rename f g).get? (f k) = (m.get? k).map g := by
  simp only [get?, rename, List.find?_map, Function.comp_def, Prod.map_fst, hf.beq_eq,
    Option.map_map, Prod.map_snd]

theorem contains_rename (g : ν → ν') (m : OrderedMap κ ν) (k : κ) :
    (m.rename f g).contains (f k) = m.contains k := by
  simp only [contains, rename, List.any_map, Function.comp_def, Prod.map_fst, hf.beq_eq]

theorem insert_rename (g : ν → ν') (m : OrderedMap κ ν) (k : κ) (v : ν) :
    (m.rename f g).insert (f k) (g v) = (m.insert k v).rename f g := by
  unfold insert
  rw [contains_rename hf]
  split
  · simp only [rename, List.map_map, mk.injEq]
    refine List.map_congr_left fun e _ => ?_
    simp only [Function.comp_apply, Prod.map_fst, hf.beq_eq]
    split <;> rfl
  · simp [rename]

theorem ofList_rename (g : ν → ν') (entries : List (κ × ν)) :
    ofList (entries.map (Prod.map f g)) = (ofList entries).rename f g := by
  unfold ofList
  rw [List.foldl_map, show (empty : OrderedMap κ' ν') = rename f g empty from rfl]
  exact List.foldl_hom (rename f g) fun m e => insert_rename hf g m e.1 e.2

end OrderedMap

namespace Layout

variable {α : Type}

/-! ## Graphs -/

def Arc.rename (f : String → String) (a : Arc α) : Arc α := ⟨f a.source, f a.target, a.weight⟩

namespace Digraph

def rename (f : String → String) (g : Digraph α) : Digraph α :=
  ⟨g.nodes.map f, g.arcs.map (Arc.rename f)⟩

variable {f : String → String} (hf : Function.Injective f)

include hf

theorem arcsFrom_rename (g : Digraph α) (n : String) :
    (g.rename f).arcsFrom (f n) = (g.arcsFrom n).map (Arc.rename f) := by
  simp only [arcsFrom, rename, List.filter_map, Function.comp_def, Arc.rename, hf.beq_eq]

theorem arcsInto_rename (g : Digraph α) (n : String) :
    (g.rename f).arcsInto (f n) = (g.arcsInto n).map (Arc.rename f) := by
  simp only [arcsInto, rename, List.filter_map, Function.comp_def, Arc.rename, hf.beq_eq]

theorem successors_rename (g : Digraph α) (n : String) :
    (g.rename f).successors (f n) = (g.successors n).map f := by
  simp only [successors, arcsFrom_rename hf, List.map_map]
  rfl

theorem predecessors_rename (g : Digraph α) (n : String) :
    (g.rename f).predecessors (f n) = (g.predecessors n).map f := by
  simp only [predecessors, arcsInto_rename hf, List.map_map]
  rfl

theorem arcsByNode_rename (g : Digraph α) :
    (g.rename f).arcsByNode = g.arcsByNode.map (Arc.rename f) := by
  simp only [arcsByNode, List.map_flatMap, ← arcsFrom_rename hf]
  exact List.flatMap_map f (g.rename f).arcsFrom g.nodes

theorem isSome_arc?_rename (g : Digraph α) (a : Arc α) :
    ((g.rename f).arc? (f a.source) (f a.target)).isSome = (g.arc? a.source a.target).isSome := by
  simp only [arc?, rename, List.find?_map, Function.comp_def, Arc.rename, hf.beq_eq,
    Option.isSome_map]

theorem addArc_rename (g : Digraph α) (a : Arc α) :
    (g.rename f).addArc (a.rename f) = (g.addArc a).rename f := by
  unfold addArc
  rw [show ((g.rename f).arc? (a.rename f).source (a.rename f).target).isSome =
    (g.arc? a.source a.target).isSome from isSome_arc?_rename hf g a]
  split
  · rfl
  · simp [rename]

theorem setArc_rename (g : Digraph α) (a : Arc α) :
    (g.rename f).setArc (a.rename f) = (g.setArc a).rename f := by
  unfold setArc
  rw [show ((g.rename f).arc? (a.rename f).source (a.rename f).target).isSome =
    (g.arc? a.source a.target).isSome from isSome_arc?_rename hf g a]
  split
  · simp only [rename, List.map_map, mk.injEq, true_and]
    refine List.map_congr_left fun b _ => ?_
    simp only [Function.comp_apply, Arc.rename, hf.beq_eq]
    split <;> rfl
  · simp [rename]

/-! ## Orders of the nodes -/

theorem without_rename (nodes taken : List String) :
    without (nodes.map f) (taken.map f) = (without nodes taken).map f := by
  simp only [without, List.filter_map, Function.comp_def, contains_map_injective hf]

theorem ready_rename (g : Digraph α) (remaining : List String) :
    (g.rename f).ready (remaining.map f) = (g.ready remaining).map f := by
  simp only [ready, List.filter_map, Function.comp_def, predecessors_rename hf, List.all_map,
    contains_map_injective hf]

theorem topologicalOrderOf_rename (g : Digraph α) (remaining : List String) :
    (g.rename f).topologicalOrderOf (remaining.map f) =
      (g.topologicalOrderOf remaining).map f := by
  induction remaining using topologicalOrderOf.induct g with
  | case1 remaining now hLess ih =>
    rw [topologicalOrderOf.eq_def g, topologicalOrderOf.eq_def (g.rename f)]
    simp only [ready_rename hf, without_rename hf, List.length_map]
    rw [if_pos hLess, if_pos hLess, List.map_append, ih]
  | case2 remaining now hLess =>
    rw [topologicalOrderOf.eq_def g, topologicalOrderOf.eq_def (g.rename f)]
    simp only [ready_rename hf, without_rename hf, List.length_map]
    rw [if_neg hLess, if_neg hLess, List.map_nil]

theorem topologicalOrder_rename (g : Digraph α) :
    (g.rename f).topologicalOrder = g.topologicalOrder.map f :=
  topologicalOrderOf_rename hf g g.nodes

theorem outDegree_rename (g : Digraph α) (among : List String) (n : String) :
    (g.rename f).outDegree (among.map f) (f n) = g.outDegree among n := by
  simp only [outDegree, successors_rename hf, List.filter_map, Function.comp_def,
    contains_map_injective hf, List.length_map]

theorem inDegree_rename (g : Digraph α) (among : List String) (n : String) :
    (g.rename f).inDegree (among.map f) (f n) = g.inDegree among n := by
  simp only [inDegree, predecessors_rename hf, List.filter_map, Function.comp_def,
    contains_map_injective hf, List.length_map]

theorem excess_rename (g : Digraph α) (among : List String) (n : String) :
    (g.rename f).excess (among.map f) (f n) = g.excess among n := by
  rw [excess, excess, outDegree_rename hf, inDegree_rename hf]

theorem mostOutgoing_rename (g : Digraph α) (among others : List String) (best : String) :
    (g.rename f).mostOutgoing (among.map f) (others.map f) (f best) =
      f (g.mostOutgoing among others best) := by
  induction others generalizing best with
  | nil => rfl
  | cons n others ih =>
    rw [List.map_cons, mostOutgoing, mostOutgoing, excess_rename hf, excess_rename hf, ← ih,
      apply_ite f]

theorem sinks_rename (g : Digraph α) (active : List String) :
    (g.rename f).sinks (active.map f) = (g.sinks active).map f := by
  simp only [sinks, List.filter_map, Function.comp_def, outDegree_rename hf]

theorem sources_rename (g : Digraph α) (active : List String) :
    (g.rename f).sources (active.map f) = (g.sources active).map f := by
  simp only [sources, List.filter_map, Function.comp_def, inDegree_rename hf]

theorem nextTaken_rename (g : Digraph α) (active : List String) :
    (g.rename f).nextTaken (active.map f) = (g.nextTaken active).map f := by
  unfold nextTaken
  rw [sinks_rename hf, sources_rename hf, List.isEmpty_map, List.isEmpty_map]
  split
  · rfl
  · split
    · rfl
    · cases active with
      | nil => rfl
      | cons first others =>
        exact congrArg (fun n => [n]) (mostOutgoing_rename hf g (first :: others) others first)

theorem arrange_rename (g : Digraph α) (active : List String) :
    (g.rename f).arrange (active.map f) = (g.arrange active).map f := by
  induction active using arrange.induct g with
  | case1 active taken hLess hSinks ih =>
    rw [arrange.eq_def g, arrange.eq_def (g.rename f)]
    simp only [nextTaken_rename hf, without_rename hf, List.length_map, sinks_rename hf,
      List.isEmpty_map]
    rw [if_pos hLess, if_pos hLess, if_pos hSinks, if_pos hSinks, List.map_append, ih]
  | case2 active taken hLess hSinks ih =>
    rw [arrange.eq_def g, arrange.eq_def (g.rename f)]
    simp only [nextTaken_rename hf, without_rename hf, List.length_map, sinks_rename hf,
      List.isEmpty_map]
    rw [if_pos hLess, if_pos hLess, if_neg hSinks, if_neg hSinks, List.map_append, ih,
      List.map_reverse]
  | case3 active taken hLess =>
    rw [arrange.eq_def g, arrange.eq_def (g.rename f)]
    simp only [nextTaken_rename hf, without_rename hf, List.length_map]
    rw [if_neg hLess, if_neg hLess, List.map_nil]

theorem isBackward_rename (line : List String) (source target : String) :
    isBackward (line.map f) (f source) (f target) = isBackward line source target := by
  simp only [isBackward, idxOf_map_injective hf]

end Digraph

end Layout

end TypeDiagram
