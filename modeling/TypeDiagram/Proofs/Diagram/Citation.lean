import TypeDiagram.Diagram.Arrangement
import TypeDiagram.Proofs.Diagram.Element
import TypeDiagram.Proofs.Model.Linking
import TypeDiagram.Proofs.OrderedMap

/-! # Edges are the references, one by one

The edges of a diagram and the dependencies of its models are found by two separate walks over the
fields. Both meet the same references in the same order, so they agree edge by edge. The number of
an edge is its place in the list; it can be read off the front of the id, whatever the names behind
it look like.
-/

namespace TypeDiagram.Diagram

/-- A reference together with the field that makes it and the place of that field. -/
structure Citation where
  source : Model
  slot : Nat
  field : Field
  target : ModelRef

def citationsOfField (m : Model) (slot : Nat) (f : Field) : List Citation :=
  f.references.map fun target => ⟨m, slot, f, target⟩

def citationsOf (models : List Model) : List Citation :=
  models.flatMap fun m => m.schema.zipIdx.flatMap fun (f, slot) => citationsOfField m slot f

def Citation.edge (c : Citation) (number : Nat) : Edge := edgeFor c.source c.field c.target number

theorem foldl_edgesOfField (fields : List (Model × Field × Nat)) (edges : List Edge) :
    fields.foldl (fun edges x => edges ++ edgesOfField x.1 (edges.length + 1) x.2.1) edges =
      edges ++ ((fields.flatMap fun x => citationsOfField x.1 x.2.2 x.2.1).zipIdx
        edges.length).map fun (c, i) => c.edge (i + 1) := by
  induction fields generalizing edges with
  | nil => simp
  | cons x fields ih =>
    have hHere : edgesOfField x.1 (edges.length + 1) x.2.1 =
        ((citationsOfField x.1 x.2.2 x.2.1).zipIdx edges.length).map
          fun (c, i) => c.edge (i + 1) := by
      rw [edgesOfField_eq, citationsOfField, List.zipIdx_map, List.zipIdx_succ, List.map_map,
        List.map_map]
      rfl
    rw [List.foldl_cons, ih, hHere, List.flatMap_cons, List.zipIdx_append, List.map_append,
      List.append_assoc]
    simp

theorem edgesOf_eq (models : List Model) :
    edgesOf models = (citationsOf models).zipIdx.map fun (c, i) => c.edge (i + 1) := by
  have hFields : (models.flatMap fun m => m.schema.map fun f => (m, f)) =
      (models.flatMap fun m => m.schema.zipIdx.map fun (f, slot) => (m, f, slot)).map
        fun x => (x.1, x.2.1) := by
    rw [List.map_flatMap]
    congr 1
    funext m
    nth_rewrite 1 [← List.zipIdx_map_fst 0 m.schema]
    rw [List.map_map, List.map_map]
    rfl
  rw [edgesOf, hFields, List.foldl_map]
  refine (foldl_edgesOfField _ []).trans ?_
  simp [citationsOf, List.flatMap_assoc, List.flatMap_map]

theorem forall₂_edgesOf (models : List Model) :
    List.Forall₂ (fun e c => c ∈ citationsOf models ∧ ∃ number, e = c.edge number)
      (edgesOf models) (citationsOf models) := by
  rw [edgesOf_eq, List.forall₂_map_left_iff]
  nth_rewrite 3 [← List.zipIdx_map_fst 0 (citationsOf models)]
  rw [List.forall₂_map_right_iff, List.forall₂_same]
  exact fun x hx => ⟨List.fst_mem_of_mem_zipIdx hx, _, rfl⟩

theorem ends_edgesOf (models : List Model) :
    (edgesOf models).map (fun e => (e.source, e.target)) = models.flatMap fun m =>
      (m.schema.flatMap Field.references).map fun target => (m.id, target.id) := by
  have hEnds : (edgesOf models).map (fun e => (e.source, e.target)) =
      (citationsOf models).map fun c => (c.source.id, c.target.id) := by
    rw [← List.forall₂_eq_eq_eq, List.forall₂_map_left_iff, List.forall₂_map_right_iff]
    refine (forall₂_edgesOf models).imp ?_
    rintro _ c ⟨_, number, rfl⟩
    rfl
  rw [hEnds, citationsOf, List.map_flatMap]
  congr 1
  funext m
  simp only [List.map_flatMap, citationsOfField, List.map_map]
  exact Model.flatMap_fst_zipIdx (fun f => f.references.map fun target => (m.id, target.id))
    m.schema

/-! ## Ids -/

theorem dash_notMem_toString (n : Nat) : '-' ∉ (toString n).toList := by
  rw [Nat.toString_eq_repr, Nat.toList_repr]
  exact fun hIn => absurd (Nat.isDigit_of_mem_toDigits (by decide) (by decide) hIn) (by decide)

theorem Citation.exists_id_edge (c : Citation) (number : Nat) :
    ∃ rest, (c.edge number).id.toList = (toString number).toList ++ '-' :: rest := by
  have hMark : ∀ s : String, ("-" ++ s).toList = '-' :: s.toList := fun _ => String.toList_append
  unfold edge edgeFor
  split <;> simp only [String.append_assoc, String.toList_append (s := toString number), hMark]
  all_goals exact ⟨_, rfl⟩

theorem Citation.number_eq_of_id_eq {c d : Citation} {m n : Nat}
    (h : (c.edge m).id = (d.edge n).id) : m = n := by
  obtain ⟨rest, hc⟩ := c.exists_id_edge m
  obtain ⟨rest', hd⟩ := d.exists_id_edge n
  have hFront : ∀ (k : Nat) (rest : List Char),
      ((toString k).toList ++ '-' :: rest).takeWhile (· != '-') = (toString k).toList := by
    intro k rest
    rw [List.takeWhile_append_of_pos, List.takeWhile_cons_of_neg, List.append_nil]
    · simp
    · exact fun c hc => bne_iff_ne.mpr fun hSame => dash_notMem_toString k (hSame ▸ hc)
  have hDigits : (toString m).toList = (toString n).toList := by
    rw [← hFront m rest, ← hc, h, hd, hFront]
  simp only [Nat.toString_eq_repr, Nat.toList_repr] at hDigits
  simpa using congrArg (Nat.ofDigitChars 10 · 0) hDigits

theorem nodup_ids_edgesOf (models : List Model) : ((edgesOf models).map Edge.id).Nodup := by
  rw [edgesOf_eq, List.map_map]
  refine List.Nodup.map_on ?_ (List.Nodup.of_map Prod.snd ?_)
  · rintro ⟨c, i⟩ hc ⟨d, j⟩ hd hSame
    obtain rfl : i = j := Nat.succ.inj (Citation.number_eq_of_id_eq hSame)
    have hSource := List.mem_zipIdx_iff_getElem?.mp hc
    rw [List.mem_zipIdx_iff_getElem?.mp hd] at hSource
    exact congrArg (·, i) (Option.some.inj hSource).symm
  · rw [List.zipIdx_map_snd]
    exact List.nodup_range'

/-! ## Handles -/

variable {α : Type} [Magnitude α]

/-- The only child for the source of the edge has the handle of the edge, in the place of the field
that makes the reference. -/
structure Edge.LeavesBy (e : Edge) (c : Citation) (children : List (Layout.Child α Unit)) : Prop
    where
  ends : e.source = c.source.id ∧ e.target = c.target.id
  child : ∃ child ∈ children, child.id = some e.source ∧
    (∀ other ∈ children, other.id = some e.source → other = child) ∧
    ∃ handle, child.handles[c.slot]? = some handle ∧ handle.id = e.sourceHandle.map .text

theorem getElem?_handlesOf {m : Model} {slot : Nat} {f : Field} (h : m.schema[slot]? = some f)
    (direction : Direction) : (handlesOf m direction : List (Layout.Handle α))[slot]? =
      some ⟨some (.text (handleId m.id f.name)), .number (Magnitude.nat slot),
        some direction.handleSide⟩ := by
  simp [handlesOf, h]

theorem leavesBy_requestFor {models : List Model} (hDistinct : (models.map Model.id).Nodup)
    {nodes : List (Node α)} (hIds : nodes.map Node.id = models.map Model.id)
    (hModels : nodes.map Node.model = models) (options : LayoutOptions) (direction : Direction)
    (pinned : List String) {c : Citation} (hc : c ∈ citationsOf models) (number : Nat) :
    (c.edge number).LeavesBy c (requestFor options nodes (edgesOf models) direction pinned :
      Layout.Request α Unit).children := by
  obtain ⟨m, hm, hSlot⟩ := List.mem_flatMap.mp hc
  obtain ⟨⟨f, slot⟩, hField, hCited⟩ := List.mem_flatMap.mp hSlot
  obtain ⟨target, _, rfl⟩ := List.mem_map.mp hCited
  have hOwn : ∀ n ∈ nodes, n.id = n.model.id := by
    rw [← hModels, List.map_map] at hIds
    exact List.map_inj_left.mp hIds
  obtain ⟨n, hn, rfl⟩ := List.mem_map.mp (hModels.symm ▸ hm)
  refine ⟨⟨rfl, rfl⟩, childOf direction pinned n, List.mem_map_of_mem hn, ?_, ?_, _,
    getElem?_handlesOf (m := { n.model with id := n.id }) (List.mem_zipIdx_iff_getElem?.mp hField)
      direction, ?_⟩
  · exact congrArg some (hOwn n hn)
  · rintro _ hOther hId
    obtain ⟨n', hn', rfl⟩ := List.mem_map.mp hOther
    have hSame : n'.id = n.id := (Option.some.inj hId).trans (hOwn n hn).symm
    rw [List.inj_on_of_nodup_map (hIds ▸ hDistinct) hn' hn hSame]
  · exact congrArg (fun id => some (Layout.Name.text (handleId id f.name))) (hOwn n hn)

/-- The edges of declarations run between exactly the models that depend on one another, in the
order of the dependencies and as often; no two edges have the same id. If the declared names are
distinct, each edge leaves its source by the handle of the field that makes the reference. -/
theorem edges_are_dependencies (ds : List Declaration) :
    let models := Model.ofDeclarations ds
    let edges := edgesOf models
    edges.map (fun e => (e.source, e.target)) =
        models.flatMap (fun m => m.dependencies.map fun d => (m.id, d.id)) ∧
      (∀ m ∈ models, ∀ d ∈ m.dependencies, models[d.place]?.map Model.id = some d.id) ∧
      (edges.map Edge.id).Nodup ∧
      ((ds.map Declaration.name).Nodup →
        ∀ (place : String → Position α) (extent : String → Option (Size α))
          (options : LayoutOptions) (direction : Direction) (pinned : List String),
        let nodes := (nodesOf models : List (Node α)).map fun n =>
          { n with position := place n.id, size := extent n.id }
        List.Forall₂ (fun e c => e.LeavesBy c
            (requestFor options nodes edges direction pinned : Layout.Request α Unit).children)
          edges (citationsOf models)) := by
  intro models edges
  refine ⟨?_, ?_, nodup_ids_edgesOf models, ?_⟩
  · rw [ends_edgesOf]
    refine List.flatMap_congr fun m hm => ?_
    rw [Model.dependencies_eq hm]
  · exact fun m hm d hd => Model.id_of_mem_dependencies hm hd
  · intro hDistinct place extent options direction pinned nodes
    have hIds : nodes.map Node.id = models.map Model.id := by
      rw [List.map_map, nodesOf, List.map_map]
      rfl
    have hModels : nodes.map Node.model = models := by
      rw [List.map_map, nodesOf, List.map_map]
      exact List.map_id models
    rw [← Model.ids_ofDeclarations] at hDistinct
    refine (forall₂_edgesOf models).imp ?_
    rintro _ c ⟨hc, number, rfl⟩
    exact leavesBy_requestFor hDistinct hIds hModels options direction pinned hc number

/-- The handles of the two models bear the same names, since a name and a field have a `-`. -/
theorem edges_are_dependencies_of_namesakes :
    let ds : List Declaration :=
      [⟨"A", [⟨"b-c", "A", .name⟩, ⟨"1", "Map<A-b, A-b>", .generic "Map" ["A-b", "A-b"]⟩], 1⟩,
        ⟨"A-b", [⟨"c", "A[]", .array "A"⟩], 5⟩]
    let models := Model.ofDeclarations ds
    let edges := edgesOf models
    let nodes := (nodesOf models : List (Node Rat)).map fun n =>
      { n with position := ⟨3, 4⟩, size := some ⟨200, 0⟩ }
    edges.map Edge.id = ["1-A-b-c", "2-A-1-A-b", "3-A-1-A-b", "4-A-b-c"] ∧
      (edges.map Edge.id).Nodup ∧
      List.Forall₂ (fun e c => e.LeavesBy c
          (requestFor .standard nodes edges .vertical ["A"] : Layout.Request Rat Unit).children)
        edges (citationsOf models) := by
  intro ds models edges nodes
  obtain ⟨_, _, hIds, hHandles⟩ := edges_are_dependencies (α := Rat) ds
  exact ⟨by decide +kernel, hIds, hHandles (by decide) (fun _ => ⟨3, 4⟩) (fun _ => some ⟨200, 0⟩)
    .standard .vertical ["A"]⟩

end TypeDiagram.Diagram
