import TypeDiagram.Diagram.Arrangement
import TypeDiagram.Proofs.Diagram.Element
import TypeDiagram.Proofs.Layout.Box
import TypeDiagram.Proofs.Layout.Drawing
import TypeDiagram.Proofs.Model.Names

/-! # The requests of a diagram can be drawn

A diagram asks for a child for each of its nodes and for a link for each edge, from the handle of a
field. No id of a node has a `-`, so a handle belongs to one node only and is named like none, and
every link is resolved to the ends of its edge. Then nothing is missing for the drawing, and the
answer names each node.
-/

namespace TypeDiagram.Diagram

open Layout

variable {α : Type}

/-- Nodes and edges that can be drawn: the ids of the nodes are distinct and have no `-`, and each
edge runs from the handle of a field to a node. -/
structure Drawable (nodes : List (Node α)) (edges : List Edge) : Prop where
  distinct : (nodes.map Node.id).Nodup
  plain : ∀ n ∈ nodes, '-' ∉ n.id.toList
  source : ∀ e ∈ edges, ∃ n ∈ nodes, ∃ f ∈ n.model.schema,
    e.source = n.id ∧ e.sourceHandle = some (handleId n.id f.name)
  target : ∀ e ∈ edges, e.target ∈ nodes.map Node.id

/-- The nodes and edges of sound models can be drawn, wherever the nodes stand and whatever their
sizes are. -/
theorem drawable_of_models {models : List Model} (h : Model.Sound models) {nodes : List (Node α)}
    (hIds : nodes.map Node.id = models.map Model.id) (hModels : nodes.map Node.model = models) :
    Drawable nodes (edgesOf models) := by
  have hOwn : ∀ n ∈ nodes, n.id = n.model.id := by
    rw [← hModels, List.map_map] at hIds
    exact List.map_inj_left.mp hIds
  refine ⟨hIds ▸ h.distinct, ?_, ?_, ?_⟩
  · intro n hn
    exact hOwn n hn ▸ h.plain n.model (hModels ▸ List.mem_map_of_mem hn)
  · intro e he
    obtain ⟨m, hm, f, target, hShows⟩ := shows_of_mem_edgesOf he
    obtain ⟨n, hn, rfl⟩ := List.mem_map.mp (hModels ▸ hm)
    exact ⟨n, hn, f, hShows.field, hOwn n hn ▸ hShows.source, hOwn n hn ▸ hShows.handle⟩
  · intro e he
    obtain ⟨m, hm, f, target, hShows⟩ := shows_of_mem_edgesOf he
    rw [hShows.target, hIds]
    exact h.closed m hm f hShows.field target hShows.reference

/-! ## Children -/

variable [Coordinate α] (direction : Direction) (pinned : List String)

/-- The box is that of a node: it has its size, its place if the node is pinned, and a handle for
each field. -/
structure BoxFor (n : Node α) (b : Box α) : Prop where
  size : b.size = n.size.getD ⟨Coordinate.nat 0, Coordinate.nat 0⟩
  seed : b.seed = if pinned.contains n.id then some n.position else none
  handles : ∀ k, k ∈ b.handles.keys ↔ ∃ f ∈ n.model.schema, k = .text (handleId n.id f.name)

theorem readSeed_childOf (n : Node α) : readSeed (childOf direction pinned n) =
    .ok (if pinned.contains n.id then some n.position else none) := by
  unfold readSeed childOf
  cases pinned.contains n.id <;> rfl

theorem readHandles_handlesOf (m : Model) :
    ∃ handles, readHandles (handlesOf m direction : List (Handle α)) = .ok handles ∧
      ∀ k, k ∈ handles.keys ↔ ∃ f ∈ m.schema, k = .text (handleId m.id f.name) := by
  have hIds : ∀ p ∈ (handlesOf m direction : List (Handle α)), p.id = some (p.id.getD .null) := by
    intro p hp
    obtain ⟨_, _, rfl⟩ := List.mem_map.mp hp
    rfl
  obtain ⟨handles, hRead, hKeys⟩ := readHandles_eq_ok hIds
  refine ⟨handles, hRead, fun k => ?_⟩
  have hNames : (handlesOf m direction : List (Handle α)).map (fun p => p.id.getD .null) =
      (m.schema.zipIdx.map Prod.fst).map fun f => Name.text (handleId m.id f.name) := by
    unfold handlesOf
    rw [List.map_map, List.map_map]
    rfl
  rw [hKeys, hNames, List.zipIdx_map_fst, List.mem_map]
  simp only [eq_comm]

theorem readChild_childOf {boxes : Boxes α} {n : Node α} (hNew : n.id ∉ boxes.keys) (index : Nat) :
    ∃ b, readChild boxes (childOf direction pinned n) index = .ok (n.id, b) ∧
      BoxFor pinned n b := by
  obtain ⟨handles, hHandles, hKeys⟩ :=
    readHandles_handlesOf (α := α) direction { n.model with id := n.id }
  have hSeed := readSeed_childOf direction pinned n
  refine ⟨_, readChild_eq_ok rfl hNew hSeed hHandles rfl rfl index, ?_, rfl, hKeys⟩
  cases n.size <;> rfl

theorem readChildren_childOf {nodes : List (Node α)} (h : (nodes.map Node.id).Nodup) :
    ∃ boxes, readChildren (nodes.map (childOf direction pinned)) = .ok boxes ∧
      boxes.keys = nodes.map Node.id ∧
      ∀ n ∈ nodes, ∃ b, boxes.get? n.id = some b ∧ BoxFor pinned n b := by
  induction nodes using List.reverseRecOn with
  | nil => exact ⟨.empty, rfl, rfl, fun _ hn => absurd hn List.not_mem_nil⟩
  | append_singleton nodes last ih =>
    rw [List.map_append, List.nodup_append] at h
    obtain ⟨boxes, hBoxes, hKeys, hRead⟩ := ih h.1
    have hNew : last.id ∉ boxes.keys := by
      rw [hKeys]
      exact fun hIn => h.2.2 last.id hIn last.id (List.mem_singleton_self _) rfl
    obtain ⟨b, hChild, hFor⟩ := readChild_childOf direction pinned hNew nodes.length
    refine ⟨boxes.insert last.id b, ?_, ?_, ?_⟩
    · rw [List.map_append]
      exact readChildren_concat hBoxes (by rw [List.length_map]; exact hChild)
    · rw [OrderedMap.keys, OrderedMap.insert_of_not_mem hNew, List.map_append, List.map_append,
        ← hKeys]
      rfl
    · intro n hn
      rw [OrderedMap.get?_insert]
      rcases List.mem_append.mp hn with hOld | hLast
      · have hOther : n.id ≠ last.id := fun hSame =>
          h.2.2 n.id (List.mem_map_of_mem hOld) last.id (List.mem_singleton_self _) hSame
        rw [if_neg hOther]
        exact hRead n hOld
      · rw [List.mem_singleton.mp hLast, if_pos rfl]
        exact ⟨b, rfl, hFor⟩

/-! ## Links -/

def routeOf (e : Edge) : Route := ⟨.text e.id, e.source, e.target, e.sourceHandle.map .text⟩

variable {pinned} {nodes : List (Node α)} {edges : List Edge} {boxes : Boxes α}

theorem mem_handleOwners_iff (h : Drawable nodes edges) (hKeys : boxes.keys = nodes.map Node.id)
    (hBoxes : ∀ n ∈ nodes, ∃ b, boxes.get? n.id = some b ∧ BoxFor pinned n b) (k : Name)
    (id : String) :
    (k, id) ∈ boxes.entries.flatMap (fun (id, b) => b.handles.keys.map fun handle => (handle, id)) ↔
      ∃ n ∈ nodes, n.id = id ∧ ∃ f ∈ n.model.schema, k = .text (handleId n.id f.name) := by
  rw [mem_owners_iff (hKeys ▸ h.distinct)]
  constructor
  · rintro ⟨b, hb, hIn⟩
    have hId : id ∈ boxes.keys := OrderedMap.mem_keys_of_get? hb
    rw [hKeys] at hId
    obtain ⟨n, hn, rfl⟩ := List.mem_map.mp hId
    obtain ⟨b', hb', hFor⟩ := hBoxes n hn
    rw [hb] at hb'
    rw [Option.some.inj hb'] at hIn
    exact ⟨n, hn, rfl, (hFor.handles k).mp hIn⟩
  · rintro ⟨n, hn, rfl, hField⟩
    obtain ⟨b, hb, hFor⟩ := hBoxes n hn
    exact ⟨b, hb, (hFor.handles k).mpr hField⟩

theorem get?_handleOwners (h : Drawable nodes edges) (hKeys : boxes.keys = nodes.map Node.id)
    (hBoxes : ∀ n ∈ nodes, ∃ b, boxes.get? n.id = some b ∧ BoxFor pinned n b) {n : Node α}
    (hn : n ∈ nodes) {f : Field} (hf : f ∈ n.model.schema) :
    (handleOwners boxes).get? (.text (handleId n.id f.name)) = some n.id := by
  have hOwners := mem_handleOwners_iff h hKeys hBoxes
  apply OrderedMap.get?_ofList_eq_some
  · exact List.mem_map.mpr ⟨_, (hOwners _ n.id).mpr ⟨n, hn, rfl, f, hf, rfl⟩, rfl⟩
  · -- The last owner of the name wins; the id before its first `-` is that of all owners.
    rintro ⟨k, id⟩ hEntry hKey
    obtain ⟨m, hm, rfl, g, _, hName⟩ := (hOwners k id).mp hEntry
    exact eq_of_handleId_eq (h.plain m hm) (h.plain n hn) (Name.text.inj (hName.symm.trans hKey))

theorem get?_handleOwners_id (h : Drawable nodes edges) (hKeys : boxes.keys = nodes.map Node.id)
    (hBoxes : ∀ n ∈ nodes, ∃ b, boxes.get? n.id = some b ∧ BoxFor pinned n b) {id : String}
    (hId : id ∈ nodes.map Node.id) : (handleOwners boxes).get? (.text id) = none := by
  rw [OrderedMap.get?_eq_none_iff, handleOwners, OrderedMap.mem_keys_ofList]
  intro hIn
  obtain ⟨⟨k, owner⟩, hEntry, hKey⟩ := List.mem_map.mp hIn
  obtain ⟨m, _, _, f, _, hName⟩ := (mem_handleOwners_iff h hKeys hBoxes k owner).mp hEntry
  obtain ⟨n, hn, rfl⟩ := List.mem_map.mp hId
  exact handleId_ne (h.plain n hn) f.name (Name.text.inj (hName.symm.trans hKey))

theorem readLinks_linkOf (h : Drawable nodes edges) (hKeys : boxes.keys = nodes.map Node.id)
    (hBoxes : ∀ n ∈ nodes, ∃ b, boxes.get? n.id = some b ∧ BoxFor pinned n b) :
    readLinks boxes (edges.map linkOf) = .ok (edges.map routeOf) := by
  have hEach : ∀ e ∈ edges, readLink boxes (handleOwners boxes) (linkOf e) = .ok (routeOf e) := by
    intro e he
    obtain ⟨n, hn, f, hf, hSource, hHandle⟩ := h.source e he
    have hNotEmpty : (handleId n.id f.name).isEmpty = false := by
      rw [Bool.eq_false_iff, ne_eq, String.isEmpty_iff]
      exact handleId_ne (by simp) f.name
    have hLink : linkOf e =
        ⟨.text e.id, [.text (handleId n.id f.name)], [.text e.target], ()⟩ := by
      simp [linkOf, hHandle, hNotEmpty]
    have hRoute : routeOf e =
        ⟨.text e.id, n.id, e.target, some (.text (handleId n.id f.name))⟩ := by
      rw [routeOf, hHandle, hSource]
      rfl
    rw [hLink, hRoute]
    exact readLink_eq_ok rfl rfl (get?_handleOwners h hKeys hBoxes hn hf)
      (get?_handleOwners_id h hKeys hBoxes (h.target e he)) (hKeys ▸ List.mem_map_of_mem hn)
      (hKeys ▸ h.target e he)
  rw [readLinks, List.mapM_map]
  exact mapM_eq_ok hEach

/-! ## Settings -/

omit [Coordinate α] in
theorem value_of_mem_setOption {β : Type} {options : List (String × β)} {key : String} {value : β}
    {e : String × β} (h : e ∈ LayoutOptions.setOption options key value) :
    e ∈ options ∨ e.2 = value := by
  unfold LayoutOptions.setOption at h
  split at h
  · obtain ⟨o, ho, rfl⟩ := List.mem_map.mp h
    split
    · exact .inr rfl
    · exact .inl ho
  · rcases List.mem_append.mp h with hOld | hNew
    · exact .inl hOld
    · exact .inr (congrArg Prod.snd (List.mem_singleton.mp hNew))

theorem value_of_mem_settings {o : LayoutOptions} {direction : Direction}
    {e : String × Document Amount} (h : e ∈ o.settings direction) :
    (∃ s, e.2 = .string s) ∨ ∃ setting : Setting, e.2 = setting.value := by
  unfold LayoutOptions.settings at h
  generalize o.extra = extra at h
  induction extra using List.reverseRecOn with
  | nil =>
    obtain ⟨own, _, rfl⟩ := List.mem_map.mp h
    exact .inl ⟨_, rfl⟩
  | append_singleton extra last ih =>
    rw [List.foldl_append] at h
    rcases value_of_mem_setOption h with hOld | hNew
    · exact ih hOld
    · exact .inr ⟨last.2, hNew⟩

theorem readSpacing_settings (o : LayoutOptions) (direction : Direction) :
    ∃ s : Spacing α, readSpacing (o.settings direction) = .ok s := by
  rcases readSpacing_cases (α := α) (o.settings direction) with
    ⟨_, hRead⟩ | ⟨⟨key, _, n, hFound, hLarge⟩, _⟩
  · exact hRead
  · obtain ⟨before, after, hSplit, _⟩ := List.lookup_eq_some_iff.mp hFound
    rcases value_of_mem_settings (hSplit ▸ List.mem_append_right before List.mem_cons_self) with
      ⟨s, hText⟩ | ⟨setting, hValue⟩
    · cases hText
    · rw [setting.inRange n hValue.symm] at hLarge
      cases hLarge

/-! ## Drawing -/

/-- The request of a diagram is read as a box for each node and a route for each edge. -/
structure ReadsAs (pinned : List String) (nodes : List (Node α)) (edges : List Edge)
    (r : Resolved α) : Prop where
  keys : r.boxes.keys = nodes.map Node.id
  boxes : ∀ n ∈ nodes, ∃ b, r.boxes.get? n.id = some b ∧ BoxFor pinned n b
  routes : r.routes = edges.map routeOf

theorem Drawable.resolves (h : Drawable nodes edges) (options : LayoutOptions)
    (direction : Direction) (pinned : List String) :
    ∃ r, resolveRequest (requestFor options nodes edges direction pinned) = .ok r ∧
      ReadsAs pinned nodes edges r := by
  obtain ⟨boxes, hChildren, hKeys, hBoxes⟩ := readChildren_childOf direction pinned h.distinct
  obtain ⟨spacing, hSpacing⟩ := readSpacing_settings (α := α) options direction
  exact ⟨⟨boxes, edges.map routeOf, spacing⟩, resolveRequest_eq_ok_iff.mpr
    ⟨hSpacing, hChildren, readLinks_linkOf h hKeys hBoxes⟩, hKeys, hBoxes, rfl⟩

end TypeDiagram.Diagram
