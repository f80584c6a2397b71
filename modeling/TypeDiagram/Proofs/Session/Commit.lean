import TypeDiagram.Proofs.OrderedMap
import TypeDiagram.Proofs.Model.Names
import TypeDiagram.Session.Run

/-! # What an operation does to the view and its caches

Every change of the view is a commit, of a view that is built anew or of the same nodes with other
positions and sizes. All other operations leave the view, the pins and the caches alone.
-/

namespace TypeDiagram

open Diagram

/-- What a diagram keeps from one operation to the next: its view, the pins and the caches. -/
structure Session.Store (α : Type) where
  models : List Model
  nodes : List (Node α)
  edges : List Edge
  pinned : List String
  metrics : OrderedMap String (Session.Metrics α)
  detached : OrderedMap String (Session.Metrics α)
  edgeCount : Nat
  topology : OrderedMap String Model.TopologyHash

variable {α : Type}

def Session.store (s : Session α) : Session.Store α :=
  ⟨s.models, s.nodes, s.edges, s.pinned, s.metrics, s.detached, s.edgeCount, s.topology⟩

namespace Session

/-! ## Metrics -/

theorem keys_metricsOf {nodes : List (Node α)} (h : (nodes.map Node.id).Nodup) :
    (metricsOf nodes).keys = nodes.map Node.id := by
  have hKeys : (nodes.map fun n => (n.id, Metrics.of n)).map (·.1) = nodes.map Node.id := by
    rw [List.map_map]
    rfl
  rw [metricsOf, OrderedMap.keys_ofList (hKeys ▸ h), hKeys]

theorem entries_metricsOf {nodes : List (Node α)} (h : (nodes.map Node.id).Nodup) :
    (metricsOf nodes).entries = nodes.map fun n => (n.id, Metrics.of n) := by
  apply OrderedMap.entries_ofList
  rw [List.map_map]
  exact h

theorem get?_metricsOf {nodes : List (Node α)} (h : (nodes.map Node.id).Nodup) {n : Node α}
    (hn : n ∈ nodes) : (metricsOf nodes).get? n.id = some (Metrics.of n) := by
  apply OrderedMap.get?_eq_some_of_mem
  · rwa [keys_metricsOf h]
  · rw [entries_metricsOf h]
    exact List.mem_map.mpr ⟨n, hn, rfl⟩

theorem get?_detach {detached last current : OrderedMap String (Metrics α)}
    (h : last.keys.Nodup) (id : String) :
    (detach detached last current).get? id =
      if id ∈ current.keys then none else (last.get? id <|> detached.get? id) := by
  have hGone : ((last.entries.filter fun e => !current.contains e.1).map (·.1)).Nodup :=
    h.sublist (List.filter_sublist.map _)
  rw [detach, OrderedMap.get?_foldl_erase, OrderedMap.get?_foldl_insert _ hGone,
    OrderedMap.get?_filter last (fun id => !current.contains id)]
  by_cases hIn : id ∈ current.keys
  · rw [if_pos hIn, if_pos hIn]
  · have hOut : (!current.contains id) = true := by
      rw [Bool.not_eq_true', Bool.eq_false_iff]
      exact mt (OrderedMap.contains_iff current id).mp hIn
    rw [if_neg hIn, if_neg hIn, if_pos hOut]

theorem restored_id (s : Session α) (n : Node α) : (s.restored n).id = n.id := by
  unfold restored
  split <;> rfl

theorem restored_model (s : Session α) (n : Node α) : (s.restored n).model = n.model := by
  unfold restored
  split <;> rfl

/-! ## Commits -/

variable [Coordinate α]

theorem commit_eq (s : Session α) (nodes : List (Node α)) (edges : List Edge) :
    s.commit nodes edges = { s with
      nodes := nodes
      edges := edges
      metrics := metricsOf nodes
      detached := detach s.detached s.metrics (metricsOf nodes)
      edgeCount := edges.length
      scheduler :=
        if needsLayout { s with nodes := nodes, edges := edges } then
          s.scheduler.request .startLayout
        else s.scheduler
      log := s.log ++ [⟨.stateCommitted, none, .committed nodes.length edges.length⟩] } := by
  by_cases h : needsLayout { s with nodes := nodes, edges := edges } = true
  · rw [if_pos h]
    exact if_pos h
  · rw [if_neg h]
    exact if_neg h

theorem remembered?_commit {s : Session α} (h : s.metrics.keys.Nodup) (nodes : List (Node α))
    (edges : List Edge) (id : String) :
    (s.commit nodes edges).remembered? id = ((metricsOf nodes).get? id <|> s.remembered? id) := by
  rw [commit_eq]
  change ((metricsOf nodes).get? id <|> (detach s.detached s.metrics (metricsOf nodes)).get? id) = _
  rw [get?_detach h]
  by_cases hIn : id ∈ (metricsOf nodes).keys
  · obtain ⟨m, hm⟩ := OrderedMap.mem_keys_iff_exists.mp hIn
    simp [hm]
  · rw [if_neg hIn]
    rfl

theorem mem_keys_detached_commit {s : Session α} (h : s.metrics.keys.Nodup)
    (nodes : List (Node α)) (edges : List Edge) (id : String) :
    id ∈ (s.commit nodes edges).detached.keys ↔
      id ∉ (metricsOf nodes).keys ∧ (id ∈ s.metrics.keys ∨ id ∈ s.detached.keys) := by
  rw [commit_eq]
  change id ∈ (detach s.detached s.metrics (metricsOf nodes)).keys ↔ _
  rw [← OrderedMap.get?_isSome_iff, get?_detach h, ← OrderedMap.get?_isSome_iff s.metrics,
    ← OrderedMap.get?_isSome_iff s.detached]
  by_cases hIn : id ∈ (metricsOf nodes).keys <;> simp [hIn]

/-- A new view is committed, and what it tells of changed neighbours is added to the log. -/
theorem setModels_eq (s : Session α) (models : List Model) :
    s.setModels models =
      { s.commit ((nodesOf models).map s.restored) (edgesOf models) with
        models := models
        topology := topologyOf models
        log := (s.commit ((nodesOf models).map s.restored) (edgesOf models)).log ++
          invalidations s.topology (topologyOf models) } := by
  change (({ s with models := models }).commit ((nodesOf models).map s.restored)
    (edgesOf models)).invalidateConnections models = _
  rw [commit_eq, commit_eq]
  rfl

theorem setModels_nodes (s : Session α) (models : List Model) :
    (s.setModels models).nodes = (nodesOf models).map s.restored := by
  rw [setModels_eq, commit_eq]

theorem setModels_edges (s : Session α) (models : List Model) :
    (s.setModels models).edges = edgesOf models := by
  rw [setModels_eq, commit_eq]

theorem setModels_store (s : Session α) (models : List Model) :
    (s.setModels models).store =
      { (s.commit ((nodesOf models).map s.restored) (edgesOf models)).store with
        models := models
        topology := topologyOf models } := by
  rw [setModels_eq]
  rfl

end Session

end TypeDiagram
