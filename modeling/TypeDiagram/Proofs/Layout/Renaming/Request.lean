import TypeDiagram.Proofs.Layout.Renaming.Plan
import Mathlib.Algebra.Group.End
import Mathlib.Logic.Equiv.Fintype

/-! # Renamed requests

A request has one name space for its children and their handles. An injective renaming of these
names extends to all names there are: to one of handles that does not touch what stands for none,
and to one of boxes that does not touch dummies. With it a request that is read is read again, to
renamed boxes and routes.
-/

namespace TypeDiagram.Layout

variable {α κ : Type}

/-! ## Renaming -/

def renamedId (ρ : Name → Name) (id : String) : String := (ρ (.text id)).text?.getD id

def Handle.rename (ρ : Name → Name) (p : Handle α) : Handle α := { p with id := p.id.map ρ }

def Child.rename (ρ : Name → Name) (c : Child α κ) : Child α κ :=
  { c with id := c.id.map (renamedId ρ), handles := c.handles.map (Handle.rename ρ) }

def Link.rename (ρ : Name → Name) (l : Link κ) : Link κ :=
  { l with sources := l.sources.map ρ, targets := l.targets.map ρ }

def Request.rename (ρ : Name → Name) (r : Request α κ) : Request α κ :=
  ⟨r.settings, r.children.map (Child.rename ρ), r.edges.map (Link.rename ρ)⟩

theorem Name.eq_text_of_text? {name : Name} {s : String} (h : name.text? = some s) :
    name = .text s := by
  cases name with
  | text t => exact congrArg Name.text (Option.some.inj h)
  | null => cases h
  | number value => cases h

def Request.names (r : Request α κ) : List Name :=
  (r.children.filterMap Child.id).map .text ++
    r.children.flatMap fun c => c.handles.filterMap Handle.id

/-- The renaming keeps the names of a request apart. It makes ids of ids, and no child passes for
the crossing of a layer before or after; the name `null`, which stands for no handle, stays what it
is. -/
structure Request.KeepsApart (request : Request α κ) (ρ : Name → Name) : Prop where
  injective : Set.InjOn ρ {name | name ∈ request.names}
  plain : ∀ c ∈ request.children, ∀ id, c.id = some id → isDummy id = false
  child : ∀ c ∈ request.children, ∀ id, c.id = some id →
    ∃ new, ρ (.text id) = .text new ∧ isDummy new = false
  null : ∀ name ∈ request.names, ρ name = .null ↔ name = .null

theorem Request.mem_names_of_child {request : Request α κ} {c : Child α κ}
    (hc : c ∈ request.children) {id : String} (hId : c.id = some id) : .text id ∈ request.names :=
  List.mem_append_left _ (List.mem_map_of_mem (List.mem_filterMap.mpr ⟨c, hc, hId⟩))

theorem Request.mem_names_of_handle {request : Request α κ} {c : Child α κ}
    (hc : c ∈ request.children) {p : Handle α} (hp : p ∈ c.handles) {name : Name}
    (hName : p.id = some name) : name ∈ request.names :=
  List.mem_append_right _
    (List.mem_flatMap.mpr ⟨c, hc, List.mem_filterMap.mpr ⟨p, hp, hName⟩⟩)

/-- The renaming does to the names of a request what `ρ` does. -/
structure Renaming.Extends (σ : Renaming) (ρ : Name → Name) (request : Request α κ) : Prop where
  box : ∀ c ∈ request.children, ∀ id, c.id = some id → ρ (.text id) = .text (σ.box id)
  handle : ∀ name ∈ request.names, σ.handle name = ρ name

/-! ## From the names of a request to all names -/

section Extension

variable {request : Request α κ} {ρ : Name → Name} (h : request.KeepsApart ρ)

include h

theorem Request.KeepsApart.exists_handle : ∃ τ : Equiv.Perm Name, τ .null = .null ∧
    ∀ name ∈ request.names, τ name = ρ name := by
  -- `null` is kept by the extension because it is among the names that are extended.
  let image (name : { name // name ∈ Name.null :: request.names }) : Name :=
    if name.1 = .null then .null else ρ name.1
  have hKeep : ∀ name ∈ request.names, (if name = .null then .null else ρ name) = ρ name := by
    intro name hName
    split
    · rename_i hNull
      exact ((h.null name hName).mpr hNull).symm
    · rfl
  have hImage : Function.Injective image := by
    rintro ⟨m, hm⟩ ⟨n, hn⟩ hSame
    simp only [image] at hSame
    refine Subtype.ext ?_
    rcases List.mem_cons.mp hm with rfl | hm <;> rcases List.mem_cons.mp hn with rfl | hn
    · rfl
    · rw [if_pos rfl, hKeep n hn] at hSame
      exact ((h.null n hn).mp hSame.symm).symm
    · rw [if_pos rfl, hKeep m hm] at hSame
      exact (h.null m hm).mp hSame
    · rw [hKeep m hm, hKeep n hn] at hSame
      exact h.injective hm hn hSame
  obtain ⟨τ, hτ⟩ := Equiv.Perm.exists_extending_pair Subtype.val image Subtype.val_injective hImage
  refine ⟨τ, (hτ ⟨.null, List.mem_cons_self⟩).trans (if_pos rfl), fun name hName => ?_⟩
  exact (hτ ⟨name, List.mem_cons_of_mem _ hName⟩).trans (hKeep name hName)

theorem Request.KeepsApart.exists_box :
    ∃ τ : Equiv.Perm String, (∀ id, isDummy id = true → τ id = id) ∧
      ∀ c ∈ request.children, ∀ id, c.id = some id → ρ (.text id) = .text (τ id) := by
  let ids := request.children.filterMap Child.id
  have hNew : ∀ id ∈ ids, isDummy (renamedId ρ id) = false ∧
      ρ (.text id) = .text (renamedId ρ id) := by
    intro id hId
    obtain ⟨c, hc, hChild⟩ := List.mem_filterMap.mp hId
    obtain ⟨new, hText, hPlain⟩ := h.child c hc id hChild
    unfold renamedId
    rw [hText]
    exact ⟨hPlain, rfl⟩
  have hOld : ∀ id ∈ ids, isDummy id = false ∧ .text id ∈ request.names := by
    intro id hId
    obtain ⟨c, hc, hChild⟩ := List.mem_filterMap.mp hId
    exact ⟨h.plain c hc id hChild, request.mem_names_of_child hc hChild⟩
  -- The ids of dummies are outside the subtype that is permuted.
  let old (id : { id // id ∈ ids }) : { s // isDummy s = false } := ⟨id.1, (hOld id.1 id.2).1⟩
  let new (id : { id // id ∈ ids }) : { s // isDummy s = false } :=
    ⟨renamedId ρ id.1, (hNew id.1 id.2).1⟩
  have hOldInj : Function.Injective old := by
    intro m n hSame
    have hIds : m.1 = n.1 := congrArg (fun s : { s // isDummy s = false } => s.1) hSame
    exact Subtype.ext hIds
  have hNewInj : Function.Injective new := by
    rintro ⟨m, hm⟩ ⟨n, hn⟩ hSame
    have hNames : ρ (.text m) = ρ (.text n) := by
      rw [(hNew m hm).2, (hNew n hn).2]
      exact congrArg (fun s : { s // isDummy s = false } => Name.text s.1) hSame
    exact Subtype.ext (Name.text.inj (h.injective (hOld m hm).2 (hOld n hn).2 hNames))
  obtain ⟨τ, hτ⟩ := Equiv.Perm.exists_extending_pair old new hOldInj hNewInj
  refine ⟨Equiv.Perm.ofSubtype τ, fun id hDummy => ?_, fun c hc id hId => ?_⟩
  · exact Equiv.Perm.ofSubtype_apply_of_not_mem τ (by simp [hDummy])
  · have hIn : id ∈ ids := List.mem_filterMap.mpr ⟨c, hc, hId⟩
    rw [(hNew id hIn).2, Equiv.Perm.ofSubtype_apply_of_mem τ (hOld id hIn).1]
    exact congrArg (fun s => Name.text s.1) (hτ ⟨id, hIn⟩).symm

theorem Request.KeepsApart.exists_extends : ∃ σ : Renaming, σ.Extends ρ request := by
  obtain ⟨τ, hDummy, hBox⟩ := h.exists_box
  obtain ⟨υ, hNull, hHandle⟩ := h.exists_handle
  exact ⟨⟨τ, υ, τ.injective, υ.injective, hDummy, hNull⟩, hBox, hHandle⟩

end Extension

/-! ## Reading -/

variable [Coordinate α] {σ : Renaming}

theorem mapM_except_map {β γ δ ε : Type} {read : β → Except ε γ} {read' : β → Except ε δ}
    {f : γ → δ} (h : ∀ x, read' x = (read x).map f) (xs : List β) :
    xs.mapM read' = (xs.mapM read).map (List.map f) := by
  induction xs with
  | nil => rfl
  | cons x xs ih =>
    rw [List.mapM_cons, List.mapM_cons, h, ih]
    cases read x with
    | error e => rfl
    | ok y => cases xs.mapM read <;> rfl

theorem readHandles_rename (handles : List (Handle α)) :
    readHandles (handles.map (Handle.rename σ.handle)) =
      (readHandles handles).map (OrderedMap.rename σ.handle id) := by
  let idOf (p : Handle α) : Except Error Name := p.id.elim (.error .handleWithoutId) .ok
  have hSorted : sortHandles (handles.map (Handle.rename σ.handle)) =
      (sortHandles handles).map (Handle.rename σ.handle) := by
    refine (List.map_mergeSort fun _ _ _ _ => ?_).symm
    rfl
  have hIds : (sortHandles (handles.map (Handle.rename σ.handle))).mapM idOf =
      ((sortHandles handles).mapM idOf).map (List.map σ.handle) := by
    rw [hSorted, List.mapM_map]
    refine mapM_except_map (fun p => ?_) _
    obtain ⟨name, order, side⟩ := p
    cases name <;> rfl
  unfold readHandles
  rw [hIds, List.length_map]
  cases (sortHandles handles).mapM idOf with
  | error e => rfl
  | ok ids =>
    refine congrArg Except.ok ?_
    rw [← OrderedMap.ofList_rename σ.handle_injective, List.zipIdx_map, List.map_map, List.map_map]
    rfl

theorem readChild_rename {ρ : Name → Name} {c : Child α κ}
    (hBox : ∀ id, c.id = some id → ρ (.text id) = .text (σ.box id))
    (hHandles : c.handles.map (Handle.rename ρ) = c.handles.map (Handle.rename σ.handle))
    {boxes : Boxes α} {index : Nat} {n : String} {b : Box α}
    (hRead : readChild boxes c index = .ok (n, b)) :
    readChild (boxes.rename σ) (c.rename ρ) index = .ok (σ.box n, b.rename σ) := by
  obtain ⟨hNew, hOf⟩ := boxOf_of_readChild hRead
  have hSame := readChild_eq_ok hOf.id hNew hOf.seed hOf.handles hOf.width hOf.height index
  have hId : (c.rename ρ).id = some (σ.box n) := by
    rw [Child.rename, hOf.id, Option.map_some, renamedId, hBox n hOf.id]
    rfl
  have hFree : σ.box n ∉ OrderedMap.keys (boxes.rename σ) := by
    rwa [boxes.keys_rename, List.mem_map_of_injective σ.box_injective]
  have hFractions : readHandles (c.rename ρ).handles = .ok (b.handles.rename σ.handle id) := by
    rw [Child.rename, hHandles, readHandles_rename, hOf.handles]
    rfl
  rw [readChild_eq_ok hId hFree hOf.seed hFractions hOf.width hOf.height]
  rw [hRead] at hSame
  obtain ⟨size, index', seed, handles, position⟩ := b
  cases hSame
  rfl

omit [Coordinate α] in
theorem handleOwners_rename (boxes : Boxes α) :
    handleOwners (boxes.rename σ) = (handleOwners boxes).rename σ.handle σ.box := by
  unfold handleOwners
  rw [← OrderedMap.ofList_rename σ.handle_injective]
  refine congrArg OrderedMap.ofList ?_
  simp only [Boxes.rename, OrderedMap.rename, List.flatMap_map, List.map_flatMap]
  refine List.flatMap_congr fun e _ => ?_
  dsimp only [Prod.map]
  rw [Box.rename, OrderedMap.keys_rename, List.map_map, List.map_map]
  rfl

theorem exists_handle_of_mem_keys {handles : List (Handle α)} {fractions : OrderedMap Name α}
    (h : readHandles handles = .ok fractions) {name : Name} (hName : name ∈ fractions.keys) :
    ∃ p ∈ handles, p.id = some name := by
  obtain ⟨ids, hIds, hFractions⟩ := bind_eq_ok_iff.mp h
  cases hFractions
  rw [OrderedMap.mem_keys_ofList, List.map_map] at hName
  change name ∈ ids.zipIdx.map Prod.fst at hName
  rw [List.zipIdx_map_fst] at hName
  obtain ⟨p, hp, hId⟩ := exists_of_mapM_eq_ok hIds hName
  refine ⟨p, (List.mergeSort_perm _ _).mem_iff.mp hp, ?_⟩
  cases hSome : p.id with
  | none =>
    rw [hSome] at hId
    cases hId
  | some other =>
    rw [hSome] at hId
    exact congrArg some (Except.ok.inj hId)

section Read

variable {request : Request α κ} {ρ : Name → Name} (h : σ.Extends ρ request) {boxes : Boxes α}
  (hRead : Layout.readChildren request.children = .ok boxes)

include h hRead

theorem Renaming.Extends.readChildren :
    Layout.readChildren (request.rename ρ).children = .ok (boxes.rename σ) := by
  let Renamed (c c' : Child α κ) : Prop := c ∈ request.children ∧ c' = c.rename ρ
  have hRenamed : List.Forall₂ Renamed request.children (request.rename ρ).children := by
    rw [Request.rename, List.forall₂_map_right_iff, List.forall₂_same]
    exact fun c hc => ⟨hc, rfl⟩
  refine readChildren_of_forall₂ (F := Boxes.rename σ) rfl ?_ hRenamed hRead
  rintro c _ start index n b ⟨hc, rfl⟩ hChild
  have hHandles : c.handles.map (Handle.rename ρ) = c.handles.map (Handle.rename σ.handle) := by
    refine List.map_congr_left fun p hp => ?_
    unfold Handle.rename
    cases hName : p.id with
    | none => rfl
    | some name =>
      rw [Option.map_some, Option.map_some,
        h.handle name (request.mem_names_of_handle hc hp hName)]
  exact ⟨_, _, readChild_rename (h.box c hc) hHandles hChild, start.insert_rename n b⟩

omit h in
theorem mem_names_of_boxNamed? {name : Name} {n : String}
    (hNamed : boxNamed? boxes (handleOwners boxes) name = some n) : name ∈ request.names := by
  unfold boxNamed? at hNamed
  rw [Option.filter_eq_some_iff] at hNamed
  cases hOwner : (handleOwners boxes).get? name with
  | some owner =>
    obtain ⟨b, hb, hHas⟩ := mem_keys_of_get?_handleOwners (nodup_readChildren hRead) hOwner
    obtain ⟨c, hc, hOf⟩ := exists_child_of_get? hRead hb
    obtain ⟨p, hp, hName⟩ := exists_handle_of_mem_keys hOf.handles hHas
    exact request.mem_names_of_handle hc hp hName
  | none =>
    rw [hOwner] at hNamed
    obtain ⟨c, hc, hOwn⟩ :=
      exists_child_of_mem_keys hRead ((OrderedMap.contains_iff boxes n).mp hNamed.2)
    rw [Name.eq_text_of_text? hNamed.1]
    exact request.mem_names_of_child hc hOwn

theorem Renaming.Extends.boxNamed? {name : Name} {n : String}
    (hNamed : Layout.boxNamed? boxes (handleOwners boxes) name = some n) :
    Layout.boxNamed? (boxes.rename σ) (handleOwners (boxes.rename σ)) (ρ name) =
      some (σ.box n) := by
  have hOwner : (handleOwners (boxes.rename σ)).get? (ρ name) =
      ((handleOwners boxes).get? name).map σ.box := by
    rw [handleOwners_rename, ← h.handle name (mem_names_of_boxNamed? hRead hNamed),
      OrderedMap.get?_rename σ.handle_injective]
  unfold Layout.boxNamed? at hNamed ⊢
  rw [Option.filter_eq_some_iff] at hNamed ⊢
  rw [hOwner, Boxes.rename, OrderedMap.contains_rename σ.box_injective]
  refine ⟨?_, hNamed.2⟩
  cases hOld : (handleOwners boxes).get? name with
  | some owner =>
    rw [hOld] at hNamed
    exact congrArg (fun n => some (σ.box n)) (Option.some.inj hNamed.1)
  | none =>
    rw [hOld] at hNamed
    obtain ⟨c, hc, hOwn⟩ :=
      exists_child_of_mem_keys hRead ((OrderedMap.contains_iff boxes n).mp hNamed.2)
    rw [Name.eq_text_of_text? hNamed.1, h.box c hc n hOwn]
    rfl

theorem Renaming.Extends.readLink {l : Link κ} {route : Route}
    (hLink : Layout.readLink boxes (handleOwners boxes) l = .ok route) :
    Layout.readLink (boxes.rename σ) (handleOwners (boxes.rename σ)) (l.rename ρ) =
      .ok (route.rename σ) := by
  unfold Layout.readLink at hLink
  split at hLink
  · rename_i s _ t _ hSources hTargets
    split at hLink
    · rename_i source target hSource hTarget
      cases hLink
      have hName := h.handle s (mem_names_of_boxNamed? hRead hSource)
      unfold Layout.readLink Link.rename
      rw [hSources, hTargets, List.map_cons, List.map_cons]
      dsimp only
      rw [h.boxNamed? hRead hSource, h.boxNamed? hRead hTarget]
      dsimp only
      rw [← hName, handleOwners_rename, OrderedMap.contains_rename σ.handle_injective]
      unfold Route.rename
      dsimp only
      split <;> rfl
    · cases hLink
  · cases hLink

theorem Renaming.Extends.readLinks {routes : List Route}
    (hLinks : Layout.readLinks boxes request.edges = .ok routes) :
    Layout.readLinks (boxes.rename σ) (request.rename ρ).edges =
      .ok (routes.map (Route.rename σ)) := by
  refine mapM_eq_ok_of_forall₂ ?_
  rw [Request.rename, List.forall₂_map_left_iff, List.forall₂_map_right_iff]
  exact (forall₂_of_mapM_eq_ok hLinks).imp fun _ _ hLink => h.readLink hRead hLink

end Read

theorem Renaming.Extends.resolveRequest {request : Request α κ} {ρ : Name → Name}
    (h : σ.Extends ρ request) {r : Resolved α} (hRead : Layout.resolveRequest request = .ok r) :
    Layout.resolveRequest (request.rename ρ) = .ok (r.rename σ) := by
  obtain ⟨hChildren, hLinks⟩ := resolveRequest_eq_ok hRead
  have hSpacing := readSpacing_of_resolveRequest hRead
  exact resolveRequest_eq_ok_iff.mpr
    ⟨hSpacing, h.readChildren hChildren, h.readLinks hChildren hLinks⟩

end TypeDiagram.Layout
