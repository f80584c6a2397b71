import TypeDiagram.Layout.Box
import TypeDiagram.Proofs.OrderedMap
import Mathlib.Data.List.Forall2

/-! # Requests without defects

Reading a request fails at its first defect only. Where every handle has an id, every child an id of
its own and every edge two ends that name boxes, the request is read to its end.
-/

namespace TypeDiagram.Layout

theorem bind_eq_ok_iff {β γ ε : Type} {x : Except ε β} {f : β → Except ε γ} {z : γ} :
    x >>= f = .ok z ↔ ∃ y, x = .ok y ∧ f y = .ok z := by
  cases x with
  | error e => exact ⟨nofun, nofun⟩
  | ok y => exact ⟨fun h => ⟨y, rfl, h⟩, fun ⟨_, hSame, h⟩ => Except.ok.inj hSame ▸ h⟩

theorem bind_eq_error_iff {β γ ε : Type} {x : Except ε β} {f : β → Except ε γ} {e : ε} :
    x >>= f = .error e ↔ x = .error e ∨ ∃ y, x = .ok y ∧ f y = .error e := by
  cases x with
  | error e' => exact ⟨fun h => .inl (congrArg _ (Except.error.inj h)),
      fun h => h.elim (fun hSame => congrArg _ (Except.error.inj hSame)) nofun⟩
  | ok y => exact ⟨fun h => .inr ⟨y, rfl, h⟩,
      fun h => h.elim nofun fun ⟨_, hSame, h⟩ => Except.ok.inj hSame ▸ h⟩

theorem bind_pure_eq_error_iff {β γ ε : Type} {x : Except ε β} {f : β → γ} {e : ε} :
    (x >>= fun y => pure (f y)) = .error e ↔ x = .error e := by
  rw [bind_eq_error_iff, or_iff_left]
  rintro ⟨_, _, ⟨⟩⟩

theorem mapM_eq_ok_of_forall₂ {β γ ε : Type} {read : β → Except ε γ} {xs : List β} {ys : List γ}
    (h : List.Forall₂ (fun x y => read x = .ok y) xs ys) : xs.mapM read = .ok ys := by
  induction h with
  | nil => rfl
  | cons hFirst _ ih =>
    rw [List.mapM_cons, hFirst, ih]
    rfl

theorem mapM_eq_ok {β γ ε : Type} {read : β → Except ε γ} {value : β → γ} {xs : List β}
    (h : ∀ x ∈ xs, read x = .ok (value x)) : xs.mapM read = .ok (xs.map value) :=
  mapM_eq_ok_of_forall₂ (List.forall₂_map_right_iff.mpr (List.forall₂_same.mpr h))

theorem forall₂_of_mapM_eq_ok {β γ ε : Type} {read : β → Except ε γ} {xs : List β} {ys : List γ}
    (h : xs.mapM read = .ok ys) : List.Forall₂ (fun x y => read x = .ok y) xs ys := by
  induction xs generalizing ys with
  | nil =>
    cases h
    exact .nil
  | cons x xs ih =>
    rw [List.mapM_cons] at h
    obtain ⟨first, hFirst, h⟩ := bind_eq_ok_iff.mp h
    obtain ⟨rest, hRest, h⟩ := bind_eq_ok_iff.mp h
    cases h
    exact .cons hFirst (ih hRest)

theorem exists_of_mapM_eq_ok {β γ ε : Type} {read : β → Except ε γ} {xs : List β} {ys : List γ}
    (h : xs.mapM read = .ok ys) {y : γ} (hy : y ∈ ys) : ∃ x ∈ xs, read x = .ok y := by
  have hAll := forall₂_of_mapM_eq_ok h
  obtain ⟨i, hi, rfl⟩ := List.mem_iff_getElem.mp hy
  exact ⟨_, List.getElem_mem (hAll.length_eq ▸ hi), hAll.get (hAll.length_eq ▸ hi) hi⟩

/-- What is made of elements in step is related to the first ones, if it is for each pair. -/
theorem forall₂_map_zip {β γ δ : Type} {R : β → γ → Prop} {S : β → δ → Prop} {f : β × γ → δ}
    {xs : List β} {ys : List γ} (h : List.Forall₂ R xs ys) (hStep : ∀ x y, R x y → S x (f (x, y))) :
    List.Forall₂ S xs ((xs.zip ys).map f) := by
  induction h with
  | nil => exact .nil
  | cons hFirst _ ih => exact .cons (hStep _ _ hFirst) ih

variable {α κ : Type} [Coordinate α]

/-! ## Numbers -/

/-- A whole number that is too large to draw with. -/
def Quantity.TooLarge : Quantity α → Prop
  | .whole n => Amount.isTooLarge n = true
  | .number _ | .text _ => False

theorem Quantity.read_cases (q : Quantity α) (h : ∀ s, q ≠ .text s) :
    (¬ q.TooLarge ∧ ∃ v, q.read = .ok v) ∨ q.TooLarge ∧ q.read = .error .numberTooLarge := by
  cases q with
  | number v => exact .inl ⟨id, v, rfl⟩
  | whole n =>
    rw [Quantity.TooLarge, Quantity.read, readWhole]
    by_cases hLarge : Amount.isTooLarge n = true
    · rw [if_pos hLarge]
      exact .inr ⟨hLarge, rfl⟩
    · rw [if_neg hLarge]
      exact .inl ⟨hLarge, _, rfl⟩
  | text s => exact absurd rfl (h s)

theorem readExtent_cases {q : Option (Quantity α)} (h : ∀ s, q ≠ some (.text s)) :
    ((∀ size, q = some size → ¬ size.TooLarge) ∧ ∃ v, readExtent q = .ok v) ∨
      (∃ size, q = some size ∧ size.TooLarge) ∧ readExtent q = .error .numberTooLarge := by
  cases q with
  | none => exact .inl ⟨nofun, _, rfl⟩
  | some size =>
    have hRead : readExtent (some size) = size.read := by
      cases size with
      | text s => exact absurd rfl (h s)
      | number | whole => rfl
    rw [hRead]
    rcases size.read_cases fun s hText => h s (congrArg some hText) with
      ⟨hFits, hOk⟩ | ⟨hLarge, hError⟩
    · exact .inl ⟨fun _ hSame => Option.some.inj hSame ▸ hFits, hOk⟩
    · exact .inr ⟨⟨size, rfl, hLarge⟩, hError⟩

/-- A whole number that is too large stands under the name of an option. -/
def HoldsTooLarge (settings : List (String × Document Amount)) (key : String) : Prop :=
  ∃ n, settings.lookup key = some (.number (.whole n)) ∧ Amount.isTooLarge n = true

theorem readSetting_cases (settings : List (String × Document Amount)) (key : String)
    (standard : α) :
    (¬ HoldsTooLarge settings key ∧ ∃ v, readSetting settings key standard = .ok v) ∨
      HoldsTooLarge settings key ∧ readSetting settings key standard = .error .numberTooLarge := by
  rw [readSetting, HoldsTooLarge]
  split
  · rename_i n hFound
    rw [hFound, readWhole]
    by_cases hLarge : Amount.isTooLarge n = true
    · rw [if_pos hLarge]
      exact .inr ⟨⟨n, rfl, hLarge⟩, rfl⟩
    · rw [if_neg hLarge]
      refine .inl ⟨?_, _, rfl⟩
      rintro ⟨m, ⟨⟩, hToo⟩
      exact hLarge hToo
  · rename_i hOther
    refine .inl ⟨?_, _, rfl⟩
    rintro ⟨n, hFound, _⟩
    exact hOther n hFound

/-! ## Children -/

theorem readHandles_eq_ok {handles : List (Handle α)} {name : Handle α → Name}
    (h : ∀ p ∈ handles, p.id = some (name p)) :
    ∃ fractions, readHandles handles = .ok fractions ∧
      ∀ k, k ∈ fractions.keys ↔ k ∈ handles.map name := by
  have hPerm : (sortHandles handles).Perm handles := List.mergeSort_perm _ _
  have hIds : ((sortHandles handles).mapM fun p =>
      p.id.elim (Except.error Error.handleWithoutId) Except.ok) =
        Except.ok ((sortHandles handles).map name) :=
    mapM_eq_ok fun p hp => by rw [h p (hPerm.mem_iff.mp hp)]; rfl
  unfold readHandles
  rw [hIds]
  refine ⟨_, rfl, fun k => ?_⟩
  rw [OrderedMap.mem_keys_ofList, List.map_map]
  change k ∈ (((sortHandles handles).map name).zipIdx.map Prod.fst) ↔ _
  rw [List.zipIdx_map_fst, (hPerm.map name).mem_iff]

/-- A child with an id of its own, numbers for its sizes and its place, and handles with ids. -/
theorem readChild_eq_ok {boxes : Boxes α} {c : Child α κ} {id : String} {seed : Option (Position α)}
    {width height : α} {handles : OrderedMap Name α} (hId : c.id = some id)
    (hNew : id ∉ boxes.keys) (hSeed : readSeed c = .ok seed)
    (hHandles : readHandles c.handles = .ok handles) (hWidth : readExtent c.width = .ok width)
    (hHeight : readExtent c.height = .ok height) (index : Nat) : readChild boxes c index =
      .ok (id, ⟨⟨width, height⟩, index, seed, handles, ⟨Coordinate.nat 0, Coordinate.nat 0⟩⟩) := by
  have hFree : ¬ boxes.contains id = true := mt (OrderedMap.contains_iff boxes id).mp hNew
  unfold readChild
  rw [hId, hSeed, hHandles, hWidth, hHeight]
  exact if_neg hFree

theorem readChildren_concat {children : List (Child α κ)} {boxes : Boxes α}
    (h : readChildren children = .ok boxes) {c : Child α κ} {id : String} {b : Box α}
    (hChild : readChild boxes c children.length = .ok (id, b)) :
    readChildren (children ++ [c]) = .ok (boxes.insert id b) := by
  unfold readChildren at h ⊢
  rw [List.zipIdx_append, List.foldlM_append, h, List.zipIdx_singleton, Nat.zero_add]
  simp only [List.foldlM_cons, List.foldlM_nil, bind_pure]
  change (readChild boxes c children.length >>= fun child =>
    pure (boxes.insert child.1 child.2)) = _
  rw [hChild]
  rfl

omit [Coordinate α] in
theorem readLink_eq_ok {boxes : Boxes α} {owners : OrderedMap Name String} {l : Link κ}
    {handle : Name} {source target : String} (hSources : l.sources = [handle])
    (hTargets : l.targets = [.text target]) (hOwner : owners.get? handle = some source)
    (hNoOwner : owners.get? (.text target) = none) (hSource : source ∈ boxes.keys)
    (hTarget : target ∈ boxes.keys) :
    readLink boxes owners l = .ok ⟨l.label, source, target, some handle⟩ := by
  have hFrom : boxNamed? boxes owners handle = some source := by
    rw [boxNamed?, hOwner]
    simp [(OrderedMap.contains_iff boxes source).mpr hSource]
  have hTo : boxNamed? boxes owners (.text target) = some target := by
    rw [boxNamed?, hNoOwner]
    simp [Name.text?, (OrderedMap.contains_iff boxes target).mpr hTarget]
  have hHandle : owners.contains handle = true :=
    (OrderedMap.contains_iff owners handle).mpr (OrderedMap.mem_keys_of_get? hOwner)
  unfold readLink
  rw [hSources, hTargets]
  simp only [hFrom, hTo, hHandle, if_true]

/-! ## What is read -/

structure BoxOf (c : Child α κ) (id : String) (b : Box α) : Prop where
  id : c.id = some id
  width : readExtent c.width = .ok b.size.width
  height : readExtent c.height = .ok b.size.height
  seed : readSeed c = .ok b.seed
  handles : readHandles c.handles = .ok b.handles

theorem seed_of_readSeed {c : Child α κ} {seed : Option (Position α)} (h : readSeed c = .ok seed)
    {x y : Quantity α} (hx : c.x = some x) (hy : c.y = some y) :
    ∃ p, seed = some p ∧ x.read = .ok p.x ∧ y.read = .ok p.y := by
  rw [readSeed, hx, hy] at h
  obtain ⟨first, hFirst, h⟩ := bind_eq_ok_iff.mp h
  obtain ⟨second, hSecond, h⟩ := bind_eq_ok_iff.mp h
  cases h
  exact ⟨_, rfl, hFirst, hSecond⟩

theorem boxOf_of_readChild {boxes : Boxes α} {c : Child α κ} {index : Nat} {id : String}
    {b : Box α} (h : readChild boxes c index = .ok (id, b)) : id ∉ boxes.keys ∧ BoxOf c id b := by
  unfold readChild at h
  obtain ⟨id', hId, h⟩ := bind_eq_ok_iff.mp h
  split at h
  · cases h
  · rename_i hNew
    obtain ⟨seed, hSeed, h⟩ := bind_eq_ok_iff.mp h
    obtain ⟨handles, hHandles, h⟩ := bind_eq_ok_iff.mp h
    obtain ⟨width, hWidth, h⟩ := bind_eq_ok_iff.mp h
    obtain ⟨height, hHeight, h⟩ := bind_eq_ok_iff.mp h
    cases h
    refine ⟨mt (OrderedMap.contains_iff boxes id).mpr hNew, ?_, hWidth, hHeight, hSeed, hHandles⟩
    cases hSome : c.id with
    | none =>
      rw [hSome] at hId
      cases hId
    | some other =>
      rw [hSome] at hId
      exact congrArg some (Except.ok.inj hId)

/-- Reading children behind earlier boxes adds a box for each, with an id of its own. -/
theorem readChildren_behind {cs : List (Child α κ × Nat)} {start boxes : Boxes α}
    (hStart : start.keys.Nodup) (h : cs.foldlM (fun boxes c => do
      let child ← readChild boxes c.1 c.2
      return boxes.insert child.1 child.2) start = Except.ok boxes) :
    boxes.keys.Nodup ∧ ∃ new, boxes.entries = start.entries ++ new ∧
      List.Forall₂ (fun c e => BoxOf c.1 e.1 e.2) cs new := by
  induction cs generalizing start with
  | nil =>
    cases h
    exact ⟨hStart, [], (List.append_nil _).symm, .nil⟩
  | cons c cs ih =>
    rw [List.foldlM_cons] at h
    obtain ⟨next, hNext, hRest⟩ := bind_eq_ok_iff.mp h
    obtain ⟨⟨id, b⟩, hChild, hInsert⟩ := bind_eq_ok_iff.mp hNext
    cases hInsert
    obtain ⟨hNew, hBox⟩ := boxOf_of_readChild hChild
    obtain ⟨hNodup, new, hEntries, hAll⟩ := ih (OrderedMap.nodup_keys_insert hStart id b) hRest
    rw [OrderedMap.insert_of_not_mem hNew, List.append_assoc] at hEntries
    exact ⟨hNodup, (id, b) :: new, hEntries, .cons hBox hAll⟩

theorem nodup_readChildren {children : List (Child α κ)} {boxes : Boxes α}
    (h : readChildren children = .ok boxes) : boxes.keys.Nodup := by
  have hEmpty : (.empty : Boxes α).keys.Nodup := List.nodup_nil
  exact (readChildren_behind hEmpty h).1

theorem boxOf_of_readChildren {children : List (Child α κ)} {boxes : Boxes α}
    (h : readChildren children = .ok boxes) :
    List.Forall₂ (fun c e => BoxOf c e.1 e.2) children boxes.entries := by
  have hEmpty : (.empty : Boxes α).keys.Nodup := List.nodup_nil
  obtain ⟨_, new, hEntries, hAll⟩ := readChildren_behind hEmpty h
  change boxes.entries = [] ++ new at hEntries
  rw [hEntries, List.nil_append, ← List.zipIdx_map_fst 0 children]
  exact List.forall₂_map_left_iff.mpr hAll

theorem ids_of_readChildren {children : List (Child α κ)} {boxes : Boxes α}
    (h : readChildren children = .ok boxes) : children.map Child.id = boxes.keys.map some := by
  rw [OrderedMap.keys, List.map_map, ← List.forall₂_eq_eq_eq, List.forall₂_map_left_iff,
    List.forall₂_map_right_iff]
  exact (boxOf_of_readChildren h).imp fun _ _ hBox => hBox.id

theorem exists_child_of_get? {children : List (Child α κ)} {boxes : Boxes α}
    (h : readChildren children = .ok boxes) {id : String} {b : Box α}
    (hb : boxes.get? id = some b) : ∃ c ∈ children, BoxOf c id b := by
  have hBoxes := boxOf_of_readChildren h
  obtain ⟨i, hi, hEntry⟩ := List.mem_iff_getElem.mp (OrderedMap.mem_entries_of_get? hb)
  have hBox := hBoxes.get (hBoxes.length_eq ▸ hi) hi
  rw [List.get_eq_getElem, List.get_eq_getElem, hEntry] at hBox
  exact ⟨_, List.getElem_mem _, hBox⟩

theorem exists_box_of_mem {children : List (Child α κ)} {boxes : Boxes α}
    (h : readChildren children = .ok boxes) {c : Child α κ} (hc : c ∈ children) :
    ∃ id b, boxes.get? id = some b ∧ BoxOf c id b := by
  have hBoxes := boxOf_of_readChildren h
  obtain ⟨i, hi, rfl⟩ := List.mem_iff_getElem.mp hc
  have hEntry := List.getElem_mem (hBoxes.length_eq ▸ hi : i < boxes.entries.length)
  exact ⟨_, _, OrderedMap.get?_eq_some_of_mem (nodup_readChildren h) hEntry, hBoxes.get hi _⟩

theorem exists_child_of_mem_keys {children : List (Child α κ)} {boxes : Boxes α}
    (h : readChildren children = .ok boxes) {id : String} (hId : id ∈ boxes.keys) :
    ∃ c ∈ children, c.id = some id := by
  obtain ⟨b, hb⟩ := OrderedMap.mem_keys_iff_exists.mp hId
  obtain ⟨c, hc, hBox⟩ := exists_child_of_get? h hb
  exact ⟨c, hc, hBox.id⟩

/-- Where children are read one by one to boxes that go along with a change, all of them are. -/
theorem readChildren_of_forall₂ {R : Child α κ → Child α κ → Prop} {F : Boxes α → Boxes α}
    (hEmpty : F .empty = .empty)
    (hStep : ∀ {c c' boxes index id b}, R c c' → readChild boxes c index = .ok (id, b) →
      ∃ id' b', readChild (F boxes) c' index = .ok (id', b') ∧
        (F boxes).insert id' b' = F (boxes.insert id b))
    {children children' : List (Child α κ)} (h : List.Forall₂ R children children')
    {boxes : Boxes α} (hRead : readChildren children = .ok boxes) :
    readChildren children' = .ok (F boxes) := by
  let add (boxes : Boxes α) (e : Child α κ × Nat) : Except Error (Boxes α) :=
    readChild boxes e.1 e.2 >>= fun child => pure (boxes.insert child.1 child.2)
  suffices hAll : ∀ (k : Nat) (start : Boxes α), (children.zipIdx k).foldlM add start = .ok boxes →
      (children'.zipIdx k).foldlM add (F start) = .ok (F boxes) by
    have hBegin := hAll 0 .empty hRead
    rwa [hEmpty] at hBegin
  clear hRead
  induction h with
  | nil =>
    intro k start hStart
    cases hStart
    rfl
  | cons hFirst _ ih =>
    intro k start hStart
    rw [List.zipIdx_cons, List.foldlM_cons] at hStart ⊢
    obtain ⟨next, hNext, hRest⟩ := bind_eq_ok_iff.mp hStart
    obtain ⟨⟨id, b⟩, hChild, hInsert⟩ := bind_eq_ok_iff.mp hNext
    cases hInsert
    obtain ⟨id', b', hChild', hSame⟩ := hStep hFirst hChild
    refine bind_eq_ok_iff.mpr ⟨_, bind_eq_ok_iff.mpr ⟨_, hChild', rfl⟩, ?_⟩
    dsimp only
    rw [hSame]
    exact ih (k + 1) _ hRest

/-! ## Handles and edges -/

omit [Coordinate α] in
theorem mem_owners_iff {boxes : Boxes α} (h : boxes.keys.Nodup) (k : Name) (id : String) :
    (k, id) ∈ boxes.entries.flatMap (fun (id, b) => b.handles.keys.map fun handle => (handle, id)) ↔
      ∃ b, boxes.get? id = some b ∧ k ∈ b.handles.keys := by
  rw [List.mem_flatMap]
  constructor
  · rintro ⟨⟨id', b⟩, hEntry, hHandle⟩
    obtain ⟨handle, hIn, hSame⟩ := List.mem_map.mp hHandle
    obtain ⟨rfl, rfl⟩ := Prod.mk.inj hSame
    exact ⟨b, OrderedMap.get?_eq_some_of_mem h hEntry, hIn⟩
  · rintro ⟨b, hb, hIn⟩
    exact ⟨(id, b), OrderedMap.mem_entries_of_get? hb, List.mem_map_of_mem hIn⟩

omit [Coordinate α] in
theorem mem_keys_handleOwners_iff {boxes : Boxes α} (h : boxes.keys.Nodup) (k : Name) :
    k ∈ (handleOwners boxes).keys ↔ ∃ id b, boxes.get? id = some b ∧ k ∈ b.handles.keys := by
  rw [handleOwners, OrderedMap.mem_keys_ofList, List.mem_map]
  constructor
  · rintro ⟨⟨k, id⟩, hEntry, rfl⟩
    exact ⟨id, (mem_owners_iff h k id).mp hEntry⟩
  · rintro ⟨id, hOwner⟩
    exact ⟨(k, id), (mem_owners_iff h k id).mpr hOwner, rfl⟩

omit [Coordinate α] in
theorem mem_keys_of_get?_handleOwners {boxes : Boxes α} (h : boxes.keys.Nodup) {k : Name}
    {id : String} (hOwner : (handleOwners boxes).get? k = some id) :
    ∃ b, boxes.get? id = some b ∧ k ∈ b.handles.keys := by
  rcases OrderedMap.mem_of_get?_foldl_insert hOwner with hEntry | hNone
  · exact (mem_owners_iff h k id).mp hEntry
  · cases hNone

omit [Coordinate α] in
theorem boxNamed?_mem {boxes : Boxes α} {owners : OrderedMap Name String} {name : Name}
    {id : String} (h : boxNamed? boxes owners name = some id) : id ∈ boxes.keys := by
  unfold boxNamed? at h
  rw [Option.filter_eq_some_iff] at h
  exact (OrderedMap.contains_iff boxes id).mp h.2

omit [Coordinate α] in
theorem readLink_ends {boxes : Boxes α} {owners : OrderedMap Name String} {l : Link κ} {r : Route}
    (h : readLink boxes owners l = .ok r) : r.source ∈ boxes.keys ∧ r.target ∈ boxes.keys := by
  unfold readLink at h
  split at h
  · split at h
    · rename_i hSource hTarget
      cases h
      exact ⟨boxNamed?_mem hSource, boxNamed?_mem hTarget⟩
    · cases h
  · cases h

/-- A route that begins at a handle leaves the box that has it; one that begins at a box was named
like no handle. -/
theorem fraction_of_readLink {boxes : Boxes α} (h : boxes.keys.Nodup) {l : Link κ} {r : Route}
    (hLink : readLink boxes (handleOwners boxes) l = .ok r) {b : Box α}
    (hb : boxes.get? r.source = some b) : ∃ name, l.sources.head? = some name ∧
      b.fraction r.handle =
        (b.handles.get? name <|> b.handles.get? .null).getD Coordinate.half := by
  unfold readLink at hLink
  split at hLink
  · rename_i name _ _ _ hSources _
    split at hLink
    · rename_i source _ hSource _
      cases hLink
      refine ⟨name, by rw [hSources]; rfl, ?_⟩
      unfold Box.fraction
      cases hOwner : (handleOwners boxes).get? name with
      | some owner =>
        have hSame : owner = source := by
          rw [boxNamed?, hOwner, Option.filter_eq_some_iff] at hSource
          exact Option.some.inj hSource.1
        obtain ⟨b', hb', hHas⟩ := mem_keys_of_get?_handleOwners h hOwner
        rw [hSame, hb] at hb'
        rw [← Option.some.inj hb'] at hHas
        have hIs : (handleOwners boxes).contains name = true :=
          (OrderedMap.contains_iff _ _).mpr (OrderedMap.mem_keys_of_get? hOwner)
        obtain ⟨f, hf⟩ := OrderedMap.mem_keys_iff_exists.mp hHas
        rw [if_pos hIs, Option.getD_some, hf]
        rfl
      | none =>
        have hNot := (OrderedMap.get?_eq_none_iff _ _).mp hOwner
        have hIsNot : ¬ (handleOwners boxes).contains name = true :=
          mt (OrderedMap.contains_iff _ _).mp hNot
        have hLacks : b.handles.get? name = none := by
          rw [OrderedMap.get?_eq_none_iff]
          exact fun hHas => hNot ((mem_keys_handleOwners_iff h name).mpr ⟨_, b, hb, hHas⟩)
        rw [if_neg hIsNot, hLacks]
        rfl
    · cases hLink
  · cases hLink

end TypeDiagram.Layout
