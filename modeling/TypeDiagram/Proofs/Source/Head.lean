import TypeDiagram.Proofs.Source.Stack

/-! # Changes of the stack

Layers are added, and further links to them, but a layer keeps its state and its place, and the
links between layers stay moves of the automaton that read the text between them. Heads come and go;
those in front of a head that goes keep their numbers.
-/

namespace TypeDiagram.Source

namespace Stack

variable {text : List Char} {a : Automaton} {s s' : Stack} {n v w : Nat} {tree? : Option Subtree}
  {state : Nat} {l l' : Layer} {p : Path}

/-- A head may end in the layer, with the tree ahead. -/
def Head.Fits (s : Stack) (h : Head) : Prop :=
  h.layer < s.layers.size ∧ ∀ t ∈ h.ahead?, IsAhead (s.layer h.layer).place t

/-- The layers stand at the same place of the text in the same state. -/
structure Layer.Matches (l l' : Layer) : Prop where
  state : l'.state = l.state
  place : l'.place = l.place

theorem Layer.Matches.refl (l : Layer) : Layer.Matches l l := ⟨rfl, rfl⟩

theorem Layer.Matches.trans {k : Layer} (h : Layer.Matches l l') (h' : Layer.Matches l' k) :
    Layer.Matches l k :=
  ⟨h'.state.trans h.state, h'.place.trans h.place⟩

structure KeepsLayers (s s' : Stack) : Prop where
  size : s.layers.size ≤ s'.layers.size
  same : ∀ n < s.layers.size, Layer.Matches (s.layer n) (s'.layer n)

theorem KeepsLayers.refl (s : Stack) : KeepsLayers s s := ⟨Nat.le_refl _, fun _ _ => .refl _⟩

theorem KeepsLayers.trans {u : Stack} (h : KeepsLayers s s') (h' : KeepsLayers s' u) :
    KeepsLayers s u :=
  ⟨Nat.le_trans h.size h'.size, fun n hn =>
    (h.same n hn).trans (h'.same n (Nat.lt_of_lt_of_le hn h.size))⟩

theorem IsSound.head_layer_lt (h : s.IsSound text a) (v : Nat) :
    (s.head v).layer < s.layers.size := by
  unfold head
  cases hHead : s.heads[v]? with
  | none => exact h.bottom.1
  | some found => exact (h.heads found (Array.mem_of_getElem? hHead)).1

/-! ## Heads -/

theorem IsSound.withHeads (h : s.IsSound text a) {heads : Array Head}
    (hHeads : ∀ h ∈ heads, Head.Fits s h) : ({ s with heads } : Stack).IsSound text a :=
  ⟨h.links, hHeads, h.places, h.ground, h.bottom⟩

theorem IsSound.head_fits (h : s.IsSound text a) (v : Nat) : Head.Fits s (s.head v) := by
  refine ⟨h.head_layer_lt v, ?_⟩
  unfold head
  cases hHead : s.heads[v]? with
  | none => exact fun t ht => by cases ht
  | some found => exact (h.heads found (Array.mem_of_getElem? hHead)).2

theorem IsSound.modifyHead (h : s.IsSound text a) {f : Head → Head}
    (hf : Head.Fits s (f (s.head v))) : (s.modifyHead v f).IsSound text a := by
  refine h.withHeads fun found hFound => ?_
  obtain ⟨i, hi⟩ := Array.mem_iff_getElem?.mp hFound
  rw [Array.getElem?_modify] at hi
  split at hi
  · rename_i hSame
    subst hSame
    obtain ⟨old, hOld, rfl⟩ := Option.map_eq_some_iff.mp hi
    rwa [head, hOld, Option.getD_some] at hf
  · exact h.heads found (Array.mem_of_getElem? hi)

theorem IsSound.modifyHead_same (h : s.IsSound text a) {f : Head → Head}
    (hLayer : (f (s.head v)).layer = (s.head v).layer)
    (hAhead : (f (s.head v)).ahead? = (s.head v).ahead? ∨ (f (s.head v)).ahead? = none) :
    (s.modifyHead v f).IsSound text a := by
  have hHead := h.head_fits v
  refine h.modifyHead ⟨hLayer ▸ hHead.1, fun t ht => ?_⟩
  rcases hAhead with hSame | hNone
  · rw [hLayer]
    exact hHead.2 t (hSame ▸ ht)
  · rw [hNone] at ht
    cases ht

theorem IsSound.halt (h : s.IsSound text a) (v : Nat) : (s.halt v).IsSound text a :=
  h.modifyHead_same rfl (.inl rfl)

theorem getElem?_eraseIdxIfInBounds {α : Type} (xs : Array α) (w : Nat) (h : v < w) :
    (xs.eraseIdxIfInBounds w)[v]? = xs[v]? := by
  rw [Array.eraseIdxIfInBounds_eq]
  split
  · rename_i hw
    exact Array.getElem?_eraseIdx_of_lt hw h
  · rfl

theorem mem_of_mem_eraseIdxIfInBounds {α : Type} {xs : Array α} {w : Nat} {x : α}
    (h : x ∈ xs.eraseIdxIfInBounds w) : x ∈ xs := by
  rw [Array.eraseIdxIfInBounds_eq] at h
  split at h
  · exact Array.mem_of_mem_eraseIdx h
  · exact h

theorem IsSound.removeHead (h : s.IsSound text a) (v : Nat) : (s.removeHead v).IsSound text a :=
  h.withHeads fun found hFound => h.heads found (mem_of_mem_eraseIdxIfInBounds hFound)

theorem IsSound.pushHead (h : s.IsSound text a) {new : Head} (hNew : Head.Fits s new) :
    ({ s with heads := s.heads.push new } : Stack).IsSound text a := by
  refine h.withHeads fun found hFound => ?_
  rcases Array.mem_push.mp hFound with hFound | rfl
  · exact h.heads found hFound
  · exact hNew

theorem IsSound.addHead (h : s.IsSound text a) (v : Nat) (hLayer : n < s.layers.size) :
    (s.addHead v n).IsSound text a := h.pushHead ⟨hLayer, fun t ht => by cases ht⟩

theorem IsSound.copyHead (h : s.IsSound text a) (v : Nat) : (s.copyHead v).IsSound text a :=
  h.pushHead (h.head_fits v)

theorem IsSound.replaceHead (h : s.IsSound text a) (new old : Nat) :
    (s.replaceHead new old).IsSound text a := by
  unfold Stack.replaceHead
  split
  · exact h
  · exact (h.modifyHead (v := old) (h.head_fits new)).removeHead new

theorem IsSound.swapHeads (h : s.IsSound text a) (v w : Nat) :
    (s.swapHeads v w).IsSound text a := by
  unfold Stack.swapHeads
  exact (h.modifyHead (f := fun _ => s.head w) (v := v) (h.head_fits w)).modifyHead (h.head_fits v)

def BecomesHead (v w : Nat) (s s' : Stack) : Prop :=
  ∀ h, s.heads[v]? = some h → ∃ h', s'.heads[w]? = some h' ∧ h'.layer = h.layer

abbrev KeepsHead (v : Nat) (s s' : Stack) : Prop := BecomesHead v v s s'

theorem BecomesHead.refl (v : Nat) (s : Stack) : KeepsHead v s s := fun h hHead => ⟨h, hHead, rfl⟩

theorem BecomesHead.trans {x : Nat} {u : Stack} (h : BecomesHead v w s s')
    (h' : BecomesHead w x s' u) : BecomesHead v x s u := by
  intro found hFound
  obtain ⟨found', hFound', hSame⟩ := h found hFound
  obtain ⟨found'', hFound'', hSame'⟩ := h' found' hFound'
  exact ⟨found'', hFound'', hSame'.trans hSame⟩

theorem keepsHead_removeHead (s : Stack) (h : v < w) : KeepsHead v s (s.removeHead w) :=
  fun found hFound => ⟨found, (getElem?_eraseIdxIfInBounds s.heads w h).trans hFound, rfl⟩

theorem becomesHead_removeHead (s : Stack) (h : w ≤ v) :
    BecomesHead (v + 1) v s (s.removeHead w) := by
  intro found hFound
  refine ⟨found, ?_, rfl⟩
  have hw : w < s.heads.size := by
    have hBound := (Array.getElem?_eq_some_iff.mp hFound).1
    omega
  rw [removeHead, Array.eraseIdxIfInBounds_eq, dif_pos hw, Array.getElem?_eraseIdx_of_ge hw h]
  exact hFound

theorem keepsHead_modifyHead (s : Stack) {f : Head → Head}
    (h : v = w → ∀ found, (f found).layer = found.layer) : KeepsHead v s (s.modifyHead w f) := by
  intro found hFound
  unfold modifyHead
  rw [Array.getElem?_modify]
  split
  · rename_i hSame
    exact ⟨f found, by rw [hFound, Option.map_some], h hSame.symm found⟩
  · exact ⟨found, hFound, rfl⟩

theorem keepsHead_pushHead (s : Stack) (v : Nat) (new : Head) :
    KeepsHead v s { s with heads := s.heads.push new } :=
  fun found hFound => ⟨found, isPrefixOf_push s.heads new v found hFound, rfl⟩

def HasHead (s : Stack) (v : Nat) (l : Layer) : Prop :=
  ∃ h, s.heads[v]? = some h ∧ Layer.Matches l (s.layer h.layer)

theorem HasHead.top (h : s.HasHead v l) : Layer.Matches l (s.top v) := by
  obtain ⟨found, hFound, hMatches⟩ := h
  rwa [Stack.top, head, hFound, Option.getD_some]

theorem HasHead.lt_size (h : s.HasHead v l) : v < s.heads.size := by
  obtain ⟨found, hFound, _⟩ := h
  exact (Array.getElem?_eq_some_iff.mp hFound).1

theorem hasHead_of_lt (h : v < s.heads.size) : s.HasHead v (s.top v) := by
  obtain ⟨found, hFound⟩ : ∃ found, s.heads[v]? = some found := ⟨_, Array.getElem?_eq_getElem h⟩
  refine ⟨found, hFound, ?_⟩
  rw [Stack.top, head, hFound, Option.getD_some]
  exact .refl _

/-- The first head is there as the second one, and all layers keep their places and states. -/
structure Becomes (v w : Nat) (s s' : Stack) : Prop where
  head : BecomesHead v w s s'
  layers : KeepsLayers s s'

/-- The head ends in the same layer as before, and all layers keep their places and states. -/
abbrev Stays (v : Nat) (s s' : Stack) : Prop := Becomes v v s s'

namespace Becomes

theorem refl (v : Nat) (s : Stack) : Stays v s s := ⟨.refl v s, .refl s⟩

theorem trans {x : Nat} {u : Stack} (h : Becomes v w s s') (h' : Becomes w x s' u) :
    Becomes v x s u :=
  ⟨h.head.trans h'.head, h.layers.trans h'.layers⟩

theorem of_layers (h : s'.layers = s.layers) (hHead : BecomesHead v w s s') :
    Becomes v w s s' := by
  refine ⟨hHead, ?_⟩
  obtain ⟨layers, heads⟩ := s'
  obtain rfl : layers = s.layers := h
  exact ⟨Nat.le_refl _, fun _ _ => .refl _⟩

theorem hasHead (h : Becomes v w s s') (hSound : s.IsSound text a) (hHead : s.HasHead v l) :
    s'.HasHead w l := by
  obtain ⟨found, hFound, hMatches⟩ := hHead
  obtain ⟨found', hFound', hLayer⟩ := h.head found hFound
  refine ⟨found', hFound', ?_⟩
  rw [hLayer]
  exact hMatches.trans (h.layers.same _ (hSound.heads found (Array.mem_of_getElem? hFound)).1)

end Becomes

def IsAt (s : Stack) (v : Nat) (place : Place) : Prop :=
  ∃ h, s.heads[v]? = some h ∧ (s.layer h.layer).place = place

theorem HasHead.isAt (h : s.HasHead v l) : s.IsAt v l.place := by
  obtain ⟨found, hFound, hMatches⟩ := h
  exact ⟨found, hFound, hMatches.place⟩

theorem IsAt.place_top {place : Place} (h : s.IsAt v place) : (s.top v).place = place := by
  obtain ⟨found, hFound, hPlace⟩ := h
  rwa [Stack.top, Stack.head, hFound, Option.getD_some]

theorem IsAt.lt_size {place : Place} (h : s.IsAt v place) : v < s.heads.size := by
  obtain ⟨found, hFound, _⟩ := h
  exact (Array.getElem?_eq_some_iff.mp hFound).1

/-- The heads in front of the number stay at their places. -/
def KeepsPlaces (count : Nat) (s s' : Stack) : Prop :=
  ∀ v < count, ∀ place, s.IsAt v place → s'.IsAt v place

theorem KeepsPlaces.refl (count : Nat) (s : Stack) : KeepsPlaces count s s :=
  fun _ _ _ hAt => hAt

theorem KeepsPlaces.trans {count : Nat} {u : Stack} (h : KeepsPlaces count s s')
    (h' : KeepsPlaces count s' u) : KeepsPlaces count s u :=
  fun v hv place hAt => h' v hv place (h v hv place hAt)

theorem keepsPlaces_of_size (count : Nat) (h : KeepsPlaces s.heads.size s s') :
    KeepsPlaces count s s' :=
  fun v _ place hAt => h v hAt.lt_size place hAt

theorem Becomes.isAt {place : Place} (h : Becomes v w s s') (hSound : s.IsSound text a)
    (hAt : s.IsAt v place) : s'.IsAt w place := by
  have hHead := h.hasHead hSound (hasHead_of_lt hAt.lt_size)
  rw [← hAt.place_top]
  exact hHead.isAt

theorem keepsPlaces_modifyHead (count : Nat) (s : Stack) (w : Nat) {f : Head → Head}
    (h : ∀ found, (f found).layer = found.layer) : KeepsPlaces count s (s.modifyHead w f) := by
  rintro v _ place ⟨found, hFound, hPlace⟩
  obtain ⟨kept, hKept, hLayer⟩ := keepsHead_modifyHead (w := w) s (fun _ => h) found hFound
  exact ⟨kept, hKept, hLayer ▸ hPlace⟩

theorem keepsPlaces_of_stays {count : Nat} (hSound : s.IsSound text a)
    (h : ∀ v < count, Stays v s s') : KeepsPlaces count s s' :=
  fun v hv _ hAt => (h v hv).isAt hSound hAt

structure Drops (w : Nat) (s s' : Stack) : Prop where
  before : ∀ v < w, Stays v s s'
  behind : ∀ v, w ≤ v → Becomes (v + 1) v s s'
  size : w < s.heads.size → s'.heads.size + 1 = s.heads.size

theorem Drops.of_others {u : Stack} (h : Drops w s' u) (hOthers : ∀ v ≠ w, Stays v s s')
    (hSize : s'.heads.size = s.heads.size) : Drops w s u where
  before v hv := (hOthers v hv.ne).trans (h.before v hv)
  behind v hv := (hOthers (v + 1) (Nat.lt_succ_of_le hv).ne').trans (h.behind v hv)
  size := by
    rw [← hSize]
    exact h.size

theorem size_removeHead (h : v < s.heads.size) :
    (s.removeHead v).heads.size + 1 = s.heads.size := by
  unfold removeHead
  rw [Array.eraseIdxIfInBounds_eq, dif_pos h, Array.size_eraseIdx]
  omega

theorem drops_removeHead (s : Stack) (w : Nat) : Drops w s (s.removeHead w) where
  before _ hv := .of_layers rfl (keepsHead_removeHead s hv)
  behind _ hv := .of_layers rfl (becomesHead_removeHead s hv)
  size := size_removeHead

theorem stays_replaceHead (s : Stack) {new old : Nat} (hOld : v ≠ old) (hNew : v < new) :
    Stays v s (s.replaceHead new old) := by
  unfold Stack.replaceHead
  split
  · exact .refl v s
  · have hReplaced (f : Head → Head) : Stays v s (s.modifyHead old f) :=
      .of_layers rfl (keepsHead_modifyHead s fun hSame => absurd hSame hOld)
    exact (hReplaced _).trans ((drops_removeHead _ new).before v hNew)

theorem hasHead_replaceHead (s : Stack) {new old : Nat} (h : old < new)
    (hOld : old < s.heads.size) : (s.replaceHead new old).HasHead old (s.top new) := by
  unfold Stack.replaceHead
  rw [if_neg (by rw [beq_iff_eq]; exact h.ne')]
  dsimp only
  have hHead : ((s.modifyHead old fun _ =>
      { s.head new with resorts := (s.head new).resorts <|> (s.head old).resorts }).heads[old]?).map
        Head.layer = some (s.head new).layer := by
    rw [modifyHead, Array.getElem?_modify, if_pos rfl, Array.getElem?_eq_getElem hOld]
    rfl
  obtain ⟨found, hFound, hLayer⟩ := Option.map_eq_some_iff.mp hHead
  obtain ⟨kept, hKept, hSame⟩ := keepsHead_removeHead _ h found hFound
  refine ⟨kept, hKept, ?_⟩
  rw [hSame, hLayer]
  exact .refl _

/-! ## A layer on top -/

theorem layer_push_of_lt {l : Layer} {heads : Array Head} (h : n < s.layers.size) :
    (Stack.mk (s.layers.push l) heads).layer n = s.layer n := by
  rw [layer, layer, Array.getElem?_push_lt h, Array.getElem?_eq_getElem h]

theorem layer_push_size {l : Layer} {heads : Array Head} :
    (Stack.mk (s.layers.push l) heads).layer s.layers.size = l := by
  rw [layer, Array.getElem?_push_size, Option.getD_some]

theorem layer_of_size_le (h : s.layers.size ≤ n) : s.layer n = emptyLayer := by
  rw [layer, Array.getElem?_eq_none h, Option.getD_none]

theorem state_layerOn (s : Stack) (below : Nat) (tree? : Option Subtree) (state : Nat) :
    (s.layerOn below tree? state).state = state := by
  cases tree? <;> rfl

theorem links_layerOn (s : Stack) (below : Nat) (tree? : Option Subtree) (state : Nat) :
    (s.layerOn below tree? state).links = [⟨below, tree?⟩] := by
  cases tree? <;> rfl

theorem keepsLayers_push (s : Stack) (v : Nat) (tree? : Option Subtree) (state : Nat) :
    KeepsLayers s (s.push v tree? state) where
  size := by
    unfold push
    simp only [modifyHead, Array.size_push]
    exact Nat.le_succ _
  same n hn := by
    rw [show (s.push v tree? state).layer n = s.layer n from layer_push_of_lt hn]
    exact .refl _

theorem place_layerOn (state : Nat) {below : Nat} {above : Place}
    (h : Spans (s.layer below).place tree? above) :
    (s.layerOn below tree? state).place = above := by
  cases tree? with
  | none => exact h.symm
  | some t =>
    obtain ⟨_, text, hSpells, hReaches⟩ := h
    rw [hReaches.eq_advance, ← hSpells.extent_eq]
    rfl

theorem Spans.isIn {below above : Place} (h : Spans below tree? above) (hBelow : below.IsIn text) :
    above.IsIn text := by
  cases tree? with
  | none =>
    rw [h]
    exact hBelow
  | some t =>
    obtain ⟨_, _, _, hReaches⟩ := h
    exact hBelow.of_reaches hReaches

theorem IsSound.push {above : Place} (h : s.IsSound text a)
    (hJoins : Joins a (s.top v).state tree? state) (hSpans : Spans (s.top v).place tree? above) :
    (s.push v tree? state).IsSound text a := by
  have hTop := h.head_layer_lt v
  have hAbove := place_layerOn state hSpans
  have hLayers : ({ s with layers := s.layers.push (s.layerOn (s.head v).layer tree? state) } :
      Stack).IsSound text a := by
    have hLast {n : Nat} (hn : n < s.layers.size + 1) (hNot : ¬ n < s.layers.size) :
        n = s.layers.size := by omega
    refine ⟨fun n link hLink => ?_, fun found hFound => ?_, fun n hn => ?_,
      fun n hn hNone => ?_, ?_⟩
    · rw [Array.size_push]
      rcases Nat.lt_trichotomy n s.layers.size with hLess | rfl | hMore
      · rw [layer_push_of_lt hLess] at hLink ⊢
        obtain ⟨hBound, hLinkFits⟩ := h.links n link hLink
        exact ⟨Nat.lt_succ_of_lt hBound, by rwa [layer_push_of_lt hBound]⟩
      · rw [layer_push_size] at hLink ⊢
        rw [links_layerOn] at hLink
        rw [List.mem_singleton.mp hLink, state_layerOn, hAbove]
        exact ⟨Nat.lt_succ_of_lt hTop, by rwa [layer_push_of_lt hTop], by
          rwa [layer_push_of_lt hTop]⟩
      · rw [layer_of_size_le (by rw [Array.size_push]; exact hMore)] at hLink
        cases hLink
    · obtain ⟨hBound, hAhead⟩ := h.heads found hFound
      rw [layer_push_of_lt hBound, Array.size_push]
      exact ⟨Nat.lt_succ_of_lt hBound, hAhead⟩
    · rw [Array.size_push] at hn
      by_cases hLess : n < s.layers.size
      · rw [layer_push_of_lt hLess]
        exact h.places n hLess
      · obtain rfl := hLast hn hLess
        rw [layer_push_size, hAbove]
        exact hSpans.isIn (h.places _ hTop)
    · rw [Array.size_push] at hn
      by_cases hLess : n < s.layers.size
      · rw [layer_push_of_lt hLess] at hNone ⊢
        exact h.ground n hLess hNone
      · obtain rfl := hLast hn hLess
        rw [layer_push_size, links_layerOn] at hNone
        cases hNone
    · rw [Array.size_push, layer_push_of_lt h.bottom.1]
      exact ⟨Nat.succ_pos _, h.bottom.2⟩
  refine hLayers.modifyHead ⟨?_, fun t ht => by cases ht⟩
  rw [Array.size_push]
  exact Nat.lt_succ_self _

theorem keepsHead_push (s : Stack) (tree? : Option Subtree) (state : Nat) (h : v ≠ w) :
    KeepsHead v s (s.push w tree? state) :=
  keepsHead_modifyHead { s with layers := _ } fun hSame => absurd hSame h

theorem stays_push (s : Stack) (tree? : Option Subtree) (state : Nat) (h : v ≠ w) :
    Stays v s (s.push w tree? state) :=
  ⟨keepsHead_push s tree? state h, keepsLayers_push s w tree? state⟩

theorem size_heads_push (s : Stack) (v : Nat) (tree? : Option Subtree) (state : Nat) :
    (s.push v tree? state).heads.size = s.heads.size := Array.size_modify

theorem layer_push_top (s : Stack) (v : Nat) (tree? : Option Subtree) (state : Nat) :
    (s.push v tree? state).layer s.layers.size = s.layerOn (s.head v).layer tree? state :=
  layer_push_size

theorem exists_head_push (tree? : Option Subtree) (state : Nat) (h : v < s.heads.size) :
    ∃ found, (s.push v tree? state).heads[v]? = some found ∧ found.layer = s.layers.size := by
  unfold push modifyHead
  rw [Array.getElem?_modify, if_pos rfl, Array.getElem?_eq_getElem h, Option.map_some]
  exact ⟨_, rfl, rfl⟩

theorem layer_head_push (tree? : Option Subtree) (state : Nat) (h : v < s.heads.size) :
    ((s.push v tree? state).head v).layer = s.layers.size := by
  obtain ⟨found, hFound, hLayer⟩ := exists_head_push tree? state h
  rw [head, hFound, Option.getD_some, hLayer]

theorem hasHead_push (tree? : Option Subtree) (state : Nat) (h : v < s.heads.size) :
    (s.push v tree? state).HasHead v (s.layerOn (s.head v).layer tree? state) := by
  obtain ⟨found, hFound, hLayer⟩ := exists_head_push tree? state h
  refine ⟨found, hFound, ?_⟩
  rw [hLayer, layer_push_top]
  exact .refl _

/-! ## Further links -/

theorem layer_modify {f : Layer → Layer} {heads : Array Head} (hn : n < s.layers.size) (m : Nat) :
    (Stack.mk (s.layers.modify n f) heads).layer m =
      if n = m then f (s.layer n) else s.layer m := by
  unfold layer
  rw [Array.getElem?_modify]
  split
  · rename_i hSame
    subst hSame
    rw [Array.getElem?_eq_getElem hn, Option.map_some, Option.getD_some, Option.getD_some]
  · rfl

structure Relinks (s s' : Stack) : Prop where
  size : s'.layers.size = s.layers.size
  same : ∀ n, Layer.Matches (s.layer n) (s'.layer n)
  heads : s'.heads = s.heads

theorem Relinks.refl (s : Stack) : Relinks s s := ⟨rfl, fun _ => .refl _, rfl⟩

theorem Relinks.trans {u : Stack} (h : Relinks s s') (h' : Relinks s' u) : Relinks s u :=
  ⟨h'.size.trans h.size, fun n => (h.same n).trans (h'.same n), h'.heads.trans h.heads⟩

theorem Relinks.stays (h : Relinks s s') (v : Nat) : Stays v s s' where
  head found hFound := ⟨found, h.heads ▸ hFound, rfl⟩
  layers := ⟨Nat.le_of_eq h.size.symm, fun n _ => h.same n⟩

def Link.Fits (a : Automaton) (s : Stack) (l : Layer) (link : Link) : Prop :=
  link.layer < s.layers.size ∧ Joins a (s.layer link.layer).state link.tree? l.state ∧
    Spans (s.layer link.layer).place link.tree? l.place

theorem Link.Fits.of_matches {link : Link} (h : Link.Fits a s l link)
    (hMatches : Layer.Matches l l') : Link.Fits a s l' link := by
  unfold Link.Fits
  rw [hMatches.state, hMatches.place]
  exact h

theorem Link.Fits.mono {link : Link} (h : Link.Fits a s l link) (hRelinks : Relinks s s') :
    Link.Fits a s' l link := by
  have hSame := hRelinks.same link.layer
  unfold Link.Fits
  rw [hRelinks.size, hSame.state, hSame.place]
  exact h

theorem IsSound.modifyLayer (h : s.IsSound text a) {f : Layer → Layer}
    (hSame : Layer.Matches (s.layer n) (f (s.layer n)))
    (hLinks : ∀ link ∈ (f (s.layer n)).links, Link.Fits a s (s.layer n) link)
    (hNone : (f (s.layer n)).links = [] → (s.layer n).links = []) :
    ({ s with layers := s.layers.modify n f } : Stack).IsSound text a ∧
      Relinks s { s with layers := s.layers.modify n f } := by
  by_cases hn : n < s.layers.size
  · have hRelinks : Relinks s { s with layers := s.layers.modify n f } := by
      refine ⟨Array.size_modify, fun m => ?_, rfl⟩
      rw [layer_modify hn]
      split
      · rename_i hHere
        exact hHere ▸ hSame
      · exact .refl _
    refine ⟨⟨fun m link hLink => ?_, fun found hFound => ?_, fun m hm => ?_,
      fun m hm hm' => ?_, ?_⟩, hRelinks⟩
    · have hFits : Link.Fits a s (s.layer m) link := by
        rw [layer_modify hn] at hLink
        split at hLink
        · rename_i hHere
          exact hHere ▸ hLinks link hLink
        · exact h.links m link hLink
      exact (hFits.mono hRelinks).of_matches (hRelinks.same m)
    · obtain ⟨hBound, hAhead⟩ := h.heads found hFound
      rw [Array.size_modify, (hRelinks.same found.layer).place]
      exact ⟨hBound, hAhead⟩
    · rw [Array.size_modify] at hm
      rw [(hRelinks.same m).place]
      exact h.places m hm
    · rw [Array.size_modify] at hm
      rw [(hRelinks.same m).place]
      refine h.ground m hm ?_
      rw [layer_modify hn] at hm'
      split at hm'
      · rename_i hHere
        exact hHere ▸ hNone hm'
      · exact hm'
    · rw [(hRelinks.same 0).state, Array.size_modify]
      exact h.bottom
  · have hUnchanged : s.layers.modify n f = s.layers := by
      refine Array.ext_getElem? fun m => ?_
      rw [Array.getElem?_modify]
      split
      · rename_i hHere
        rw [← hHere, Array.getElem?_eq_none (Nat.le_of_not_lt hn), Option.map_none]
      · rfl
    rw [hUnchanged]
    exact ⟨h, .refl s⟩

/-- A rival of a new link comes from the same layer, or from one with the same state and with as
many octets in front of it. -/
theorem rival?_spec {new : Link} {links : List Link} {i : Nat} {old : Link}
    (h : s.rival? new links = some (i, old)) :
    old ∈ links ∧ (old.layer = new.layer ∨
      ((s.layer old.layer).state = (s.layer new.layer).state ∧
        (s.layer old.layer).place.before.octets = (s.layer new.layer).place.before.octets)) := by
  unfold rival? at h
  obtain ⟨⟨link, j⟩, hMem, h⟩ := List.exists_of_findSome?_eq_some h
  dsimp only at h
  split at h
  · split at h
    · rename_i hSame
      obtain ⟨rfl, rfl⟩ := Prod.mk.inj (Option.some.inj h)
      refine ⟨List.mem_of_getElem? (List.mem_zipIdx_iff_getElem?.mp hMem), ?_⟩
      simp only [Bool.or_eq_true, Bool.and_eq_true, beq_iff_eq] at hSame
      exact hSame.imp_right fun h => ⟨h.1.1, h.2⟩
    · cases h
  · cases h

theorem IsSound.matches_of_octets (h : s.IsSound text a) {m : Nat} (hm : m < s.layers.size)
    (hn : n < s.layers.size) (hState : (s.layer m).state = (s.layer n).state)
    (hOctets : (s.layer m).place.before.octets = (s.layer n).place.before.octets) :
    Layer.Matches (s.layer n) (s.layer m) :=
  ⟨hState, (h.places m hm).eq_of_octets (h.places n hn) hOctets⟩

theorem foldl_relinks {step : Stack → Link → Stack}
    (hStep : ∀ (s : Stack) (link : Link), s.IsSound text a → Link.Fits a s (s.layer n) link →
      (step s link).IsSound text a ∧ Relinks s (step s link))
    (links : List Link) (h : s.IsSound text a)
    (hLinks : ∀ link ∈ links, Link.Fits a s (s.layer n) link) :
    (links.foldl step s).IsSound text a ∧ Relinks s (links.foldl step s) := by
  induction links generalizing s with
  | nil => exact ⟨h, .refl s⟩
  | cons link links ih =>
    obtain ⟨hLink, hLinks⟩ := List.forall_mem_cons.mp hLinks
    obtain ⟨hHead, hRelinks⟩ := hStep s link h hLink
    obtain ⟨hTail, hRelinks'⟩ := ih hHead fun l hl =>
      ((hLinks l hl).mono hRelinks).of_matches (hRelinks.same n)
    exact ⟨hTail, hRelinks.trans hRelinks'⟩

/-- Joining links keeps them moves of the automaton: rivals lie on the same layer, and layers are
joined only if they match. -/
theorem addLink_isSound (fuel : Nat) {new : Link} (h : s.IsSound text a)
    (hNew : Link.Fits a s (s.layer n) new) :
    (addLink fuel s n new).IsSound text a ∧ Relinks s (addLink fuel s n new) := by
  induction fuel generalizing s n new with
  | zero => exact ⟨h, .refl s⟩
  | succ fuel ih =>
    rw [addLink]
    dsimp only
    split
    · exact ⟨h, .refl s⟩
    · split
      · rename_i i old hRival
        obtain ⟨hOld, hAlike⟩ := rival?_spec hRival
        split
        · split
          · refine h.modifyLayer ⟨rfl, rfl⟩ (fun link hLink => ?_) fun hNone => ?_
            · rcases List.mem_or_eq_of_mem_set hLink with hLink | rfl
              · exact h.links n link hLink
              · exact hNew
            · exact (List.set_eq_nil_iff _ _).mp hNone
          · exact ⟨h, .refl s⟩
        · rename_i hNe
          obtain ⟨hState, hOctets⟩ := hAlike.resolve_left fun hSame => hNe (beq_iff_eq.mpr hSame)
          have hMatches := h.matches_of_octets (h.links n old hOld).1 hNew.1 hState hOctets
          obtain ⟨hJoined, hRelinks⟩ := foldl_relinks (n := old.layer) (fun _ _ hs hl => ih hs hl)
            (s.layer new.layer).links h fun link hLink =>
              (show Link.Fits a s (s.layer new.layer) link from
                h.links new.layer link hLink).of_matches hMatches
          obtain ⟨hSound, hRelinks'⟩ := hJoined.modifyLayer (n := n)
            (f := fun l => { l with weight := max l.weight _ }) ⟨rfl, rfl⟩
            (fun link hLink => hJoined.links n link hLink) id
          exact ⟨hSound, hRelinks.trans hRelinks'⟩
      · split
        · exact ⟨h, .refl s⟩
        · refine h.modifyLayer ⟨rfl, rfl⟩ (fun link hLink => ?_) fun hNone =>
            (List.append_eq_nil_iff.mp hNone).1
          rcases List.mem_append.mp hLink with hLink | hLink
          · exact h.links n link hLink
          · rw [List.mem_singleton.mp hLink]
            exact hNew

theorem IsSound.exists_noted (h : s.IsSound text a) (notes : Bool) (v shown : Nat) :
    ∃ s', s' = (if notes = true then s.modifyHead v ({ · with shownAtError := shown }) else s) ∧
      s'.IsSound text a ∧ s'.heads.size = s.heads.size ∧ ∀ u, Stays u s s' := by
  refine ⟨_, rfl, ?_⟩
  split
  · exact ⟨h.modifyHead_same rfl (.inl rfl), Array.size_modify, fun u =>
      .of_layers rfl (keepsHead_modifyHead s fun _ _ => rfl)⟩
  · exact ⟨h, rfl, fun u => .refl u s⟩

theorem merge?_spec (h : s.IsSound text a) (hMerge : s.merge? v w = some s') :
    s'.IsSound text a ∧ Drops w s s' := by
  unfold merge? at hMerge
  split at hMerge
  · rename_i hCan
    dsimp only at hMerge
    obtain rfl := Option.some.inj hMerge
    have hMatches : Layer.Matches (s.top w) (s.top v) := by
      simp only [canMerge, Bool.and_eq_true, beq_iff_eq] at hCan
      exact h.matches_of_octets (h.head_layer_lt v) (h.head_layer_lt w) hCan.1.1.2 hCan.1.2
    obtain ⟨hJoined, hRelinks⟩ := foldl_relinks (n := (s.head v).layer)
      (fun s link hs hl => addLink_isSound s.layers.size hs hl) (s.top w).links h
      fun link hLink => (show Link.Fits a s (s.top w) link from
        h.links (s.head w).layer link hLink).of_matches hMatches
    generalize List.foldl _ s (s.top w).links = joined at hJoined hRelinks
    obtain ⟨noted, hSame, hNoted, hSize, hStays⟩ := hJoined.exists_noted
      ((joined.layer (s.head v).layer).state == Automaton.skipping) v
      (joined.layer (s.head v).layer).shown
    rw [← hSame]
    refine ⟨hNoted.removeHead w, (drops_removeHead noted w).of_others
      (fun u _ => (hRelinks.stays u).trans (hStays u)) ?_⟩
    rw [hSize, hRelinks.heads]
  · cases hMerge

theorem mergeInto?_spec (h : s.IsSound text a) {others : List Nat}
    (hMerge : s.mergeInto? w others = some s') : s'.IsSound text a ∧ Drops w s s' := by
  induction others with
  | nil => cases hMerge
  | cons v others ih =>
    rw [mergeInto?] at hMerge
    split at hMerge
    · rename_i merged hFirst
      obtain rfl := Option.some.inj hMerge
      exact merge?_spec h hFirst
    · exact ih hMerge

end Stack

end TypeDiagram.Source
