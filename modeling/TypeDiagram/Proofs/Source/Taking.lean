import TypeDiagram.Proofs.Source.Head

/-! # Taking trees off a head

The ways down that were looked for are grouped by the layers that they have reached, and each of
these layers gets a head of its own behind the old ones. The trees that a way has passed lie between
its layer and the one in which the old head ends.
-/

namespace TypeDiagram.Source

open Subtree

namespace Stack

variable {text : List Char} {a : Automaton} {s : Stack} {n v w count : Nat} {p : Path}
  {below above : Place} {trees : List Subtree} {GoesOn Way : Path → Prop} {slices : List Slice}

def AreDerived (trees : List Subtree) : Prop := ∀ t ∈ trees, t.IsDerived

structure Lie (below above : Place) (trees : List Subtree) : Prop where
  derived : AreDerived trees
  spell : ∃ cs, SpellAll trees cs ∧ below.Reaches cs above

theorem Descent.lie (h : Descent s GoesOn n p) (hStack : s.IsSound text a) :
    Lie (s.layer p.layer).place (s.layer n).place p.trees :=
  ⟨h.isDerived hStack, h.spellAll hStack⟩

theorem Descent.layer_lt (h : Descent s GoesOn n p) (hStack : s.IsSound text a)
    (hn : n < s.layers.size) : p.layer < s.layers.size := by
  induction h with
  | top => exact hn
  | @down p link _ _ hLink _ =>
    rw [Path.layer_down]
    exact (hStack.links _ link hLink).1

/-! ## Slices -/

/-- What the slices of some ways are: their heads are all those behind the old ones, and each head
ends where the ways have led whose trees are the readings. -/
structure AreSlices (Way : Path → Prop) (count : Nat) (s : Stack) (slices : List Slice) :
    Prop where
  heads : slices.map Slice.head = List.range' count slices.length
  size : s.heads.size = count + slices.length
  read : ∀ x ∈ slices, x.readings ≠ []
  ways : ∀ x ∈ slices, ∀ trees ∈ x.readings,
    ∃ p, Way p ∧ p.trees = trees ∧ p.layer = (s.head x.head).layer

theorem mem_modify {β : Type} {xs : List β} {f : β → β} {i : Nat} {x : β}
    (h : x ∈ xs.modify i f) : x ∈ xs ∨ ∃ y, xs[i]? = some y ∧ x = f y := by
  obtain ⟨j, hj⟩ := List.mem_iff_getElem?.mp h
  rw [List.getElem?_modify] at hj
  obtain ⟨y, hy, hSame⟩ := Option.map_eq_some_iff.mp hj
  split at hSame
  · rename_i hHere
    exact .inr ⟨y, hHere ▸ hy, hSame.symm⟩
  · exact .inl (hSame ▸ List.mem_of_getElem? hy)

theorem head_addHead_of_lt (s : Stack) (v n : Nat) (h : w < s.heads.size) :
    (s.addHead v n).head w = s.head w := by
  rw [head, addHead, Array.getElem?_push_lt h, head, Array.getElem?_eq_getElem h]

theorem layer_head_addHead (s : Stack) (v n : Nat) :
    ((s.addHead v n).head s.heads.size).layer = n := by
  rw [head, addHead, Array.getElem?_push_size, Option.getD_some]

namespace AreSlices

theorem head_bounds (h : AreSlices Way count s slices) {x : Slice} (hx : x ∈ slices) :
    count ≤ x.head ∧ x.head < s.heads.size := by
  have hMem : x.head ∈ List.range' count slices.length := h.heads ▸ List.mem_map_of_mem hx
  rw [h.size]
  exact List.mem_range'_1.mp hMem

theorem pairwise_ne (h : AreSlices Way count s slices) :
    slices.Pairwise fun x y => x.head ≠ y.head := by
  have hNodup : (slices.map Slice.head).Nodup := h.heads ▸ List.nodup_range'
  exact List.pairwise_map.mp hNodup

theorem addReading (h : AreSlices Way count s slices) {i : Nat} (hp : Way p)
    (hLayer : ∀ y, slices[i]? = some y → p.layer = (s.head y.head).layer) :
    AreSlices Way count s
      (slices.modify i fun x => { x with readings := x.readings ++ [p.trees] }) where
  heads := by
    rw [List.length_modify, ← h.heads]
    refine List.ext_getElem? fun j => ?_
    rw [List.getElem?_map, List.getElem?_map, List.getElem?_modify]
    cases slices[j]? with
    | none => rfl
    | some x => by_cases hSame : i = j <;> simp [hSame]
  size := by
    rw [List.length_modify]
    exact h.size
  read x hx := by
    rcases mem_modify hx with hx | ⟨y, _, rfl⟩
    · exact h.read x hx
    · exact List.append_ne_nil_of_right_ne_nil _ (List.cons_ne_nil _ _)
  ways x hx := by
    rcases mem_modify hx with hx | ⟨y, hy, rfl⟩
    · exact h.ways x hx
    · refine List.forall_mem_append.mpr ⟨h.ways y (List.mem_of_getElem? hy), fun trees ht => ?_⟩
      exact ⟨p, hp, (List.mem_singleton.mp ht).symm, hLayer y hy⟩

theorem addSlice (h : AreSlices Way count s slices) (hp : Way p) (v : Nat) :
    AreSlices Way count (s.addHead v p.layer) (slices ++ [⟨s.heads.size, [p.trees]⟩]) where
  heads := by
    rw [List.map_append, h.heads, List.length_append, List.length_singleton,
      List.range'_1_concat, h.size]
    rfl
  size := by
    rw [addHead, Array.size_push, h.size, List.length_append, List.length_singleton,
      Nat.add_assoc]
  read := by
    refine List.forall_mem_append.mpr ⟨h.read, fun x hx => ?_⟩
    rw [List.mem_singleton.mp hx]
    exact List.cons_ne_nil _ _
  ways := by
    refine List.forall_mem_append.mpr ⟨fun x hx => ?_, fun x hx => ?_⟩
    · rw [head_addHead_of_lt s v p.layer (h.head_bounds hx).2]
      exact h.ways x hx
    · rw [List.mem_singleton.mp hx]
      intro trees ht
      exact ⟨p, hp, (List.mem_singleton.mp ht).symm, (layer_head_addHead s v p.layer).symm⟩

end AreSlices

structure Taken (text : List Char) (a : Automaton) (s : Stack) (Way : Path → Prop)
    (taken : Stack × List Slice) : Prop where
  sound : taken.1.IsSound text a
  layers : taken.1.layers = s.layers
  heads : ∀ u, KeepsHead u s taken.1
  slices : AreSlices Way s.heads.size taken.1 taken.2

namespace Taken

variable {taken : Stack × List Slice} {x : Slice}

theorem stays (h : Taken text a s Way taken) (v : Nat) : Stays v s taken.1 :=
  .of_layers h.layers (h.heads v)

theorem layer_eq (h : Taken text a s Way taken) (n : Nat) : taken.1.layer n = s.layer n := by
  rw [layer, h.layers, layer]

/-- Each reading of a slice is that of a way to the layer in which its head ends. -/
theorem exists_way (h : Taken text a s Way taken) (hx : x ∈ taken.2) (ht : trees ∈ x.readings) :
    ∃ p, Way p ∧ p.trees = trees ∧ taken.1.top x.head = s.layer p.layer := by
  obtain ⟨p, hp, hTrees, hLayer⟩ := h.slices.ways x hx trees ht
  exact ⟨p, hp, hTrees, by rw [top, h.layer_eq, hLayer]⟩

end Taken

theorem taken_nil (h : s.IsSound text a) : Taken text a s Way (s, []) :=
  ⟨h, rfl, fun u => .refl u s, rfl, rfl, fun _ hx => absurd hx List.not_mem_nil,
    fun _ hx => absurd hx List.not_mem_nil⟩

/-- Grouping ways adds a head for each layer that they have reached, and keeps all others. -/
theorem slices_taken (h : s.IsSound text a) {paths : List Path}
    (hLayers : ∀ p ∈ paths, p.layer < s.layers.size) (hWays : ∀ p ∈ paths, Way p) :
    Taken text a s Way (s.slices v paths) := by
  unfold slices
  refine List.foldlRecOn paths _ (motive := Taken text a s Way) (taken_nil h) ?_
  rintro ⟨s', found⟩ ⟨hSound, hSame, hHeads, hSlices⟩ p hp
  dsimp only at hSound hSame hHeads hSlices ⊢
  split
  · rename_i i hFound
    refine ⟨hSound, hSame, hHeads, hSlices.addReading (hWays p hp) fun y hy => ?_⟩
    obtain ⟨hi, hHere, _⟩ := List.findIdx?_eq_some_iff_getElem.mp hFound
    rw [List.getElem?_eq_getElem hi] at hy
    rw [← Option.some.inj hy]
    exact (beq_iff_eq.mp hHere).symm
  · exact ⟨hSound.addHead v (by rw [hSame]; exact hLayers p hp), hSame,
      fun u => (hHeads u).trans (keepsHead_pushHead s' u _), hSlices.addSlice (hWays p hp) v⟩

theorem taken_of_walk (h : s.IsSound text a) {σ : Type} {memory : σ}
    {visit : σ → Path → σ × Verdict} (GoesOn Wanted : Path → Prop)
    (hOn : ∀ memory p, (visit memory p).2.stop = false → GoesOn p)
    (hWanted : ∀ memory p, (visit memory p).2.take = true → Wanted p) :
    Taken text a s (fun p => Descent s GoesOn (s.head v).layer p ∧ Wanted p)
      (s.slices v (s.walk v memory visit).2) :=
  slices_taken h
    (fun p hp => (walk_descends hOn hWanted p hp).1.layer_lt h (h.head_layer_lt v))
    (walk_descends hOn hWanted)

/-! ## Ways that are looked for -/

theorem pop_taken (h : s.IsSound text a) (v count : Nat) :
    Taken text a s (fun p => Descent s (fun _ => True) (s.head v).layer p ∧ p.count = count)
      (s.pop v count) :=
  taken_of_walk h _ _ (fun _ _ _ => trivial) fun _ _ hTake => beq_iff_eq.mp hTake

theorem popAll_taken (h : s.IsSound text a) (v : Nat) :
    Taken text a s
      (fun p => Descent s (fun _ => True) (s.head v).layer p ∧ (s.layer p.layer).links = [])
      (s.popAll v) :=
  taken_of_walk h _ _ (fun _ _ _ => trivial) fun _ _ hTake => List.isEmpty_iff.mp hTake

theorem Descent.layer_eq (h : Descent s (fun p => p.trees = []) n p) (hStack : s.IsSound text a)
    (hState : (s.layer n).state ≠ Automaton.skipping) (hNone : p.trees = []) : p.layer = n := by
  induction h with
  | top => rfl
  | @down p link _ hOn hLink ih =>
    have hJoins := (hStack.links _ link hLink).2.1
    unfold Path.down at hNone
    cases hTree : link.tree? with
    | none =>
      rw [hTree, ih hOn] at hJoins
      exact absurd hJoins hState
    | some t =>
      rw [hTree] at hNone
      cases hNone

theorem Descent.trees_eq (h : Descent s (fun p => p.trees = []) n p) {t : Subtree}
    {rest : List Subtree} (hTrees : p.trees = t :: rest) : p.trees = [t] := by
  cases h with
  | top => cases hTrees
  | @down p link _ hOn _ =>
    unfold Path.down at hTrees ⊢
    split at hTrees
    · dsimp only at hTrees ⊢
      rw [(List.cons.inj hTrees).1, hOn]
    · rw [hOn] at hTrees
      cases hTrees

/-- The layer below an error has the same state as the one above it, unless text is skipped above
it or the text begins there. -/
theorem Descent.state_below_error (h : Descent s (fun p => p.trees = []) n p)
    (hStack : s.IsSound text a) (hState : (s.layer n).state ≠ Automaton.skipping) {t : Subtree}
    (hTrees : p.trees = [t]) (hError : t.facts.origin = .error) :
    (s.layer n).state = Automaton.initial ∨ (s.layer p.layer).state = (s.layer n).state := by
  cases h with
  | top => cases hTrees
  | @down p link hAbove hOn hLink =>
    have hJoins := (hStack.links _ link hLink).2.1
    rw [hAbove.layer_eq hStack hState hOn] at hJoins
    rw [Path.layer_down]
    unfold Path.down at hTrees
    cases hTree : link.tree? with
    | none =>
      rw [hTree, hOn] at hTrees
      cases hTrees
    | some u =>
      rw [hTree] at hTrees hJoins
      obtain ⟨rfl, _⟩ := List.cons.inj hTrees
      rcases hJoins.2 with h | h | ⟨_, h⟩ | ⟨_, x, hOrigin, _⟩
      · exact absurd h hState
      · exact .inl h
      · exact .inr h
      · rw [hError] at hOrigin
        cases hOrigin

theorem popError_taken (h : s.IsSound text a) (v : Nat) :
    Taken text a s (fun p => Descent s (fun p => p.trees = []) (s.head v).layer p ∧
      ∃ t rest, p.trees = t :: rest ∧ t.facts.origin = .error) (s.popError v) := by
  unfold popError
  dsimp only
  split
  · refine taken_of_walk h _ _ (fun found p hStop => ?_) fun found p hTake => ?_
    · cases hTrees : p.trees with
      | nil => rfl
      | cons t rest =>
        rw [hTrees] at hStop
        dsimp only at hStop
        split at hStop <;> cases hStop
    · cases hTrees : p.trees with
      | nil =>
        rw [hTrees] at hTake
        cases hTake
      | cons t rest =>
        rw [hTrees] at hTake
        dsimp only at hTake
        split at hTake
        · rename_i hError
          exact ⟨t, rest, rfl, beq_iff_eq.mp (Bool.and_eq_true_iff.mp hError).2⟩
        · cases hTake
  · exact taken_nil h

end Stack

end TypeDiagram.Source
