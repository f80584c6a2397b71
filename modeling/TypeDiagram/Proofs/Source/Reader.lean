import TypeDiagram.Proofs.Source.Taking
import TypeDiagram.Source.Reader

/-! # Runs of the reader

A run of the reader builds the automaton further and changes the stack. It is sound if it leaves a
sound automaton, a sound stack and a best reading whose parts are derived and spell what has been
read of the text.
-/

namespace TypeDiagram.Source

structure Subtree.IsReading (text : List Char) (root : Subtree) : Prop where
  derived : ∀ t ∈ root.children, t.IsDerived
  spells : ∃ cs, SpellAll root.children cs ∧ cs <+: text

structure Progress.IsSound (text : List Char) (a : Automaton) (p : Progress) : Prop where
  automaton : a.IsSound
  stack : p.stack.IsSound text a
  finished : ∀ root ∈ p.finished?, root.IsReading text

theorem Progress.IsSound.mono {text : List Char} {a a' : Automaton} {p : Progress}
    (h : p.IsSound text a) (hGrows : Automaton.Grows a a') : p.IsSound text a' :=
  ⟨hGrows.sound, h.stack.mono hGrows.states, h.finished⟩

namespace Reader

variable {text : List Char} {a : Automaton} {p : Progress} {n : Nat} {α β : Type}

/-- After the run, what has been read is sound and the condition holds. -/
def Ensures (text : List Char) (m : Reader α) (a : Automaton) (p : Progress)
    (Q : α → Automaton → Progress → Prop) : Prop :=
  Automaton.Ensures (m.run p) a fun r a' => r.2.IsSound text a' ∧ Q r.1 a' r.2

/-- The run leaves what is sound sound, and the heads in front of the number at their places. -/
def Keeps (n : Nat) (m : Reader α) : Prop :=
  ∀ (text : List Char) (a : Automaton) (p : Progress), p.IsSound text a →
    Ensures text m a p fun _ _ p' => p.stack.KeepsPlaces n p'.stack

namespace Ensures

variable {m : Reader α} {f : α → Reader β} {Q R : α → Automaton → Progress → Prop}
  {Q' : β → Automaton → Progress → Prop}

theorem pure {r : α} (h : p.IsSound text a) (hQ : Q r a p) : Ensures text (pure r) a p Q :=
  ⟨h.automaton.refl, h, hQ⟩

theorem bind (h : Ensures text m a p Q) (hf : ∀ r a' p', Automaton.Grows a a' → p'.IsSound text a' →
    Q r a' p' → Ensures text (f r) a' p' Q') : Ensures text (m >>= f) a p Q' :=
  Automaton.Ensures.bind h fun r a' hGrows hQ => hf r.1 a' r.2 hGrows hQ.1 hQ.2

theorem imp (h : Ensures text m a p Q) (hImp : ∀ r a' p', Q r a' p' → R r a' p') :
    Ensures text m a p R :=
  Automaton.Ensures.imp h fun r a' hQ => ⟨hQ.1, hImp r.1 a' r.2 hQ.2⟩

theorem keeps_bind (h : Ensures text m a p Q) (hf : ∀ r, Keeps n (f r)) :
    Ensures text (m >>= f) a p fun _ _ _ => True :=
  h.bind fun r a' p' _ hp' _ => (hf r text a' p' hp').imp fun _ _ _ _ => trivial

theorem get_bind {f : Progress → Reader β} (h : Ensures text (f p) a p Q') :
    Ensures text (get >>= f) a p Q' := h

theorem getStack_bind {f : Stack → Reader β} (h : Ensures text (f p.stack) a p Q') :
    Ensures text (getStack >>= f) a p Q' := h

theorem headCount_bind {f : Nat → Reader β} (h : Ensures text (f p.stack.heads.size) a p Q') :
    Ensures text (headCount >>= f) a p Q' := h

theorem top_bind {f : Layer → Reader β} {v : Nat} (h : Ensures text (f (p.stack.top v)) a p Q') :
    Ensures text (top v >>= f) a p Q' := h

theorem statusOf_bind {f : HeadStatus → Reader β} {v : Nat}
    (h : Ensures text (f (p.stack.head v).status) a p Q') :
    Ensures text (statusOf v >>= f) a p Q' := h

theorem lift {m : Automaton.Run α} {Q : α → Automaton → Prop} (h : p.IsSound text a)
    (hm : Automaton.Ensures m a Q) :
    Ensures text (monadLift m : Reader α) a p fun r a' p' => p' = p ∧ Q r a' :=
  ⟨hm.1, h.mono hm.1, rfl, hm.2⟩

theorem onStack {f : Stack → Stack × α} (h : p.IsSound text a) (hf : (f p.stack).1.IsSound text a)
    (hQ : Q (f p.stack).2 a { p with stack := (f p.stack).1 }) : Ensures text (onStack f) a p Q :=
  ⟨h.automaton.refl, ⟨h.automaton, hf, h.finished⟩, hQ⟩

theorem modify {f : Progress → Progress} {Q : PUnit → Automaton → Progress → Prop}
    (h : p.IsSound text a) (hf : (f p).IsSound text a) (hQ : Q ⟨⟩ a (f p)) :
    Ensures text (modify f : Reader PUnit) a p Q :=
  ⟨h.automaton.refl, hf, hQ⟩

theorem modifyStack {f : Stack → Stack} {Q : Unit → Automaton → Progress → Prop}
    (h : p.IsSound text a) (hf : (f p.stack).IsSound text a)
    (hQ : Q () a { p with stack := f p.stack }) : Ensures text (modifyStack f) a p Q :=
  ⟨h.automaton.refl, ⟨h.automaton, hf, h.finished⟩, hQ⟩

theorem forIn {γ : Type} {xs : List γ} {init : β} {f : γ → β → Reader (ForInStep β)}
    {Q : β → Automaton → Progress → Prop} (h : p.IsSound text a) (hInit : Q init a p)
    (hf : ∀ x ∈ xs, ∀ r a p, p.IsSound text a → Q r a p →
      Ensures text (f x r) a p fun step a' p' => Q step.value a' p') :
    Ensures text (forIn xs init f) a p Q := by
  induction xs generalizing a p init with
  | nil => exact .pure h hInit
  | cons x xs ih =>
    rw [List.forIn_cons]
    refine (hf x List.mem_cons_self init a p h hInit).bind fun step a' p' _ hp' hStep => ?_
    cases step with
    | done r => exact .pure hp' hStep
    | yield r => exact ih hp' hStep fun x hx => hf x (List.mem_cons_of_mem _ hx)

end Ensures

namespace Keeps

variable {m : Reader α} {f : α → Reader β}

theorem zero (h : ∀ (text : List Char) (a : Automaton) (p : Progress), p.IsSound text a →
    Ensures text m a p fun _ _ _ => True) : Keeps 0 m :=
  fun text a p hp => (h text a p hp).imp fun _ _ _ _ v hv => absurd hv (Nat.not_lt_zero v)

theorem pure (r : α) : Keeps n (pure r) := fun _ _ _ h => .pure h (.refl n _)

theorem bind (hm : Keeps n m) (hf : ∀ r, Keeps n (f r)) : Keeps n (m >>= f) :=
  fun text a p h => (hm text a p h).bind fun r a' p' _ hp' hKeeps =>
    (hf r text a' p' hp').imp fun _ _ _ => hKeeps.trans

theorem ite {n : Nat} {m m' : Reader α} {c : Prop} [Decidable c] (hm : Keeps n m)
    (hm' : Keeps n m') : Keeps n (if c then m else m') := by
  split
  · exact hm
  · exact hm'

theorem get : Keeps n (get : Reader Progress) := fun _ _ _ h => ⟨h.automaton.refl, h, .refl n _⟩

theorem getStack : Keeps n getStack := fun _ _ _ h => ⟨h.automaton.refl, h, .refl n _⟩

theorem headCount : Keeps n headCount := fun _ _ _ h => ⟨h.automaton.refl, h, .refl n _⟩

theorem top (v : Nat) : Keeps n (top v) := fun _ _ _ h => ⟨h.automaton.refl, h, .refl n _⟩

theorem statusOf (v : Nat) : Keeps n (statusOf v) :=
  fun _ _ _ h => ⟨h.automaton.refl, h, .refl n _⟩

theorem modifyStack {f : Stack → Stack}
    (hf : ∀ (text : List Char) (a : Automaton) (s : Stack), s.IsSound text a →
      (f s).IsSound text a ∧ s.KeepsPlaces n (f s)) : Keeps n (modifyStack f) :=
  fun text a p h => .modifyStack h (hf text a p.stack h.stack).1 (hf text a p.stack h.stack).2

theorem onStack {f : Stack → Stack × α}
    (hf : ∀ (text : List Char) (a : Automaton) (s : Stack), s.IsSound text a →
      (f s).1.IsSound text a ∧ s.KeepsPlaces n (f s).1) : Keeps n (onStack f) :=
  fun text a p h => .onStack h (hf text a p.stack h.stack).1 (hf text a p.stack h.stack).2

theorem forIn {γ : Type} {xs : List γ} {init : β} {f : γ → β → Reader (ForInStep β)}
    (hf : ∀ x ∈ xs, ∀ r, Keeps n (f x r)) : Keeps n (forIn xs init f) :=
  fun text _ p h => .forIn (Q := fun _ _ p' => p.stack.KeepsPlaces n p'.stack) h (.refl n _)
    fun x hx r a' p' hp' hKeeps =>
      (hf x hx r text a' p' hp').imp fun _ _ _ => hKeeps.trans

end Keeps

/-! ## Questions -/

theorem actionsAt_spec (h : p.IsSound text a) (state : Nat) (o : Origin) :
    Ensures text (actionsAt state o) a p fun acts a' p' => p' = p ∧
      ∀ act ∈ acts, ∃ t, o = .symbol (.terminal t) ∧ a'.Fits state t act := by
  unfold actionsAt
  split
  · rename_i t
    exact (Ensures.lift h (Automaton.ensures_actions h.automaton state t)).imp
      fun acts a' p' ⟨hp, hFits⟩ => ⟨hp, fun act hAct => ⟨t, rfl, hFits act hAct⟩⟩
  · exact .pure h ⟨rfl, fun act hAct => absurd hAct List.not_mem_nil⟩

theorem keeps_actionsAt (state : Nat) (o : Origin) : Keeps n (actionsAt state o) :=
  fun _ _ _ h => (actionsAt_spec h state o).imp fun _ _ _ hQ => by
    rw [hQ.1]
    exact .refl n _

theorem stateBehind_group (h : p.IsSound text a) (state g : Nat) :
    Ensures text (stateBehind state (.symbol (.group g))) a p fun target a' p' => p' = p ∧
      (target = Automaton.skipping ∨ a'.Moves state (.group g) target) :=
  (Ensures.lift h (Automaton.ensures_behind h.automaton state (.group g))).imp
    fun target a' p' hQ => by
      obtain ⟨hp, hTarget⟩ := hQ
      refine ⟨hp, hTarget.imp_right fun hTarget => hTarget.resolve_right ?_⟩
      rintro ⟨_, t, hTerminal⟩
      cases hTerminal

theorem keeps_progressOf (v : Nat) : Keeps n (progressOf v) :=
  .onStack fun _ _ s h => ⟨h.modifyHead_same rfl (.inl rfl),
    s.keepsPlaces_modifyHead n v fun _ => rfl⟩

theorem keeps_costOf (v : Nat) : Keeps n (costOf v) := .bind .getStack fun _ => .pure _

theorem keeps_standingOf (v : Nat) : Keeps n (standingOf v) :=
  .bind (keeps_costOf v) fun _ => .bind (keeps_progressOf v) fun _ =>
    .bind .getStack fun _ => .pure _

theorem keeps_isOutdoneBy (v cost : Nat) (mine : Standing) (others : List Nat) :
    Keeps n (isOutdoneBy v cost mine others) := by
  induction others with
  | nil => exact .pure _
  | cons w others ih =>
    rw [isOutdoneBy]
    refine .bind .getStack fun s => ?_
    split
    · exact ih
    · refine .bind (keeps_standingOf w) fun theirs => ?_
      split
      · exact .pure _
      · split
        · exact .pure _
        · exact ih
      · exact ih

theorem keeps_isOutdone (v cost : Nat) : Keeps n (isOutdone v cost) := by
  have hRest : Keeps n (do
      let progress ← progressOf v
      let mine : Standing := ⟨cost, progress, (← top v).weight, false⟩
      isOutdoneBy v cost mine (List.range (← headCount))) :=
    .bind (keeps_progressOf v) fun _ => .bind (.top v) fun _ => .bind .headCount fun _ =>
      keeps_isOutdoneBy v cost _ _
  unfold isOutdone
  refine .bind .get fun p => ?_
  split
  · split
    · exact .pure _
    · exact hRest
  · exact hRest

theorem keeps_mergeInto {v : Nat} (hv : n ≤ v) (others : List Nat) :
    Keeps n (mergeInto v others) := by
  refine .onStack fun text a s h => ?_
  split
  · rename_i merged hMerge
    obtain ⟨hSound, hDrops⟩ := Stack.mergeInto?_spec h hMerge
    exact ⟨hSound, Stack.keepsPlaces_of_stays h fun u hu =>
      hDrops.before u (Nat.lt_of_lt_of_le hu hv)⟩
  · exact ⟨h, .refl n s⟩

end Reader

end TypeDiagram.Source
