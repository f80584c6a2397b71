import Mathlib.Data.List.Nodup
import TypeDiagram.Source.Item

/-! # What productions consist of

A production spells out one way to make the choices of a rule, so its steps are terminals and
categories of that rule. No rule mentions the end of the source, and a generic type is a name with
arguments behind it.
-/

namespace TypeDiagram.Source

/-! ## Numbers of terminals and categories -/

namespace Terminal

def key : Terminal → Nat
  | literal spelling => spelling.toList.foldl (fun n c => 256 * n + c.toNat) 256
  | t => t.ctorIdx

-- Numbers are compared faster than spellings.
theorem nodup_all : all.toList.Nodup := by
  have hKeys : (all.toList.map key).Nodup := by decide +kernel
  exact hKeys.of_map key

theorem code_of_getElem? {t : Terminal} {n : Nat} (h : all[n]? = some t) : t.code = n := by
  have hMem : (t, n) ∈ all.toList.zipIdx := by
    rw [List.mem_zipIdx_iff_getElem?, Array.getElem?_toList]
    exact h
  have hDistinct : all.toList.zipIdx.Pairwise fun a b => (a.1 == b.1) = false := by
    have hKeys : (all.toList.zipIdx.map Prod.fst).Nodup := by
      rw [List.zipIdx_map_fst]
      exact nodup_all
    exact (List.pairwise_map.mp hKeys).imp fun hNe => beq_eq_false_iff_ne.mpr hNe
  rw [code, codes, Std.HashMap.getElem?_ofList_of_mem BEq.rfl hDistinct hMem, Option.getD_some]

theorem code_of_not_mem {t : Terminal} (h : t ∉ all.toList) : t.code = 0 := by
  have hNone : (all.toList.zipIdx.map Prod.fst).contains t = false := by
    rw [List.zipIdx_map_fst]
    simpa using h
  rw [code, codes, Std.HashMap.getElem?_ofList_of_contains_eq_false hNone, Option.getD_none]

theorem code_ne_endOfSource {t : Terminal} (h : t ≠ endOfSource) : t.code ≠ endOfSource.code := by
  have hEnd : all[all.size - 1]? = some endOfSource := by decide +kernel
  rw [code_of_getElem? hEnd]
  intro hSame
  by_cases hMem : t ∈ all.toList
  · obtain ⟨n, hn⟩ := List.mem_iff_getElem?.mp hMem
    rw [Array.getElem?_toList] at hn
    rw [code_of_getElem? hn] at hSame
    rw [hSame, hEnd] at hn
    exact h (Option.some.inj hn).symm
  · rw [code_of_not_mem hMem] at hSame
    exact absurd hSame (by decide +kernel)

end Terminal

theorem Category.ofCode?_code (c : Category) : Category.ofCode? c.code = some c := by
  rw [Category.ofCode?, if_pos c.code_lt_count, Category.code, Category.ofNat_ctorIdx]

theorem Category.code_of_ofCode? {n : Nat} {c : Category} (h : ofCode? n = some c) :
    c.code = n := by
  have hCodes : ∀ m < count, (ofNat m).ctorIdx = m := by decide +kernel
  unfold ofCode? at h
  split at h
  · rename_i hLess
    rw [← Option.some.inj h]
    exact hCodes n hLess
  · cases h

/-! ## Steps -/

/-- The symbol stands for the other one: it is that one, or that one is a hidden group, of which no
node is left if it has but one part. -/
def Symbol.StandsFor (x y : Symbol) : Prop :=
  x = y ∨ ∃ g, y = .group g ∧ Production.isVisible g = false

namespace Phrase

def mentions (t : Terminal) : Phrase → Bool
  | nothing | category _ => false
  | terminal u => u == t
  | sequence a b | choice a b => a.mentions t || b.mentions t
  | repeated p | part _ p | renamed _ p | bound _ _ p | weighted _ p => p.mentions t

variable {t : Terminal}

theorem mentions_of_mem_repeats {p q : Phrase} (h : q ∈ p.repeats) (hq : q.mentions t = true) :
    p.mentions t = true := by
  induction p with
  | nothing | terminal | category => cases h
  | sequence a b iha ihb | choice a b iha ihb =>
    rw [mentions, Bool.or_eq_true]
    exact (List.mem_append.mp h).imp iha ihb
  | repeated p ih =>
    rcases List.mem_append.mp h with h | h
    · exact ih h
    · rwa [List.mem_singleton.mp h] at hq
  | part _ p ih | renamed _ p ih | bound _ _ p ih | weighted _ p ih => exact ih h

end Phrase

theorem endOfSource_not_mentioned (c : Category) : c.rule.mentions .endOfSource = false := by
  cases c <;> rfl

namespace Production

/-- How a node of the production names its children. -/
def form (p : Production) : Form := ⟨p.steps.map Step.shownAs, p.steps.map Step.role⟩

def symbolsFrom (p : Production) (dot : Nat) : List Symbol := (p.steps.drop dot).map Step.symbol

theorem length_symbolsFrom (p : Production) (dot : Nat) :
    (p.symbolsFrom dot).length = p.steps.length - dot := by
  rw [symbolsFrom, List.length_map, List.length_drop]

theorem symbol_mapLast {f : Step → Step} (hf : ∀ s, (f s).symbol = s.symbol) (steps : List Step) :
    (mapLast f steps).map Step.symbol = steps.map Step.symbol := by
  induction steps with
  | nil => rfl
  | cons s steps ih =>
    cases steps with
    | nil => exact congrArg (· :: []) (hf s)
    | cons t rest => exact congrArg (s.symbol :: ·) ih

theorem mem_expand_sequence {context : Context} {atEnd : Bool} {a b : Phrase} {steps : List Step}
    {weight : Int} (h : (steps, weight) ∈ expand context atEnd (.sequence a b)) :
    ∃ xs ys v w, (xs, v) ∈ expand context false a ∧ (ys, w) ∈ expand context atEnd b ∧
      steps = xs ++ ys := by
  obtain ⟨⟨xs, v⟩, hx, h⟩ := List.mem_flatMap.mp h
  obtain ⟨⟨ys, w⟩, hy, hSame⟩ := List.mem_map.mp h
  exact ⟨xs, ys, v, w, hx, hy, (Prod.mk.inj hSame).1.symm⟩

theorem mentions_of_mem_expand {context : Context} {atEnd : Bool} {p : Phrase} {steps : List Step}
    {weight : Int} (h : (steps, weight) ∈ expand context atEnd p) {n : Nat}
    (hn : Symbol.terminal n ∈ steps.map Step.symbol) : ∃ t, p.mentions t = true ∧ t.code = n := by
  induction p generalizing context atEnd steps weight with
  | nothing =>
    obtain ⟨rfl, _⟩ := Prod.mk.inj (List.mem_singleton.mp h)
    cases hn
  | terminal t =>
    obtain ⟨rfl, _⟩ := Prod.mk.inj (List.mem_singleton.mp h)
    exact ⟨t, BEq.rfl, (Symbol.terminal.inj (List.mem_singleton.mp hn)).symm⟩
  | category c | repeated q =>
    obtain ⟨rfl, _⟩ := Prod.mk.inj (List.mem_singleton.mp h)
    cases List.mem_singleton.mp hn
  | sequence a b iha ihb =>
    obtain ⟨xs, ys, _, _, hx, hy, rfl⟩ := mem_expand_sequence h
    rw [List.map_append, List.mem_append] at hn
    simp only [Phrase.mentions, Bool.or_eq_true]
    rcases hn with hn | hn
    · exact (iha hx hn).imp fun _ => And.imp_left .inl
    · exact (ihb hy hn).imp fun _ => And.imp_left .inr
  | choice a b iha ihb =>
    simp only [Phrase.mentions, Bool.or_eq_true]
    rcases List.mem_append.mp h with h | h
    · exact (iha h hn).imp fun _ => And.imp_left .inl
    · exact (ihb h hn).imp fun _ => And.imp_left .inr
  | part _ _ ih | renamed _ _ ih => exact ih h hn
  | weighted _ _ ih =>
    obtain ⟨⟨xs, v⟩, hx, hSame⟩ := List.mem_map.mp h
    obtain ⟨rfl, _⟩ := Prod.mk.inj hSame
    exact ih hx hn
  | bound precedence side p ih =>
    obtain ⟨⟨xs, v⟩, hx, hSame⟩ := List.mem_map.mp h
    obtain ⟨rfl, _⟩ := Prod.mk.inj hSame
    refine ih hx ?_
    split at hn
    · exact hn
    · refine (congrArg (Symbol.terminal n ∈ ·) (symbol_mapLast ?_ xs)).mp hn
      exact fun _ => rfl

/-- A production spells out a rule, a phrase that some rule repeats, or a whole source. -/
theorem mem_all {p : Production} (h : p ∈ all) :
    (∃ c : Category, p ∈ ofPhrase c.code c.rule) ∨ (∃ q ∈ repetitions, p ∈ ofRepetition q) ∨
      p ∈ ofPhrase sourceCode (.category .program) := by
  unfold all at h
  rcases List.mem_append.mp h with h | h
  · rcases List.mem_append.mp h with h | h
    · obtain ⟨n, _, h⟩ := List.mem_flatMap.mp h
      cases hCategory : Category.ofCode? n with
      | none =>
        rw [hCategory] at h
        cases h
      | some c =>
        rw [hCategory] at h
        obtain rfl := Category.code_of_ofCode? hCategory
        exact .inl ⟨c, h⟩
    · exact .inr (.inl (List.mem_flatMap.mp h))
  · exact .inr (.inr h)

theorem repeats_of_mem_repetitions {q : Phrase} (h : q ∈ repetitions) :
    ∃ c : Category, q ∈ c.rule.repeats := by
  unfold repetitions at h
  rw [List.mem_eraseDups, List.mem_flatMap] at h
  obtain ⟨n, _, h⟩ := h
  cases hCategory : Category.ofCode? n with
  | none =>
    rw [hCategory] at h
    cases h
  | some c =>
    rw [hCategory] at h
    exact ⟨c, h⟩

theorem not_endOfSource_of_mem_ofPhrase {p : Production} {group : Nat} {q : Phrase}
    (h : p ∈ ofPhrase group q) (hq : q.mentions .endOfSource = false) :
    Symbol.terminal Terminal.endOfSource.code ∉ p.steps.map Step.symbol := by
  obtain ⟨⟨steps, weight⟩, hSteps, rfl⟩ := List.mem_map.mp h
  intro hMem
  obtain ⟨t, hMentions, hCode⟩ := mentions_of_mem_expand hSteps hMem
  by_cases hEnd : t = .endOfSource
  · rw [hEnd, hq] at hMentions
    cases hMentions
  · exact Terminal.code_ne_endOfSource hEnd hCode

theorem endOfSource_not_mem {p : Production} (h : p ∈ all) :
    Symbol.terminal Terminal.endOfSource.code ∉ p.steps.map Step.symbol := by
  rcases mem_all h with ⟨c, h⟩ | ⟨q, hq, h⟩ | h
  · exact not_endOfSource_of_mem_ofPhrase h (endOfSource_not_mentioned c)
  · obtain ⟨c, hRule⟩ := repeats_of_mem_repetitions hq
    rcases List.mem_cons.mp h with rfl | h
    · intro hMem
      rcases List.mem_pair.mp hMem with hSame | hSame <;> cases hSame
    · refine not_endOfSource_of_mem_ofPhrase h (Bool.eq_false_iff.mpr fun hMentions => ?_)
      have hRuleMentions := Phrase.mentions_of_mem_repeats hRule hMentions
      rw [endOfSource_not_mentioned] at hRuleMentions
      cases hRuleMentions
  · exact not_endOfSource_of_mem_ofPhrase h rfl

theorem group_of_mem_ofPhrase {p : Production} {group : Nat} {q : Phrase}
    (h : p ∈ ofPhrase group q) : p.group = group := by
  obtain ⟨_, _, rfl⟩ := List.mem_map.mp h
  rfl

theorem group_of_mem_ofRepetition {p : Production} {q : Phrase} (h : p ∈ ofRepetition q) :
    p.group = repetitionCode q := by
  rcases List.mem_cons.mp h with rfl | h
  · rfl
  · exact group_of_mem_ofPhrase h

theorem mem_ofPhrase_of_group {p : Production} (h : p ∈ all) {c : Category}
    (hGroup : p.group = c.code) : p ∈ ofPhrase c.code c.rule := by
  have hLess := c.code_lt_count
  rcases mem_all h with ⟨d, h⟩ | ⟨q, hq, h⟩ | h
  · have hSame : d.code = c.code := (group_of_mem_ofPhrase h).symm.trans hGroup
    have hCategory := congrArg Category.ofCode? hSame
    rw [Category.ofCode?_code, Category.ofCode?_code] at hCategory
    rwa [Option.some.inj hCategory] at h
  · have hCode := (group_of_mem_ofRepetition h).symm.trans hGroup
    unfold repetitionCode at hCode
    omega
  · have hCode := (group_of_mem_ofPhrase h).symm.trans hGroup
    unfold sourceCode at hCode
    omega

theorem symbols_of_source {p : Production} (h : p ∈ all) (hGroup : p.group = sourceCode) :
    p.steps.map Step.symbol = [.group Category.program.code] := by
  rcases mem_all h with ⟨c, h⟩ | ⟨q, hq, h⟩ | h
  · have hLess := c.code_lt_count
    have hCode := (group_of_mem_ofPhrase h).symm.trans hGroup
    unfold sourceCode at hCode
    omega
  · have hLess := List.idxOf_lt_length_of_mem hq
    have hCode := (group_of_mem_ofRepetition h).symm.trans hGroup
    unfold repetitionCode sourceCode at hCode
    omega
  · obtain ⟨⟨steps, weight⟩, hSteps, rfl⟩ := List.mem_map.mp h
    obtain ⟨rfl, _⟩ := Prod.mk.inj (List.mem_singleton.mp hSteps)
    rfl

/-- A generic type is a name with arguments behind it. The name is shown under a name of its own, or
it is a dotted one. -/
theorem steps_of_genericType {p : Production} (h : p ∈ all)
    (hGroup : p.group = Category.genericType.code) :
    ∃ name arguments, p.steps = [name, arguments] ∧ name.role = some .name ∧
      arguments.role = some .typeArguments ∧
      (name.shownAs.isSome = true ∨ name.symbol = .group Category.nestedTypeIdentifier.code) := by
  obtain ⟨⟨steps, weight⟩, hSteps, rfl⟩ := List.mem_map.mp (mem_ofPhrase_of_group h hGroup)
  rcases List.mem_pair.mp hSteps with hSame | hSame
  · obtain ⟨rfl, _⟩ := Prod.mk.inj hSame
    exact ⟨_, _, rfl, rfl, rfl, .inl rfl⟩
  · obtain ⟨rfl, _⟩ := Prod.mk.inj hSame
    exact ⟨_, _, rfl, rfl, rfl, .inr rfl⟩

/-- An interface or an alias is a keyword with a name behind it, which is an identifier. -/
theorem steps_of_declaration {p : Production} (h : p ∈ all) {c : Category}
    (hCategory : c = .interfaceDeclaration ∨ c = .typeAliasDeclaration)
    (hGroup : p.group = c.code) :
    ∃ keyword name rest, p.steps = keyword :: name :: rest ∧
      (∃ t, keyword.symbol = .terminal t) ∧ keyword.role = none ∧
      name.symbol = .terminal Terminal.identifier.code ∧ name.role = some .name := by
  obtain ⟨keyword, more, hRule⟩ : ∃ keyword more, c.rule =
      .sequence (.terminal keyword) (.sequence (.field .name .typeName) more) := by
    rcases hCategory with rfl | rfl <;> exact ⟨_, _, rfl⟩
  obtain ⟨⟨steps, weight⟩, hSteps, rfl⟩ := List.mem_map.mp (mem_ofPhrase_of_group h hGroup)
  rw [hRule] at hSteps
  obtain ⟨xs, ys, _, _, hx, hy, rfl⟩ := mem_expand_sequence hSteps
  obtain ⟨zs, ws, _, _, hz, _, rfl⟩ := mem_expand_sequence hy
  obtain ⟨rfl, _⟩ := Prod.mk.inj (List.mem_singleton.mp hx)
  obtain ⟨rfl, _⟩ := Prod.mk.inj (List.mem_singleton.mp hz)
  exact ⟨_, _, ws, rfl, ⟨_, rfl⟩, rfl, rfl, rfl⟩

end Production

end TypeDiagram.Source
