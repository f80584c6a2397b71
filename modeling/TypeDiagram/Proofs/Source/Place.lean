import Mathlib.Algebra.GroupWithZero.Nat
import TypeDiagram.Source.Place

/-! # Places of a text

The distance between two places is the extent of the text that is read on the way. No character
takes up no octets, so the octets in front of a place of a text tell which place it is.
-/

namespace TypeDiagram.Source

namespace Extent

def of (cs : List Char) : Extent := ⟨cs.length, (cs.map Char.utf8Size).sum, cs.count '\n'⟩

theorem none_add (e : Extent) : none + e = e := by
  obtain ⟨chars, octets, lines⟩ := e
  change mk (0 + chars) (0 + octets) (0 + lines) = _
  simp only [Nat.zero_add]

theorem add_none (e : Extent) : e + none = e := rfl

theorem add_assoc (d e f : Extent) : d + e + f = d + (e + f) := by
  change mk (_ + _ + _) (_ + _ + _) (_ + _ + _) = _
  simp only [Nat.add_assoc]
  rfl

theorem of_append (cs ds : List Char) : of (cs ++ ds) = of cs + of ds := by
  unfold of
  rw [List.length_append, List.map_append, List.sum_append_nat, List.count_append]
  rfl

theorem ofPrefix_eq (n : Nat) (cs : List Char) (e : Extent) :
    ofPrefix n cs e = e + of (cs.take n) := by
  induction n generalizing cs e with
  | zero => exact (add_none e).symm
  | succ n ih =>
    cases cs with
    | nil => exact (add_none e).symm
    | cons c cs =>
      have hFirst : mk (e.chars + 1) (e.octets + c.utf8Size)
          (if c == '\n' then e.lines + 1 else e.lines) = e + of [c] := by
        change _ = mk (e.chars + 1) (e.octets + (c.utf8Size + 0)) (e.lines + List.count '\n' [c])
        rw [List.count_singleton, Nat.add_zero]
        split <;> rfl
      rw [ofPrefix, ih, hFirst, add_assoc, ← of_append]
      rfl

theorem eq_nil_of_octets {cs : List Char} (h : (of cs).octets = 0) : cs = [] := by
  cases cs with
  | nil => rfl
  | cons c cs =>
    have hFirst := c.utf8Size_pos
    simp only [of, List.map_cons, List.sum_cons] at h
    omega

end Extent

namespace Place

variable {p q r : Place} {cs ds text : List Char}

/-- Reading the text leads from the one place to the other. -/
structure Reaches (p : Place) (cs : List Char) (q : Place) : Prop where
  ahead : p.ahead = cs ++ q.ahead
  before : q.before = p.before + .of cs

theorem Reaches.refl (p : Place) : p.Reaches [] p := ⟨rfl, (Extent.add_none _).symm⟩

theorem Reaches.trans (h : p.Reaches cs q) (h' : q.Reaches ds r) : p.Reaches (cs ++ ds) r where
  ahead := by rw [h.ahead, h'.ahead, List.append_assoc]
  before := by rw [h'.before, h.before, Extent.of_append, Extent.add_assoc]

theorem Reaches.exists_between (h : p.Reaches (cs ++ ds) q) :
    ∃ r, p.Reaches cs r ∧ r.Reaches ds q :=
  ⟨⟨p.before + .of cs, ds ++ q.ahead⟩, ⟨by rw [h.ahead, List.append_assoc], rfl⟩, rfl,
    by rw [h.before, Extent.of_append, Extent.add_assoc]⟩

theorem Reaches.eq_advance (h : p.Reaches cs q) : q = p.advance (.of cs) := by
  obtain ⟨before, ahead⟩ := q
  rw [advance, mk.injEq, h.ahead]
  exact ⟨h.before, (@List.drop_left _ cs ahead).symm⟩

theorem reaches_advance (h : cs <+: p.ahead) : p.Reaches cs (p.advance (.of cs)) where
  ahead := by
    obtain ⟨rest, hRest⟩ := h
    have hDrop : p.ahead.drop cs.length = rest := by rw [← hRest, List.drop_left]
    rw [advance]
    change p.ahead = cs ++ p.ahead.drop cs.length
    rw [hDrop, hRest]
  before := rfl

def IsIn (text : List Char) (p : Place) : Prop := ∃ cs, (start text).Reaches cs p

theorem IsIn.of_reaches (h : p.IsIn text) (hReaches : p.Reaches cs q) : q.IsIn text := by
  obtain ⟨before, hBefore⟩ := h
  exact ⟨before ++ cs, hBefore.trans hReaches⟩

theorem IsIn.eq_of_octets (h : p.IsIn text) (h' : q.IsIn text)
    (hSame : p.before.octets = q.before.octets) : p = q := by
  obtain ⟨cs, hAhead, hBefore⟩ := h
  obtain ⟨ds, hAhead', hBefore'⟩ := h'
  have hBoth : cs ++ p.ahead = ds ++ q.ahead := hAhead.symm.trans hAhead'
  have hOctets : (Extent.of cs).octets = (Extent.of ds).octets := by
    rw [hBefore, hBefore', start, Extent.none_add, Extent.none_add] at hSame
    exact hSame
  have hEq : cs = ds := by
    have hRest (xs ys : List Char) (h : (Extent.of xs).octets = (Extent.of (xs ++ ys)).octets) :
        ys = [] := by
      rw [Extent.of_append] at h
      exact Extent.eq_nil_of_octets (Nat.add_left_cancel (h.symm.trans (Nat.add_zero _).symm))
    rcases List.append_eq_append_iff.mp hBoth with ⟨more, rfl, _⟩ | ⟨more, rfl, _⟩
    · rw [hRest cs more hOctets, List.append_nil]
    · rw [hRest ds more hOctets.symm, List.append_nil]
  subst hEq
  obtain ⟨before, ahead⟩ := p
  obtain ⟨before', ahead'⟩ := q
  rw [mk.injEq]
  exact ⟨hBefore.trans hBefore'.symm, List.append_cancel_left hBoth⟩

end Place

end TypeDiagram.Source
