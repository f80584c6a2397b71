import Mathlib.Data.List.TakeWhile
import TypeDiagram.Proofs.Source.Production
import TypeDiagram.Proofs.Source.Word
import TypeDiagram.Source.Scanner

/-! # Words ahead

A word is read again where all that follows it is cut off. Only words are taken for identifiers, so
the text of an identifier that lies ahead is one that a declaration may be declared under.
-/

namespace TypeDiagram.Source

/-! ## Words that are cut off -/

theorem exists_escape {cs : List Char} (h : unicodeEscape cs ≠ 0) :
    ∃ own rest, cs = own ++ rest ∧ ∀ more, unicodeEscape (own ++ more) = own.length := by
  revert h
  fun_cases unicodeEscape cs with
  | case1 cs digits hBraced =>
    intro _
    obtain ⟨hSome, hClosed⟩ := (Bool.and_eq_true _ _).mp hBraced
    obtain ⟨rest, hRest⟩ : ∃ rest, cs.drop digits = '\x7d' :: rest := by
      cases hDrop : cs.drop digits with
      | nil =>
        rw [hDrop] at hClosed
        cases hClosed
      | cons c rest =>
        rw [hDrop] at hClosed
        obtain rfl : c = '\x7d' := by simpa using hClosed
        exact ⟨rest, rfl⟩
    have hTake : cs.take digits = cs.takeWhile isHex :=
      (List.prefix_iff_eq_take.mp (List.takeWhile_prefix isHex)).symm
    have hSplit : cs = cs.takeWhile isHex ++ '\x7d' :: rest := by
      rw [← hRest, ← hTake, List.take_append_drop]
    refine ⟨'u' :: '\x7b' :: (cs.takeWhile isHex ++ ['\x7d']), rest, ?_, fun more => ?_⟩
    · conv => lhs; rw [hSplit]
      simp only [List.cons_append, List.append_assoc, List.nil_append]
    · have hDigits : ((cs.takeWhile isHex ++ '\x7d' :: more).takeWhile isHex) =
          cs.takeWhile isHex := by
        rw [List.takeWhile_append_of_pos fun c hc => List.mem_takeWhile_imp hc,
          List.takeWhile_cons_of_neg (by decide), List.append_nil]
      have hRest : (cs.takeWhile isHex ++ '\x7d' :: more).drop digits = '\x7d' :: more :=
        List.drop_left' rfl
      have hEnd : ((cs.takeWhile isHex ++ '\x7d' :: more).drop digits).head? = some '\x7d' := by
        rw [hRest, List.head?_cons]
      simp only [List.cons_append, List.append_assoc, List.nil_append, unicodeEscape, hDigits]
      rw [if_pos (by rw [hEnd, Bool.and_eq_true]; exact ⟨hSome, rfl⟩)]
      simp
  | case3 cs hOpen hHex =>
    intro _
    obtain ⟨hLength, hAll⟩ := (Bool.and_eq_true _ _).mp hHex
    refine ⟨'u' :: cs.take 4, cs.drop 4, by rw [List.cons_append, List.take_append_drop],
      fun more => ?_⟩
    have hTake : (cs.take 4 ++ more).take 4 = cs.take 4 := List.take_left' (beq_iff_eq.mp hLength)
    have hClosed (rest : List Char) : cs.take 4 ++ more ≠ '\x7b' :: rest := by
      cases hDigits : cs.take 4 with
      | nil =>
        rw [hDigits] at hLength
        cases hLength
      | cons c digits =>
        rw [hDigits, List.all_cons, Bool.and_eq_true] at hAll
        intro hSame
        rw [(List.cons.inj hSame).1] at hAll
        exact absurd hAll.1 (by decide)
    rw [List.cons_append, unicodeEscape, hTake, if_pos hHex, List.length_cons,
      beq_iff_eq.mp hLength]
    exact hClosed
  | case2 | case4 | case5 => exact fun h => absurd rfl h

theorem exists_word (atStart : Bool) (fuel : Nat) (cs : List Char) :
    ∃ own rest, cs = own ++ rest ∧ wordFrom atStart fuel cs = own.length ∧
      ∀ more, own.length ≤ more → wordFrom atStart more own = own.length := by
  induction fuel generalizing atStart cs with
  | zero => exact ⟨[], cs, rfl, rfl, fun more _ => by cases more <;> rfl⟩
  | succ fuel ih =>
    cases cs with
    | nil => exact ⟨[], [], rfl, rfl, fun more _ => by cases more <;> rfl⟩
    | cons c cs =>
      have hNone (h : wordFrom atStart (fuel + 1) (c :: cs) = 0) :
          ∃ own rest, c :: cs = own ++ rest ∧ wordFrom atStart (fuel + 1) (c :: cs) = own.length ∧
            ∀ more, own.length ≤ more → wordFrom atStart more own = own.length :=
        ⟨[], c :: cs, rfl, h, fun more _ => by cases more <;> rfl⟩
      by_cases hEscape : (c == '\\') = true
      · by_cases hNothing : unicodeEscape cs = 0
        · exact hNone (by rw [wordFrom, if_pos hEscape, if_pos (beq_iff_eq.mpr hNothing)])
        · obtain ⟨escape, rest, rfl, hSame⟩ := exists_escape hNothing
          have hLength := hSame rest
          obtain ⟨own, rest, rfl, hOwn, hAgain⟩ := ih false rest
          rw [hLength] at hNothing
          refine ⟨c :: (escape ++ own), rest, by simp, ?_, fun more hMore => ?_⟩
          · rw [wordFrom, if_pos hEscape]
            dsimp only
            rw [hLength, if_neg (by simpa using hNothing), List.drop_left, hOwn]
            simp
            omega
          · obtain ⟨more, rfl⟩ : ∃ k, more = k + 1 := ⟨more - 1, by
              rw [List.length_cons] at hMore
              omega⟩
            have hAgain := hAgain more (by
              simp only [List.length_cons, List.length_append] at hMore
              omega)
            have hEscaped := hSame own
            rw [wordFrom, if_pos hEscape]
            dsimp only
            rw [hEscaped, if_neg (by simpa using hNothing), List.drop_left, hAgain]
            simp
            omega
      · by_cases hWord : (if atStart then isWordStart c else isWordRest c) = true
        · obtain ⟨own, rest, rfl, hOwn, hAgain⟩ := ih false cs
          refine ⟨c :: own, rest, rfl, ?_, fun more hMore => ?_⟩
          · rw [wordFrom, if_neg hEscape, if_pos hWord, hOwn, List.length_cons]
          · cases more with
            | zero => cases hMore
            | succ more =>
              rw [wordFrom, if_neg hEscape, if_pos hWord,
                hAgain more (Nat.le_of_succ_le_succ hMore), List.length_cons]
        · exact hNone (by rw [wordFrom, if_neg hEscape, if_neg hWord])

theorem isWholeWord_take {cs : List Char} (h : wordLength cs ≠ 0) :
    isWholeWord (cs.take (wordLength cs)) = true := by
  obtain ⟨own, rest, hSplit, hLength, hAgain⟩ := exists_word true cs.length cs
  rw [← wordLength] at hLength
  have hTake : cs.take (wordLength cs) = own := by
    rw [hLength, hSplit, List.take_left]
  rw [hLength] at h
  rw [hTake, isWholeWord, Bool.and_eq_true, Bool.not_eq_true', beq_iff_eq]
  exact ⟨List.isEmpty_eq_false_iff.mpr (List.ne_nil_of_length_pos (Nat.pos_of_ne_zero h)),
    hAgain _ (Nat.le_refl _)⟩

/-! ## Identifiers -/

/-- What lies ahead is a word if it is an identifier. -/
def Sighting.IsWord (cs : List Char) (w : Sighting) : Prop :=
  w.terminal = Terminal.identifier.code → isWholeWord ((cs.drop w.gap).take w.length) = true

namespace Scanner

/-- The classes of lexemes that are told by their first characters or by what surrounds them. -/
def classes : List Terminal :=
  [.privateName, .number, .comment, .hashBang, .doubleText, .singleText, .escape, .regexBody,
    .regexEnd, .regexFlags, .automaticSemicolon, .templateText, .ternaryMark, .htmlComment,
    .endOfSource]

theorem code_ne_identifier {t : Terminal} (h : t ∈ Terminal.all.toList) (hNe : t ≠ .identifier) :
    t.code ≠ Terminal.identifier.code := by
  obtain ⟨n, hn⟩ := List.mem_iff_getElem?.mp h
  rw [Array.getElem?_toList] at hn
  have hFirst : Terminal.all[0]? = some .identifier := by decide +kernel
  rw [Terminal.code_of_getElem? hn, Terminal.code_of_getElem? hFirst]
  rintro rfl
  rw [hFirst] at hn
  exact hNe (Option.some.inj hn).symm

theorem code_ne_of_mem_classes {t : Terminal} {code : Nat} (h : t ∈ classes)
    (hCode : code = t.code) : code ≠ Terminal.identifier.code := by
  have hAll : ∀ t ∈ classes, t ∈ Terminal.all.toList ∧ t ≠ .identifier := by decide +kernel
  rw [hCode]
  exact code_ne_identifier (hAll t h).1 (hAll t h).2

variable {expected : TokenSet} {cs : List Char} {w : Sighting} {code n : Nat}

theorem ternaryMark?_terminal (h : ternaryMark? cs = some w) :
    w.terminal = Terminal.ternaryMark.code := by
  unfold ternaryMark? at h
  extract_lets rest at h
  clear_value rest
  split at h
  · extract_lets next ends at h
    split at h
    · cases h
    · rw [← Option.some.inj h, codes]
  · cases h

theorem htmlComment?_terminal (h : htmlComment? cs = some w) :
    w.terminal = Terminal.htmlComment.code := by
  unfold htmlComment? at h
  dsimp only at h
  split at h
  · rw [← Option.some.inj h, codes]
  · cases h

theorem contextual?_ne_identifier (h : contextual? expected cs = some w) :
    w.terminal ≠ Terminal.identifier.code := by
  have hTernary {cs : List Char} {w : Sighting} (h : ternaryMark? cs = some w) :
      w.terminal ≠ Terminal.identifier.code :=
    code_ne_of_mem_classes (by decide) (ternaryMark?_terminal h)
  have hSome {t : Nat} {c : Terminal} {gap length : Nat} (hc : c ∈ classes) (ht : t = c.code)
      (h : some ⟨t, gap, length⟩ = some w) : w.terminal ≠ Terminal.identifier.code := by
    rw [← Option.some.inj h]
    exact code_ne_of_mem_classes hc ht
  unfold contextual? at h
  extract_lets has inExpression at h
  split at h
  · split at h
    · cases h
    · exact hSome (c := .templateText) (by decide) (by rw [codes]) h
  · split at h
    · split at h
      · exact hSome (c := .automaticSemicolon) (by decide) (by rw [codes]) h
      · split at h
        · obtain ⟨mark, hMark, rfl⟩ := Option.map_eq_some_iff.mp h
          exact hTernary (w := mark) hMark
        · cases h
    · split at h
      · exact hTernary h
      · split at h
        · exact code_ne_of_mem_classes (by decide) (htmlComment?_terminal h)
        · cases h

theorem code_ne_of_mem_punctuation {mark : List Char} (h : (mark, code) ∈ punctuation) :
    code ≠ Terminal.identifier.code := by
  obtain ⟨⟨spelling, n⟩, hMem, hSame⟩ := List.mem_map.mp h
  obtain ⟨_, rfl⟩ := Prod.mk.inj hSame
  obtain ⟨⟨t, m⟩, hZip, hLiteral⟩ := List.mem_filterMap.mp (List.mem_of_mem_filter hMem)
  obtain ⟨s, hSpelling, hPair⟩ := Option.map_eq_some_iff.mp hLiteral
  obtain ⟨_, rfl⟩ := Prod.mk.inj hPair
  have hFound := List.mem_zipIdx_iff_getElem?.mp hZip
  rw [Array.getElem?_toList] at hFound
  dsimp only at hFound
  rw [← Terminal.code_of_getElem? hFound]
  refine code_ne_identifier (List.mem_of_getElem? (Array.getElem?_toList.trans hFound)) ?_
  rintro rfl
  cases hSpelling

theorem candidates_word {adjacent : Bool} (h : (code, n) ∈ candidates expected adjacent cs)
    (hCode : code = Terminal.identifier.code) : n = wordLength cs := by
  have hIf {b : Bool} {t : Terminal} {m k : Nat} (ht : t ∈ classes) (hm : m = t.code)
      (h : (code, n) ∈ if b = true then [(m, k)] else []) : n = wordLength cs := by
    split at h
    · refine absurd hCode ?_
      rw [(Prod.mk.inj (List.mem_singleton.mp h)).1]
      exact code_ne_of_mem_classes ht hm
    · cases h
  unfold candidates at h
  extract_lets has only onlyAdjacent word flags marks bang privateNames at h
  simp only [List.mem_append, or_assoc] at h
  obtain hWord | hFlags | hNumber | hMark | hEscape | hComment | hBang | hPrivate := h
  · dsimp only [word] at hWord
    split at hWord
    · exact (Prod.mk.inj (List.mem_singleton.mp hWord)).2
    · cases hWord
  · exact hIf (t := .regexFlags) (by decide) (by rw [codes]) hFlags
  · exact hIf (t := .number) (by decide) (by rw [codes]) hNumber
  · obtain ⟨⟨mark, m⟩, hMem, hSome⟩ := List.mem_filterMap.mp hMark
    dsimp only at hSome
    split at hSome
    · rw [← (Prod.mk.inj (Option.some.inj hSome)).1] at hCode
      exact absurd hCode (code_ne_of_mem_punctuation hMem)
    · cases hSome
  · exact hIf (t := .escape) (by decide) (by rw [codes]) hEscape
  · exact hIf (t := .comment) (by decide) (by rw [codes]) hComment
  · dsimp only [bang] at hBang
    split at hBang
    · exact hIf (t := .hashBang) (by decide) (by rw [codes]) hBang
    · cases hBang
  · dsimp only [privateNames] at hPrivate
    split at hPrivate
    · split at hPrivate
      · cases hPrivate
      · exact hIf (t := .privateName) (by decide) (by rw [codes]) hPrivate
    · cases hPrivate

theorem foldl_longer_mem (found : List (Nat × Nat)) (best : Nat × Nat) :
    found.foldl longer best = best ∨ found.foldl longer best ∈ found := by
  induction found generalizing best with
  | nil => exact .inl rfl
  | cons next found ih =>
    rw [List.foldl_cons]
    obtain hSame | hMem := ih (longer best next)
    · rw [hSame, longer]
      split
      · exact .inr List.mem_cons_self
      · exact .inl rfl
    · exact .inr (List.mem_cons_of_mem _ hMem)

theorem stringText?_ne_identifier (h : stringText? expected cs = some w) :
    w.terminal ≠ Terminal.identifier.code := by
  unfold stringText? at h
  extract_lets text at h
  have hText {t : Nat} {quote : Char} {c : Terminal} (hc : c ∈ classes) (ht : t = c.code)
      (h : text t quote = some w) : w.terminal ≠ Terminal.identifier.code := by
    dsimp only [text] at h
    split at h
    · cases h
    · rw [← Option.some.inj h]
      exact code_ne_of_mem_classes hc ht
  split at h
  · exact hText (c := .doubleText) (by decide) (by rw [codes]) h
  · split at h
    · exact hText (c := .singleText) (by decide) (by rw [codes]) h
    · cases h

theorem spelled?_isWord (h : spelled? expected cs = some w) : w.IsWord cs := by
  have hSome {t : Nat} {c : Terminal} {gap length : Nat} (hc : c ∈ classes) (ht : t = c.code)
      (h : some ⟨t, gap, length⟩ = some w) : w.IsWord cs := by
    intro hCode
    rw [← Option.some.inj h] at hCode
    exact absurd hCode (code_ne_of_mem_classes hc ht)
  unfold spelled? at h
  split at h
  · rename_i s hText
    obtain rfl := Option.some.inj h
    exact fun hCode => absurd hCode (stringText?_ne_identifier hText)
  · extract_lets gap rest adjacent regex slash at h
    split at h
    · split at h
      · exact hSome (c := .endOfSource) (by decide) (by rw [codes]) h
      · cases h
    · split at h
      · exact hSome (c := .regexBody) (by decide) (by rw [codes]) h
      · have hFold := foldl_longer_mem (candidates expected adjacent rest) (0, 0)
        generalize (candidates expected adjacent rest).foldl longer (0, 0) = best at h hFold
        obtain ⟨code, n⟩ := best
        dsimp only at h
        split at h
        · exact hSome (c := .regexEnd) (by decide) (by rw [codes]) h
        · split at h
          · cases h
          · rename_i hLength
            obtain rfl := Option.some.inj h
            intro hCode
            obtain hNone | hMem := hFold
            · rw [(Prod.mk.inj hNone).2] at hLength
              exact absurd rfl hLength
            · obtain rfl := candidates_word hMem hCode
              exact isWholeWord_take fun h => hLength (beq_iff_eq.mpr h)

end Scanner

end TypeDiagram.Source
