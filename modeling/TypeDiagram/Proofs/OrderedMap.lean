import TypeDiagram.OrderedMap
import Mathlib.Data.List.Induction
import Mathlib.Data.List.Nodup

/-! # Look-up in ordered maps

What each operation does to the keys of a map and to the value that a key has. A map is seen through
`get?` and `keys`; only the lemmas of this module open its entries.
-/

namespace TypeDiagram

/-- Among elements with distinct keys, the search for a key finds the element that has it. -/
theorem find?_eq_some_of_nodup_map {β κ : Type} [DecidableEq κ] {key : β → κ} {xs : List β}
    (h : (xs.map key).Nodup) {x : β} (hx : x ∈ xs) :
    (xs.find? fun y => key y == key x) = some x := by
  obtain ⟨y, hFind⟩ := Option.isSome_iff_exists.mp
    (List.find?_isSome (p := fun y => key y == key x).mpr ⟨x, hx, beq_self_eq_true (key x)⟩)
  have hKey : key y = key x := by simpa using List.find?_some hFind
  rw [hFind, List.inj_on_of_nodup_map h (List.mem_of_find?_eq_some hFind) hx hKey]

namespace OrderedMap

variable {κ ν : Type} [DecidableEq κ]

theorem contains_iff (m : OrderedMap κ ν) (k : κ) : m.contains k = true ↔ k ∈ m.keys := by
  simp [contains, keys]

theorem get?_eq_none_iff (m : OrderedMap κ ν) (k : κ) : m.get? k = none ↔ k ∉ m.keys := by
  simp only [get?, keys, Option.map_eq_none_iff, List.find?_eq_none, List.mem_map, beq_iff_eq,
    not_exists, not_and]

theorem get?_isSome_iff (m : OrderedMap κ ν) (k : κ) : (m.get? k).isSome = true ↔ k ∈ m.keys := by
  rw [Option.isSome_iff_ne_none, ne_eq, get?_eq_none_iff, not_not]

theorem mem_keys_iff_exists {m : OrderedMap κ ν} {k : κ} :
    k ∈ m.keys ↔ ∃ v, m.get? k = some v := by
  rw [← get?_isSome_iff, Option.isSome_iff_exists]

theorem mem_keys_of_get? {m : OrderedMap κ ν} {k : κ} {v : ν} (h : m.get? k = some v) :
    k ∈ m.keys := mem_keys_iff_exists.mpr ⟨v, h⟩

theorem get?_cons (e : κ × ν) (entries : List (κ × ν)) (k : κ) :
    (⟨e :: entries⟩ : OrderedMap κ ν).get? k =
      if e.1 = k then some e.2 else (⟨entries⟩ : OrderedMap κ ν).get? k := by
  unfold get?
  rw [List.find?_cons]
  by_cases he : e.1 = k
  · simp [he]
  · rw [beq_eq_false_iff_ne.mpr he, if_neg he]

theorem get?_eq_some_of_mem {m : OrderedMap κ ν} (h : m.keys.Nodup) {k : κ} {v : ν}
    (hMem : (k, v) ∈ m.entries) : m.get? k = some v := by
  rw [get?, find?_eq_some_of_nodup_map h hMem]
  rfl

theorem mem_entries_of_get? {m : OrderedMap κ ν} {k : κ} {v : ν} (h : m.get? k = some v) :
    (k, v) ∈ m.entries := by
  obtain ⟨e, hFind, rfl⟩ := Option.map_eq_some_iff.mp h
  have hKey : e.1 = k := by simpa using List.find?_some hFind
  exact hKey ▸ List.mem_of_find?_eq_some hFind

/-- Replacing the values of a key in place changes what that key has, and nothing else. -/
theorem get?_map_replace (m : OrderedMap κ ν) (k : κ) (v : ν) (l : κ) :
    (⟨m.entries.map fun e => if e.1 == k then (k, v) else e⟩ : OrderedMap κ ν).get? l =
      (m.get? l).map fun old => if l = k then v else old := by
  have hKey : ((fun e : κ × ν => e.1 == l) ∘ fun e => if e.1 == k then (k, v) else e) =
      fun e => e.1 == l := by
    funext e
    by_cases he : e.1 = k <;> simp [he]
  simp only [get?, List.find?_map, hKey]
  cases hFind : m.entries.find? fun e => e.1 == l with
  | none => rfl
  | some e =>
    have hl : e.1 = l := by simpa using List.find?_some hFind
    by_cases hk : l = k <;> simp [hl, hk]

theorem get?_insert (m : OrderedMap κ ν) (k : κ) (v : ν) (l : κ) :
    (m.insert k v).get? l = if l = k then some v else m.get? l := by
  by_cases hIn : m.contains k = true
  · rw [insert, if_pos hIn, get?_map_replace]
    by_cases hl : l = k
    · obtain ⟨old, hOld⟩ := mem_keys_iff_exists.mp ((contains_iff m k).mp hIn)
      simp [hl, hOld]
    · simp [hl]
  · have hNone : m.entries.find? (·.1 == k) = none := by
      simpa [get?] using (get?_eq_none_iff m k).mpr (mt (contains_iff m k).mpr hIn)
    rw [insert, if_neg hIn, get?, List.find?_append]
    by_cases hl : l = k
    · simp [hl, hNone]
    · simp [hl, Ne.symm hl, get?]

/-- Maps with the same keys in the same order are the same, if look-up finds the same. -/
theorem eq_of_get? {m m' : OrderedMap κ ν} (hKeys : m.keys = m'.keys) (h : m.keys.Nodup)
    (hGet : ∀ k ∈ m.keys, m.get? k = m'.get? k) : m = m' := by
  have hLength : m.entries.length = m'.entries.length := by
    simpa [keys] using congrArg List.length hKeys
  refine congrArg mk (List.ext_getElem hLength fun i hi hi' => ?_)
  have hKey : m.entries[i].1 = m'.entries[i].1 := by
    simpa [keys, hi, hi'] using congrArg (·[i]?) hKeys
  have hFirst : m.get? m.entries[i].1 = some m.entries[i].2 :=
    get?_eq_some_of_mem h (List.getElem_mem hi)
  have hSecond : m'.get? m'.entries[i].1 = some m'.entries[i].2 :=
    get?_eq_some_of_mem (hKeys ▸ h) (List.getElem_mem hi')
  have hSame := hGet _ (List.mem_map_of_mem (List.getElem_mem hi))
  rw [hFirst, hKey, hSecond] at hSame
  exact Prod.ext hKey (Option.some.inj hSame)

theorem insert_of_get? {m : OrderedMap κ ν} (h : m.keys.Nodup) {k : κ} {v : ν}
    (hGet : m.get? k = some v) : m.insert k v = m := by
  have hSame : m.entries.map (fun e => if e.1 == k then (k, v) else e) = m.entries := by
    conv_rhs => rw [← List.map_id m.entries]
    refine List.map_congr_left fun e he => ?_
    by_cases hKey : e.1 = k
    · have hValue : some e.2 = some v := (get?_eq_some_of_mem h he).symm.trans (hKey ▸ hGet)
      rw [if_pos (beq_iff_eq.mpr hKey), ← Option.some.inj hValue, ← hKey]
      rfl
    · exact if_neg (mt beq_iff_eq.mp hKey)
  rw [insert, if_pos ((contains_iff m k).mpr (mem_keys_of_get? hGet)), hSame]

theorem keys_insert (m : OrderedMap κ ν) (k : κ) (v : ν) :
    (m.insert k v).keys = if k ∈ m.keys then m.keys else m.keys ++ [k] := by
  unfold insert
  by_cases hIn : k ∈ m.keys
  · rw [if_pos ((contains_iff m k).mpr hIn), if_pos hIn, keys, List.map_map]
    apply List.map_congr_left
    intro e _
    by_cases he : e.1 = k <;> simp [he]
  · rw [if_neg (mt (contains_iff m k).mp hIn), if_neg hIn, keys, List.map_append]
    rfl

theorem mem_keys_insert (m : OrderedMap κ ν) (k : κ) (v : ν) (l : κ) :
    l ∈ (m.insert k v).keys ↔ l = k ∨ l ∈ m.keys := by
  rw [keys_insert]
  by_cases hIn : k ∈ m.keys
  · rw [if_pos hIn, iff_or_self]
    exact fun hSame => hSame ▸ hIn
  · rw [if_neg hIn, List.mem_append, List.mem_singleton, or_comm]

theorem nodup_keys_insert {m : OrderedMap κ ν} (h : m.keys.Nodup) (k : κ) (v : ν) :
    (m.insert k v).keys.Nodup := by
  rw [keys_insert]
  split
  · exact h
  · rename_i hNew
    rw [← List.concat_eq_append]
    exact h.concat hNew

theorem mem_keys_foldl_insert (entries : List (κ × ν)) (m : OrderedMap κ ν) (l : κ) :
    l ∈ (entries.foldl (fun m e => m.insert e.1 e.2) m).keys ↔
      l ∈ entries.map (·.1) ∨ l ∈ m.keys := by
  induction entries generalizing m with
  | nil => simp
  | cons e entries ih =>
    rw [List.foldl_cons, ih, mem_keys_insert, List.map_cons, List.mem_cons]
    tauto

theorem mem_keys_ofList (entries : List (κ × ν)) (l : κ) :
    l ∈ (ofList entries).keys ↔ l ∈ entries.map (·.1) := by
  rw [ofList, mem_keys_foldl_insert, or_iff_left]
  exact List.not_mem_nil

theorem nodup_keys_ofList (entries : List (κ × ν)) : (ofList entries).keys.Nodup := by
  induction entries using List.reverseRecOn with
  | nil => exact List.nodup_nil
  | append_singleton entries e ih =>
    rw [ofList, List.foldl_append]
    exact nodup_keys_insert ih e.1 e.2

theorem forall_mem_entries_ofList (entries : List (κ × ν)) (P : κ → Prop) :
    (∀ e ∈ (ofList entries).entries, P e.1) ↔ ∀ e ∈ entries, P e.1 := by
  have hKeys : (∀ k ∈ (ofList entries).keys, P k) ↔ ∀ k ∈ entries.map (·.1), P k := by
    simp only [mem_keys_ofList]
  rwa [keys, List.forall_mem_map, List.forall_mem_map] at hKeys

theorem mem_of_get?_foldl_insert {entries : List (κ × ν)} {m : OrderedMap κ ν} {k : κ} {v : ν}
    (h : (entries.foldl (fun m e => m.insert e.1 e.2) m).get? k = some v) :
    (k, v) ∈ entries ∨ m.get? k = some v := by
  induction entries generalizing m with
  | nil => exact .inr h
  | cons e entries ih =>
    rcases ih h with hLater | hEarlier
    · exact .inl (List.mem_cons_of_mem e hLater)
    · rw [get?_insert] at hEarlier
      split at hEarlier
      · rename_i hKey
        rw [hKey, ← Option.some.inj hEarlier]
        exact .inl List.mem_cons_self
      · exact .inr hEarlier

theorem get?_ofList (entries : List (κ × ν)) (k : κ) :
    (ofList entries).get? k = (entries.reverse.find? (·.1 == k)).map (·.2) := by
  induction entries using List.reverseRecOn with
  | nil => rfl
  | append_singleton entries e ih =>
    have hLast : ofList (entries ++ [e]) = (ofList entries).insert e.1 e.2 := by
      rw [ofList, List.foldl_append]
      rfl
    rw [hLast, get?_insert, ih, List.reverse_append, List.reverse_singleton, List.singleton_append,
      List.find?_cons]
    by_cases hKey : k = e.1
    · simp [hKey]
    · rw [if_neg hKey, beq_eq_false_iff_ne.mpr (Ne.symm hKey)]

theorem get?_ofList_eq_some {entries : List (κ × ν)} {k : κ} {v : ν}
    (hIn : k ∈ entries.map (·.1)) (hAll : ∀ e ∈ entries, e.1 = k → e.2 = v) :
    (ofList entries).get? k = some v := by
  obtain ⟨w, hw⟩ := mem_keys_iff_exists.mp ((mem_keys_ofList entries k).mpr hIn)
  rcases mem_of_get?_foldl_insert hw with hSet | hNone
  · exact hw.trans (congrArg some (hAll _ hSet rfl))
  · cases hNone

omit [DecidableEq κ] in
theorem keys_mapValues {μ : Type} (f : κ → ν → μ) (m : OrderedMap κ ν) :
    (m.mapValues f).keys = m.keys := by
  rw [keys, mapValues, List.map_map]
  rfl

theorem get?_mapValues {μ : Type} (f : κ → ν → μ) (m : OrderedMap κ ν) (k : κ) :
    (m.mapValues f).get? k = (m.get? k).map (f k) := by
  unfold mapValues get?
  rw [List.find?_map]
  change ((m.entries.find? fun e => e.1 == k).map _).map _ = _
  cases hFind : m.entries.find? fun e => e.1 == k with
  | none => rfl
  | some e =>
    have hKey : e.1 = k := by simpa using List.find?_some hFind
    rw [← hKey]
    rfl

theorem contains_mapValues {μ : Type} (f : κ → ν → μ) (m : OrderedMap κ ν) (k : κ) :
    (m.mapValues f).contains k = m.contains k := by
  rw [Bool.eq_iff_iff, contains_iff, contains_iff, keys_mapValues]

theorem insert_mapValues {μ : Type} (f : κ → ν → μ) (m : OrderedMap κ ν) (k : κ) (v : ν) :
    (m.mapValues f).insert k (f k v) = (m.insert k v).mapValues f := by
  unfold insert
  rw [contains_mapValues]
  split
  · simp only [mapValues, List.map_map, mk.injEq]
    refine List.map_congr_left fun e _ => ?_
    by_cases he : e.1 = k <;> simp [he]
  · simp [mapValues]

theorem get?_erase (m : OrderedMap κ ν) (k l : κ) :
    (m.erase k).get? l = if l = k then none else m.get? l := by
  unfold erase get?
  rw [List.find?_filter]
  by_cases hl : l = k
  · subst hl
    simp
  · rw [if_neg hl]
    congr 2
    funext e
    by_cases he : e.1 = l <;> simp [he, hl]

theorem nodup_keys_erase {m : OrderedMap κ ν} (h : m.keys.Nodup) (k : κ) :
    (m.erase k).keys.Nodup :=
  h.sublist (List.filter_sublist.map _)

theorem erase_of_not_mem {m : OrderedMap κ ν} {k : κ} (h : k ∉ m.keys) : m.erase k = m := by
  unfold erase
  congr 1
  refine List.filter_eq_self.mpr fun e he => bne_iff_ne.mpr fun hSame => h ?_
  exact hSame ▸ List.mem_map_of_mem he

theorem get?_foldl_erase (ks : List κ) (m : OrderedMap κ ν) (l : κ) :
    (ks.foldl (fun m k => m.erase k) m).get? l = if l ∈ ks then none else m.get? l := by
  induction ks generalizing m with
  | nil => simp
  | cons k ks ih =>
    rw [List.foldl_cons, ih, get?_erase]
    by_cases hl : l = k <;> by_cases hks : l ∈ ks <;> simp [hl, hks]

theorem get?_foldl_insert_same (ks : List κ) (v : ν) (m : OrderedMap κ ν) (l : κ) :
    ((ks.map fun k => (k, v)).foldl (fun m e => m.insert e.1 e.2) m).get? l =
      if l ∈ ks then some v else m.get? l := by
  induction ks generalizing m with
  | nil => simp
  | cons k ks ih =>
    rw [List.map_cons, List.foldl_cons, ih, get?_insert]
    by_cases hl : l = k <;> by_cases hks : l ∈ ks <;> simp [hl, hks]

theorem get?_foldl_insert (entries : List (κ × ν)) (h : (entries.map (·.1)).Nodup)
    (m : OrderedMap κ ν) (l : κ) :
    (entries.foldl (fun m e => m.insert e.1 e.2) m).get? l =
      ((⟨entries⟩ : OrderedMap κ ν).get? l <|> m.get? l) := by
  induction entries generalizing m with
  | nil => rfl
  | cons e entries ih =>
    obtain ⟨hNew, hRest⟩ := List.nodup_cons.mp h
    rw [List.foldl_cons, ih hRest, get?_insert]
    by_cases hl : e.1 = l
    · subst hl
      have hNone : (⟨entries⟩ : OrderedMap κ ν).get? e.1 = none := (get?_eq_none_iff _ _).mpr hNew
      rw [hNone]
      simp [get?]
    · simp [get?, hl, Ne.symm hl]

theorem insert_of_not_mem {m : OrderedMap κ ν} {k : κ} (h : k ∉ m.keys) (v : ν) :
    (m.insert k v).entries = m.entries ++ [(k, v)] := by
  rw [insert, if_neg (by rwa [contains_iff])]

theorem entries_foldl_insert (entries : List (κ × ν)) (m : OrderedMap κ ν)
    (h : (m.keys ++ entries.map (·.1)).Nodup) :
    (entries.foldl (fun m e => m.insert e.1 e.2) m).entries = m.entries ++ entries := by
  induction entries generalizing m with
  | nil => simp
  | cons e entries ih =>
    have hNew : e.1 ∉ m.keys := fun hIn =>
      (List.nodup_append.mp h).2.2 e.1 hIn e.1 (by simp) rfl
    have hKeys : (m.insert e.1 e.2).keys = m.keys ++ [e.1] := by
      rw [keys, insert_of_not_mem hNew, List.map_append]
      rfl
    rw [List.foldl_cons, ih, insert_of_not_mem hNew, List.append_assoc]
    · rfl
    · rw [hKeys, List.append_assoc]
      exact h

theorem entries_ofList {entries : List (κ × ν)} (h : (entries.map (·.1)).Nodup) :
    (ofList entries).entries = entries := by
  rw [ofList, entries_foldl_insert entries empty h]
  rfl

theorem keys_ofList {entries : List (κ × ν)} (h : (entries.map (·.1)).Nodup) :
    (ofList entries).keys = entries.map (·.1) := by rw [keys, entries_ofList h]

theorem get?_filter (m : OrderedMap κ ν) (p : κ → Bool) (l : κ) :
    (⟨m.entries.filter fun e => p e.1⟩ : OrderedMap κ ν).get? l =
      if p l = true then m.get? l else none := by
  unfold get?
  rw [List.find?_filter]
  by_cases hp : p l = true
  · rw [if_pos hp]
    congr 2
    funext e
    by_cases he : e.1 = l <;> simp [he, hp]
  · rw [if_neg hp, Option.map_eq_none_iff, List.find?_eq_none]
    intro e _ he
    obtain ⟨hPass, hKey⟩ := of_decide_eq_true he
    exact hp (beq_iff_eq.mp hKey ▸ hPass)

end OrderedMap

end TypeDiagram
