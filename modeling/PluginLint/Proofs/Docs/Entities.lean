import PluginLint.Docs.Markup

/-!
# Written characters

A text is written into a comment with each of the five named characters spelled as its entity. What
is written so has no angle bracket and no quote of its own. Decoding gives the text back, and goes
on behind it as if it had not been there: no entity begins in one character and ends in another.
-/
namespace PluginLint.Docs

open Text (replaceAll)

/-- A character as it is written into a comment. -/
def escapeChar : Char → List Char
  | '<' => "&lt;".toList
  | '>' => "&gt;".toList
  | '"' => "&quot;".toList
  | '\'' => "&apos;".toList
  | '&' => "&amp;".toList
  | c => [c]

/-- A text as it is written into a comment. -/
def escape (s : List Char) : List Char := s.flatMap escapeChar

@[simp] theorem escape_nil : escape [] = [] := rfl

@[simp] theorem escape_cons (c : Char) (s : List Char) :
    escape (c :: s) = escapeChar c ++ escape s := rfl

/-- The characters that are spelled as entities. -/
def named : List Char := ['<', '>', '"', '\'', '&']

theorem escapeChar_of_not_mem {c : Char} (h : c ∉ named) : escapeChar c = [c] := by
  simp only [named, List.mem_cons, List.not_mem_nil, or_false, not_or] at h
  unfold escapeChar
  split <;> simp_all

theorem escapeChar_lt : escapeChar '<' = ['&', 'l', 't', ';'] := by decide +kernel

theorem escapeChar_gt : escapeChar '>' = ['&', 'g', 't', ';'] := by decide +kernel

theorem escapeChar_quot : escapeChar '"' = ['&', 'q', 'u', 'o', 't', ';'] := by decide +kernel

theorem escapeChar_apos : escapeChar '\'' = ['&', 'a', 'p', 'o', 's', ';'] := by decide +kernel

theorem escapeChar_amp : escapeChar '&' = ['&', 'a', 'm', 'p', ';'] := by decide +kernel

theorem not_mem_escapeChar {c d : Char} (hc : c ∈ named) (hd : d ∈ named) (hne : d ≠ '&') :
    d ∉ escapeChar c := by
  -- The names of the entities are made of letters.
  have hletters : ∀ w : List Char, (∀ a ∈ w, a.isAlpha = true ∨ a = '&' ∨ a = ';') → d ∉ w := by
    intro w hw hmem
    simp only [named, List.mem_cons, List.not_mem_nil, or_false] at hd
    rcases hd with rfl | rfl | rfl | rfl | rfl
    all_goals first
      | exact hne rfl
      | exact absurd (hw _ hmem) (by decide)
  simp only [named, List.mem_cons, List.not_mem_nil, or_false] at hc
  rcases hc with rfl | rfl | rfl | rfl | rfl
  · exact hletters _ (by simp [escapeChar_lt])
  · exact hletters _ (by simp [escapeChar_gt])
  · exact hletters _ (by simp [escapeChar_quot])
  · exact hletters _ (by simp [escapeChar_apos])
  · exact hletters _ (by simp [escapeChar_amp])

/-- Of the five characters only the ampersand is left. -/
theorem not_mem_escape {d : Char} (hd : d ∈ named) (hne : d ≠ '&') (s : List Char) :
    d ∉ escape s := by
  intro h
  obtain ⟨c, -, hc⟩ := List.mem_flatMap.1 h
  by_cases hn : c ∈ named
  · exact not_mem_escapeChar hn hd hne hc
  · rw [escapeChar_of_not_mem hn, List.mem_singleton] at hc
    exact hn (hc ▸ hd)

/-! ### Decoding -/

open Text (replaceAll)

/-- A pass stops only at the first character of what it replaces. -/
theorem replaceAll_append_of_not_mem {a : Char} {old new w : List Char} (hw : a ∉ w)
    (s : List Char) : replaceAll (a :: old) new (w ++ s) = w ++ replaceAll (a :: old) new s := by
  induction w with
  | nil => rfl
  | cons c w ih =>
    rw [List.mem_cons, not_or] at hw
    rw [List.cons_append, replaceAll, if_neg (by simp [hw.1]), ih hw.2, List.cons_append]

/-- A pass replaces what it looks for. -/
theorem replaceAll_append_self {a : Char} {old new : List Char} (s : List Char) :
    replaceAll (a :: old) new (a :: old ++ s) = new ++ replaceAll (a :: old) new s := by
  have hprefix : (a :: old).isPrefixOf (a :: old ++ s) = true := by simp
  rw [List.cons_append] at hprefix ⊢
  rw [replaceAll, hprefix]
  simp

/-- A pass goes over another entity, which begins with the same character. -/
theorem replaceAll_append_of_ne {a : Char} {old new w : List Char} (hw : a ∉ w)
    (hne : ∀ s, old.isPrefixOf (w ++ s) = false) (s : List Char) :
    replaceAll (a :: old) new (a :: w ++ s) = a :: w ++ replaceAll (a :: old) new s := by
  rw [List.cons_append, replaceAll, if_neg (by simp [hne]), replaceAll_append_of_not_mem hw,
    List.cons_append]

theorem decodeEntities_eq (s : List Char) :
    decodeEntities s = replaceAll ['&', 'a', 'm', 'p', ';'] ['&']
      (replaceAll ['&', 'a', 'p', 'o', 's', ';'] ['\'']
        (replaceAll ['&', 'q', 'u', 'o', 't', ';'] ['"']
          (replaceAll ['&', 'g', 't', ';'] ['>']
            (replaceAll ['&', 'l', 't', ';'] ['<'] s)))) := by
  simp [decodeEntities]

@[simp] theorem decodeEntities_nil : decodeEntities [] = [] := by simp [decodeEntities, replaceAll]

theorem replaceAll_cons_of_ne {a c : Char} (hc : c ≠ a) (old new s : List Char) :
    replaceAll (a :: old) new (c :: s) = c :: replaceAll (a :: old) new s :=
  replaceAll_append_of_not_mem (w := [c]) (by simpa using hc.symm) s

/-- No pass stops at a character that begins no entity. -/
theorem decodeEntities_cons_of_ne {c : Char} (hc : c ≠ '&') (s : List Char) :
    decodeEntities (c :: s) = c :: decodeEntities s := by
  simp only [decodeEntities_eq, replaceAll_cons_of_ne hc]

/-- One pass replaces an entity, and the others go over it and over the character that it became. -/
theorem decodeEntities_entity {c : Char} (hc : c ∈ named) (s : List Char) :
    decodeEntities (escapeChar c ++ s) = c :: decodeEntities s := by
  simp only [named, List.mem_cons, List.not_mem_nil, or_false] at hc
  rw [decodeEntities_eq, decodeEntities_eq]
  rcases hc with rfl | rfl | rfl | rfl | rfl
  · rw [escapeChar_lt, replaceAll_append_self]
    simp [replaceAll_cons_of_ne]
  · rw [escapeChar_gt, replaceAll_append_of_ne (by decide) fun _ => rfl, replaceAll_append_self]
    simp [replaceAll_cons_of_ne]
  · rw [escapeChar_quot, replaceAll_append_of_ne (by decide) fun _ => rfl,
      replaceAll_append_of_ne (by decide) fun _ => rfl, replaceAll_append_self]
    simp [replaceAll_cons_of_ne]
  · rw [escapeChar_apos, replaceAll_append_of_ne (by decide) fun _ => rfl,
      replaceAll_append_of_ne (by decide) fun _ => rfl,
      replaceAll_append_of_ne (by decide) fun _ => rfl, replaceAll_append_self]
    simp [replaceAll_cons_of_ne]
  · rw [escapeChar_amp, replaceAll_append_of_ne (by decide) fun _ => rfl,
      replaceAll_append_of_ne (by decide) fun _ => rfl,
      replaceAll_append_of_ne (by decide) fun _ => rfl,
      replaceAll_append_of_ne (by decide) fun _ => rfl, replaceAll_append_self]
    rfl

theorem decodeEntities_escapeChar (c : Char) (s : List Char) :
    decodeEntities (escapeChar c ++ s) = c :: decodeEntities s := by
  by_cases hc : c ∈ named
  · exact decodeEntities_entity hc s
  · rw [escapeChar_of_not_mem hc]
    refine decodeEntities_cons_of_ne ?_ s
    rintro rfl
    exact hc (by decide)

/-- What is written is read back, and decoding goes on behind it. -/
theorem decodeEntities_escape (s t : List Char) :
    decodeEntities (escape s ++ t) = s ++ decodeEntities t := by
  induction s with
  | nil => rfl
  | cons c s ih =>
    rw [escape_cons, List.append_assoc, decodeEntities_escapeChar, ih, List.cons_append]

end PluginLint.Docs
