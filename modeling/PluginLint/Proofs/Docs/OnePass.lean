import PluginLint.Proofs.Docs.Entities

/-!
# Entities are replaced in one pass

The five passes over a whole text do what one pass from left to right does. In the name of an entity
stands none of the five characters, so a pass neither makes nor breaks an entity of a later one,
unless it puts an ampersand in. That is why ampersands are put in last.
-/
namespace PluginLint.Docs

open Text (replaceAll)

/-- One pass over the whole text for each of some characters. -/
def decodeInTurn (cs s : List Char) : List Char :=
  cs.foldl (fun s c => replaceAll (escapeChar c) [c] s) s

/-- The first of some characters whose entity a text begins with. -/
def entityAt? (cs s : List Char) : Option Char := cs.find? fun c => (escapeChar c).isPrefixOf s

/-- One pass from left to right for the entities of some characters. It goes on behind each entity
and never looks at what was put in its place. -/
def decodeOnce (cs : List Char) : List Char → List Char
  | [] => []
  | a :: s =>
    match entityAt? cs (a :: s) with
    | some c => c :: decodeOnce cs (s.drop ((escapeChar c).length - 1))
    | none => a :: decodeOnce cs s
termination_by s => s.length
decreasing_by
  · simp only [List.length_drop, List.length_cons]
    omega
  · simp

variable {c : Char} {cs s : List Char}

/-! ### Where entities begin -/

/-- An entity is an ampersand and a name in which none of the five characters stands. -/
theorem exists_escapeChar (hc : c ∈ named) :
    ∃ w, escapeChar c = '&' :: w ∧ ∀ d ∈ named, d ∉ w := by
  simp only [named, List.mem_cons, List.not_mem_nil, or_false] at hc
  rcases hc with rfl | rfl | rfl | rfl | rfl
  · exact ⟨_, escapeChar_lt, by simp [named]⟩
  · exact ⟨_, escapeChar_gt, by simp [named]⟩
  · exact ⟨_, escapeChar_quot, by simp [named]⟩
  · exact ⟨_, escapeChar_apos, by simp [named]⟩
  · exact ⟨_, escapeChar_amp, by simp [named]⟩

theorem amp_mem_named : '&' ∈ named := by decide

theorem not_prefix_of_ne {a d : Char} {w : List Char} (h : a ≠ d) : ¬ d :: w <+: a :: s := by
  rw [List.cons_prefix_cons]
  exact fun hp => h hp.1.symm

/-- A pass neither makes nor breaks a word in which neither the character that it looks for nor the
one that it puts in stands. -/
theorem prefix_replaceAll_iff {a d : Char} {old w : List Char} (ha : a ∉ w) (hd : d ∉ w) :
    w <+: replaceAll (a :: old) [d] s ↔ w <+: s := by
  induction w generalizing s with
  | nil => simp
  | cons x w ih =>
    rw [List.mem_cons, not_or] at ha hd
    cases s with
    | nil => simp [replaceAll]
    | cons b s =>
      rw [replaceAll]
      split
      · rename_i h
        have hb : a = b := by simp_all
        have hleft : ¬ x :: w <+: d :: replaceAll (a :: old) [d] (s.drop ((a :: old).length - 1)) :=
          not_prefix_of_ne hd.1
        have hright : ¬ x :: w <+: b :: s := not_prefix_of_ne (hb ▸ ha.1)
        exact iff_of_false hleft hright
      · rw [List.cons_prefix_cons, List.cons_prefix_cons, ih ha.2 hd.2]

/-- A word is found in front of a character that does not stand in it, or not at all. -/
theorem prefix_append_cons_iff {a : Char} {w u t : List Char} (ha : a ∉ w) :
    w <+: u ++ a :: t ↔ w <+: u := by
  induction w generalizing u with
  | nil => simp
  | cons x w ih =>
    rw [List.mem_cons, not_or] at ha
    cases u with
    | nil => simpa using not_prefix_of_ne ha.1
    | cons b u => rw [List.cons_append, List.cons_prefix_cons, List.cons_prefix_cons, ih ha.2]

theorem entityAt?_eq_some (h : entityAt? cs s = some c) : c ∈ cs ∧ escapeChar c <+: s := by
  obtain ⟨hbegins, before, after, rfl, -⟩ := List.find?_eq_some_iff_append.1 h
  exact ⟨by simp, List.isPrefixOf_iff_prefix.1 hbegins⟩

theorem entityAt?_eq_none_iff : entityAt? cs s = none ↔ ∀ c ∈ cs, ¬ escapeChar c <+: s := by
  simp [entityAt?, List.find?_eq_none]

theorem entityAt?_cons_pos (h : escapeChar c <+: s) : entityAt? (c :: cs) s = some c :=
  List.find?_cons_of_pos (List.isPrefixOf_iff_prefix.2 h)

theorem entityAt?_cons_neg (h : ¬ escapeChar c <+: s) :
    entityAt? (c :: cs) s = entityAt? cs s :=
  List.find?_cons_of_neg fun hp => h (List.isPrefixOf_iff_prefix.1 hp)

theorem entityAt?_congr {t : List Char}
    (h : ∀ c ∈ cs, (escapeChar c <+: s ↔ escapeChar c <+: t)) : entityAt? cs s = entityAt? cs t := by
  induction cs with
  | nil => rfl
  | cons c cs ih =>
    rw [List.forall_mem_cons] at h
    by_cases hc : escapeChar c <+: s
    · rw [entityAt?_cons_pos hc, entityAt?_cons_pos (h.1.1 hc)]
    · rw [entityAt?_cons_neg hc, entityAt?_cons_neg (mt h.1.2 hc), ih h.2]

theorem entityAt?_of_ne (hcs : cs ⊆ named) {a : Char} (ha : a ≠ '&') :
    entityAt? cs (a :: s) = none := by
  rw [entityAt?_eq_none_iff]
  intro c hc
  obtain ⟨w, hw, -⟩ := exists_escapeChar (hcs hc)
  rw [hw]
  exact not_prefix_of_ne ha

/-- Where an entity begins there stand an ampersand and its name. -/
theorem exists_of_entityAt? (hcs : cs ⊆ named) {a d : Char} (h : entityAt? cs (a :: s) = some d) :
    ∃ w rest, escapeChar d = '&' :: w ∧ (∀ e ∈ named, e ∉ w) ∧ a = '&' ∧ s = w ++ rest := by
  obtain ⟨hmem, hbegins⟩ := entityAt?_eq_some h
  obtain ⟨w, hw, hclean⟩ := exists_escapeChar (hcs hmem)
  rw [hw, List.cons_prefix_cons] at hbegins
  obtain ⟨rfl, rest, rfl⟩ := hbegins
  exact ⟨w, rest, hw, hclean, rfl, rfl⟩

/-- Another pass does not change which entity begins at an ampersand. -/
theorem entityAt?_replaceAll (hcs : cs ⊆ named) (hc : c ∈ named) :
    entityAt? cs ('&' :: replaceAll (escapeChar c) [c] s) = entityAt? cs ('&' :: s) := by
  obtain ⟨v, hv, -⟩ := exists_escapeChar hc
  refine entityAt?_congr fun d hd => ?_
  obtain ⟨w, hw, hclean⟩ := exists_escapeChar (hcs hd)
  rw [hw, hv, List.cons_prefix_cons, List.cons_prefix_cons,
    prefix_replaceAll_iff (hclean _ amp_mem_named) (hclean _ hc)]

/-! ### One pass in place of several -/

@[simp] theorem decodeOnce_nil (cs : List Char) : decodeOnce cs [] = [] := by rw [decodeOnce]

theorem decodeOnce_of_none {a : Char} (h : entityAt? cs (a :: s) = none) :
    decodeOnce cs (a :: s) = a :: decodeOnce cs s := by
  rw [decodeOnce, h]

theorem decodeOnce_of_ne (hcs : cs ⊆ named) {a : Char} (ha : a ≠ '&') :
    decodeOnce cs (a :: s) = a :: decodeOnce cs s :=
  decodeOnce_of_none (entityAt?_of_ne hcs ha)

theorem drop_name {w : List Char} (hw : escapeChar c = '&' :: w) (rest : List Char) :
    (w ++ rest).drop ((escapeChar c).length - 1) = rest := by
  rw [hw, List.length_cons, Nat.add_sub_cancel, List.drop_left]

/-- Behind an entity the pass goes on. -/
theorem decodeOnce_entity {w rest : List Char} (hw : escapeChar c = '&' :: w)
    (h : entityAt? cs ('&' :: (w ++ rest)) = some c) :
    decodeOnce cs ('&' :: (w ++ rest)) = c :: decodeOnce cs rest := by
  rw [decodeOnce, h]
  exact congrArg (c :: decodeOnce cs ·) (drop_name hw rest)

/-- A pass that looks for no entity changes nothing. -/
theorem decodeOnce_none (s : List Char) : decodeOnce [] s = s := by
  induction s with
  | nil => simp
  | cons a s ih => rw [decodeOnce_of_none rfl, ih]

/-- A pass for one character can be made together with the later ones, if it puts in no ampersand or
if there are no later ones. -/
theorem decodeOnce_replaceAll (hc : c ∈ named) (hcs : cs ⊆ named) (hlast : c = '&' → cs = [])
    (s : List Char) :
    decodeOnce cs (replaceAll (escapeChar c) [c] s) = decodeOnce (c :: cs) s := by
  obtain ⟨v, hv, hvclean⟩ := exists_escapeChar hc
  have hput : ∀ t, decodeOnce cs (c :: t) = c :: decodeOnce cs t := by
    intro t
    by_cases hamp : c = '&'
    · rw [hlast hamp, decodeOnce_none, decodeOnce_none]
    · exact decodeOnce_of_ne hcs hamp
  fun_induction decodeOnce (c :: cs) s with
  | case1 => simp [replaceAll]
  | case2 a s d hd ih =>
    obtain ⟨w, rest, hw, hclean, rfl, rfl⟩ := exists_of_entityAt? (List.cons_subset.2 ⟨hc, hcs⟩) hd
    rw [drop_name hw] at ih ⊢
    by_cases hdc : d = c
    · -- It is the entity of this pass.
      subst hdc
      rw [hw, ← List.cons_append, replaceAll_append_self, List.singleton_append, hput, ← hw, ih]
    · -- It is one of a later pass, and this one leaves it as it is.
      have hnot : ¬ escapeChar c <+: '&' :: (w ++ rest) := by
        intro h
        rw [entityAt?_cons_pos h, Option.some.injEq] at hd
        exact hdc hd.symm
      have hkept : replaceAll (escapeChar c) [c] ('&' :: (w ++ rest)) =
          '&' :: (w ++ replaceAll (escapeChar c) [c] rest) := by
        rw [replaceAll, if_neg (by simpa [List.isPrefixOf_iff_prefix] using fun _ => hnot), hv,
          replaceAll_append_of_not_mem (hclean _ amp_mem_named)]
      have hfound : entityAt? cs ('&' :: (w ++ replaceAll (escapeChar c) [c] rest)) = some d := by
        rw [entityAt?_cons_neg hnot] at hd
        have hsame := entityAt?_replaceAll (s := w ++ rest) hcs hc
        rw [hv, replaceAll_append_of_not_mem (hclean _ amp_mem_named), ← hv] at hsame
        exact hsame.trans hd
      rw [hkept, decodeOnce_entity hw hfound, ih]
  | case3 a s hnone ih =>
    have hnot : ¬ escapeChar c <+: a :: s := entityAt?_eq_none_iff.1 hnone c (.head _)
    have hkept : replaceAll (escapeChar c) [c] (a :: s) = a :: replaceAll (escapeChar c) [c] s := by
      rw [replaceAll, if_neg (by simpa [List.isPrefixOf_iff_prefix] using fun _ => hnot)]
    have hnothing : entityAt? cs (a :: replaceAll (escapeChar c) [c] s) = none := by
      by_cases ha : a = '&'
      · subst ha
        rw [entityAt?_replaceAll hcs hc, entityAt?_eq_none_iff]
        exact fun d hd => entityAt?_eq_none_iff.1 hnone d (.tail _ hd)
      · exact entityAt?_of_ne hcs ha
    rw [hkept, decodeOnce_of_none hnothing, ih]

/-- Passes in an order in which an ampersand is put in last come to one pass for all of them. -/
theorem decodeInTurn_eq (hcs : cs ⊆ named) (horder : cs.Pairwise fun c _ => c ≠ '&')
    (s : List Char) : decodeInTurn cs s = decodeOnce cs s := by
  induction cs generalizing s with
  | nil => rw [decodeOnce_none, decodeInTurn, List.foldl_nil]
  | cons c cs ih =>
    rw [List.cons_subset] at hcs
    rw [List.pairwise_cons] at horder
    have hlast : c = '&' → cs = [] := fun h =>
      List.eq_nil_iff_forall_not_mem.2 fun d hd => horder.1 d hd h
    rw [← decodeOnce_replaceAll hcs.1 hcs.2 hlast, ← ih hcs.2 horder.2]
    rfl

/-- With ampersands put in first, a text would be decoded twice. -/
example : decodeInTurn ['&', '<'] "&amp;lt;".toList = ['<'] ∧
    decodeOnce ['&', '<'] "&amp;lt;".toList = "&lt;".toList := by decide +kernel

theorem decodeEntities_eq_inTurn (s : List Char) : decodeEntities s = decodeInTurn named s := by
  simp only [decodeEntities_eq, decodeInTurn, named, List.foldl_cons, List.foldl_nil,
    escapeChar_lt, escapeChar_gt, escapeChar_quot, escapeChar_apos, escapeChar_amp]

theorem decodeEntities_eq_once (s : List Char) : decodeEntities s = decodeOnce named s :=
  (decodeEntities_eq_inTurn s).trans (decodeInTurn_eq (List.Subset.refl _) (by decide) s)

/-! ### Entity by entity -/

theorem entityAt?_append (hcs : cs ⊆ named) (a : Char) (s t : List Char) :
    entityAt? cs (a :: (s ++ '&' :: t)) = entityAt? cs (a :: s) := by
  refine entityAt?_congr fun c hc => ?_
  obtain ⟨w, hw, hclean⟩ := exists_escapeChar (hcs hc)
  rw [hw, List.cons_prefix_cons, List.cons_prefix_cons,
    prefix_append_cons_iff (hclean _ amp_mem_named)]

/-- What stands in front of an ampersand is read as if nothing came behind. -/
theorem decodeOnce_append (hcs : cs ⊆ named) (s t : List Char) :
    decodeOnce cs (s ++ '&' :: t) = decodeOnce cs s ++ decodeOnce cs ('&' :: t) := by
  fun_induction decodeOnce cs s with
  | case1 => rfl
  | case2 a s d hd ih =>
    obtain ⟨w, rest, hw, -, rfl, rfl⟩ := exists_of_entityAt? hcs hd
    rw [drop_name hw] at ih
    have hfound : entityAt? cs ('&' :: (w ++ (rest ++ '&' :: t))) = some d := by
      rw [← List.append_assoc, entityAt?_append hcs, hd]
    rw [drop_name hw, List.cons_append, List.append_assoc, decodeOnce_entity hw hfound, ih,
      List.cons_append]
  | case3 a s hnone ih =>
    have hnothing : entityAt? cs (a :: (s ++ '&' :: t)) = none := by
      rw [entityAt?_append hcs, hnone]
    rw [List.cons_append, decodeOnce_of_none hnothing, ih, List.cons_append]

/-- A text without entities stays as it is. -/
theorem decodeOnce_of_not_infix (h : ∀ c ∈ cs, ¬ escapeChar c <:+: s) : decodeOnce cs s = s := by
  induction s with
  | nil => simp
  | cons a s ih =>
    have hnone : entityAt? cs (a :: s) = none :=
      entityAt?_eq_none_iff.2 fun c hc hp => h c hc hp.isInfix
    rw [decodeOnce_of_none hnone, ih fun c hc hi => h c hc (hi.trans (List.suffix_cons a s).isInfix)]

/-- Every entity is replaced, whatever stands around it. -/
theorem decodeEntities_around (hc : c ∈ named) (s t : List Char) :
    decodeEntities (s ++ escapeChar c ++ t) = decodeEntities s ++ c :: decodeEntities t := by
  obtain ⟨w, hw, -⟩ := exists_escapeChar hc
  rw [← decodeEntities_entity hc t, decodeEntities_eq_once, decodeEntities_eq_once s,
    decodeEntities_eq_once (escapeChar c ++ t), hw, List.append_assoc]
  exact decodeOnce_append (List.Subset.refl _) s (w ++ t)

/-- Entities are decoded in one pass from left to right. Each is replaced by its character, whatever
stands in front of it and behind it, so that a character that was put in is never part of an entity;
a text without entities stays as it is, and a text that is written with entities is read back. -/
theorem decodeEntities_onePass (s : List Char) :
    decodeEntities s = decodeOnce named s ∧
      (∀ u c t, c ∈ named → s = u ++ escapeChar c ++ t →
        decodeEntities s = decodeEntities u ++ c :: decodeEntities t) ∧
      ((∀ c ∈ named, ¬ escapeChar c <:+: s) → decodeEntities s = s) ∧
      decodeEntities (escape s) = s := by
  refine ⟨decodeEntities_eq_once s, ?_, fun h => ?_, ?_⟩
  · rintro u c t hc rfl
    exact decodeEntities_around hc u t
  · rw [decodeEntities_eq_once, decodeOnce_of_not_infix h]
  · simpa using decodeEntities_escape s []

/-- An ampersand that is written as an entity, in front of what would make another one of it. -/
theorem decodeEntities_onePass_amp :
    ('&' ∈ named ∧ "&amp;lt;".toList = [] ++ escapeChar '&' ++ "lt;".toList ∧
      decodeEntities "&amp;lt;".toList = decodeEntities [] ++ '&' :: decodeEntities "lt;".toList) ∧
    (∀ c ∈ named, ¬ escapeChar c <:+: "lt;".toList) ∧
      decodeEntities "lt;".toList = "lt;".toList := by
  have hnone : ∀ c ∈ named, ¬ escapeChar c <:+: "lt;".toList := by
    intro c hc hfound
    obtain ⟨w, hw, -⟩ := exists_escapeChar hc
    have hamp : '&' ∈ escapeChar c := hw ▸ List.mem_cons_self
    exact absurd (hfound.subset hamp) (by decide +kernel)
  have hwritten : "&amp;lt;".toList = [] ++ escapeChar '&' ++ "lt;".toList := by decide +kernel
  exact ⟨⟨by decide, hwritten,
    (decodeEntities_onePass "&amp;lt;".toList).2.1 [] '&' "lt;".toList (by decide) hwritten⟩,
    hnone, (decodeEntities_onePass "lt;".toList).2.2.1 hnone⟩

end PluginLint.Docs
