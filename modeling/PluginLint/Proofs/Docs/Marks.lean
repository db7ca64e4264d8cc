import PluginLint.Docs.Comment
import PluginLint.Proofs.Docs.Entities
import Mathlib.Tactic.SplitIfs

/-!
# Scanning a comment mark by mark

A scan finds one mark after the other, and each takes at least one character, so the bound on their
number is never reached. `Forest.read` is what the marks of a text make of a forest; it is computed
mark by mark, and text that is no mark is read up to wherever the next one may begin.
-/
namespace PluginLint

namespace Text

theorem length_breakAt_le (marker s : List Char) : (breakAt marker s).2.length ≤ s.length := by
  induction s with
  | nil => simp [breakAt]
  | cons c s ih =>
    rw [breakAt]
    split_ifs
    · simp
    · simpa using Nat.le_succ_of_le ih

theorem length_dropBlank_le (s : List Char) : (dropBlank s).length ≤ s.length :=
  (List.dropWhile_suffix _).length_le

theorem length_of_dropStart? {start s rest : List Char} (h : dropStart? start s = some rest) :
    rest.length + start.length = s.length := by
  unfold dropStart? at h
  split_ifs at h with hstart
  cases h
  have hle := (List.isPrefixOf_iff_prefix.1 hstart).length_le
  rw [List.length_drop]
  omega

end Text

namespace Docs

open Text

/-! ### Each mark takes a character -/

theorem length_attributeValue_le (s : List Char) : (attributeValue s).2.length ≤ s.length := by
  unfold attributeValue
  split
  · exact Nat.le_succ_of_le (length_breakAt_le _ _)
  · exact Nat.le_succ_of_le (length_breakAt_le _ _)
  · exact (List.dropWhile_suffix _).length_le

theorem length_attributePair_le (s : List Char) : (attributePair s).2.length ≤ s.length := by
  have hkey : (dropBlank (s.dropWhile isNameChar)).length ≤ s.length :=
    Nat.le_trans (length_dropBlank_le _) (List.dropWhile_suffix _).length_le
  unfold attributePair
  split
  · rename_i rest hrest
    rw [hrest] at hkey
    have hvalue := length_attributeValue_le (dropBlank rest)
    have hblank := length_dropBlank_le rest
    simp only [List.length_cons] at hkey
    dsimp only
    omega
  · exact hkey

theorem length_attributes_le (fuel : Nat) (s : List Char) :
    (attributes fuel s).2.2.length ≤ s.length := by
  induction fuel generalizing s with
  | zero => simp [attributes]
  | succ fuel ih =>
    have hblank := length_dropBlank_le s
    rw [attributes]
    split
    · simp
    · rename_i rest hrest
      rw [hrest] at hblank
      exact Nat.le_trans (by simp only [List.length_cons]; omega) hblank
    · rename_i rest _ hrest
      rw [hrest] at hblank
      exact Nat.le_trans (by simp) hblank
    · rename_i c rest _ _ hrest
      rw [hrest] at hblank
      split_ifs
      · exact Nat.le_trans (ih _) (Nat.le_trans (length_attributePair_le _) hblank)
      · exact Nat.le_trans (ih _) (Nat.le_trans (by simp) hblank)

theorem length_plainText_lt (c : Char) (s : List Char) :
    (nextMark.plainText (c :: s)).2.length < (c :: s).length :=
  Nat.lt_succ_of_le (List.dropWhile_suffix _).length_le

theorem length_nextMark_lt {s : List Char} (hs : s ≠ []) : (nextMark s).2.length < s.length := by
  have hplain : (nextMark.plainText s).2.length < s.length := by
    obtain ⟨c, s, rfl⟩ := List.exists_cons_of_ne_nil hs
    exact length_plainText_lt c s
  have hname : ∀ t : List Char, (t.dropWhile isNameChar).length ≤ t.length :=
    fun t => (List.dropWhile_suffix _).length_le
  unfold nextMark
  split
  · rename_i rest hrest
    have hlen := length_of_dropStart? hrest
    have hbreak := length_breakAt_le "-->".toList rest
    have hmark : "<!--".toList.length = 4 := rfl
    dsimp only
    omega
  split
  · rename_i rest hrest
    have hlen := length_of_dropStart? hrest
    have hbreak := length_breakAt_le "]]>".toList rest
    have hmark : "<![CDATA[".toList.length = 9 := rfl
    dsimp only
    omega
  split
  · rename_i c rest _ _
    split_ifs
    · have hbreak := length_breakAt_le ['>'] ((c :: rest).dropWhile isNameChar)
      have hrest := hname (c :: rest)
      exact Nat.lt_succ_of_le (Nat.le_succ_of_le (Nat.le_trans hbreak hrest))
    · exact hplain
  · rename_i c rest _ _ _
    split_ifs
    · have htag := length_attributes_le (((c :: rest).dropWhile isNameChar).length + 1)
        ((c :: rest).dropWhile isNameChar)
      have hrest := hname (c :: rest)
      exact Nat.lt_succ_of_le (Nat.le_trans htag hrest)
    · exact hplain
  · exact hplain

theorem marksUpTo_succ (fuel : Nat) {s : List Char} (hs : s ≠ []) :
    marksUpTo (fuel + 1) s = (nextMark s).1.toList ++ marksUpTo fuel (nextMark s).2 := by
  rw [marksUpTo, if_neg (by simpa using hs)]

/-- Which marks a text has does not depend on the bound. -/
theorem marksUpTo_congr {fuel fuel' : Nat} {s : List Char} (hf : s.length ≤ fuel)
    (hf' : s.length ≤ fuel') : marksUpTo fuel s = marksUpTo fuel' s := by
  induction fuel generalizing fuel' s with
  | zero =>
    obtain rfl := List.eq_nil_of_length_eq_zero (Nat.le_zero.1 hf)
    cases fuel' <;> rfl
  | succ fuel ih =>
    by_cases hs : s = []
    · subst hs
      cases fuel' <;> rfl
    · have hlt := length_nextMark_lt hs
      cases fuel' with
      | zero => exact absurd (List.eq_nil_of_length_eq_zero (Nat.le_zero.1 hf')) hs
      | succ fuel' =>
        have hrest : marksUpTo fuel (nextMark s).2 = marksUpTo fuel' (nextMark s).2 :=
          ih (by omega) (by omega)
        rw [marksUpTo_succ fuel hs, marksUpTo_succ fuel' hs, hrest]

/-! ### Reading -/

namespace Forest

/-- What the marks of a text make of a forest. -/
def read (f : Forest) (s : List Char) : Forest := (marksUpTo s.length s).foldl add f

/-- What a mark, if it counts, makes of a forest. -/
def addMark (f : Forest) : Option Mark → Forest
  | none => f
  | some mark => f.add mark

@[simp] theorem read_nil (f : Forest) : f.read [] = f := rfl

/-- The first mark is read, and then what is behind it. -/
theorem read_eq (f : Forest) {s : List Char} (hs : s ≠ []) :
    f.read s = (f.addMark (nextMark s).1).read (nextMark s).2 := by
  have hlt := length_nextMark_lt hs
  obtain ⟨n, hn⟩ := Nat.exists_eq_succ_of_ne_zero (mt List.eq_nil_of_length_eq_zero hs)
  have hrest : marksUpTo n (nextMark s).2 = marksUpTo (nextMark s).2.length (nextMark s).2 :=
    marksUpTo_congr (by omega) (Nat.le_refl _)
  rw [read, hn, marksUpTo_succ n hs, hrest, List.foldl_append, read]
  cases (nextMark s).1 <;> rfl

@[simp] theorem addText_empty (f : Forest) : f.addText "" = f := by
  obtain ⟨opened, roots⟩ := f
  cases opened with
  | nil => rfl
  | cons top rest => cases top; simp [addText]

theorem addText_append (f : Forest) (s t : String) :
    f.addText (s ++ t) = (f.addText s).addText t := by
  obtain ⟨opened, roots⟩ := f
  cases opened <;> simp [addText, String.append_assoc]

end Forest

theorem dropStart?_of_head {start s : List Char} {c : Char} (hstart : start.head? = some c)
    (hs : s.head? ≠ some c) : dropStart? start s = none := by
  obtain ⟨o, rfl⟩ := List.head?_eq_some_iff.1 hstart
  refine if_neg fun h => hs ?_
  obtain ⟨t, rfl⟩ := List.isPrefixOf_iff_prefix.1 h
  rfl

/-- A text that does not begin with an angle bracket is plain up to the first one. -/
theorem nextMark_of_head {c : Char} {s : List Char} (hc : c ≠ '<') :
    nextMark (c :: s) = (some (.text (String.ofList (decodeEntities
      ((c :: s).takeWhile (· != '<'))))), (c :: s).dropWhile (· != '<')) := by
  have hhead : (c :: s).head? ≠ some '<' := by simpa using hc
  have hbang : dropStart? "<!--".toList (c :: s) = none := dropStart?_of_head rfl hhead
  have hdata : dropStart? "<![CDATA[".toList (c :: s) = none := dropStart?_of_head rfl hhead
  unfold nextMark
  simp only [hbang, hdata]
  simp [hc, nextMark.plainText]

namespace Forest

/-- Plain text is read up to where the next mark may begin, also where there is none. -/
theorem read_plain (f : Forest) (s : List Char) :
    f.read s = (f.addText (String.ofList (decodeEntities (s.takeWhile (· != '<'))))).read
      (s.dropWhile (· != '<')) := by
  cases s with
  | nil => simp
  | cons c s =>
    by_cases hc : c = '<'
    · simp [hc]
    · rw [read_eq f (List.cons_ne_nil c s), nextMark_of_head hc]
      rfl

/-- A written text is added to the innermost open block, whatever stands behind it. -/
theorem read_escape (f : Forest) (s : String) (rest : List Char) :
    f.read (escape s.toList ++ rest) = (f.addText s).read rest := by
  have hplain : ∀ c ∈ escape s.toList, (c != '<') = true := by
    intro c hc
    rw [bne_iff_ne]
    rintro rfl
    exact not_mem_escape (by decide) (by decide) _ hc
  rw [read_plain, List.takeWhile_append_of_pos hplain, List.dropWhile_append_of_pos hplain,
    decodeEntities_escape, String.ofList_append, String.ofList_toList, addText_append, ← read_plain]

end Forest

end Docs

end PluginLint
