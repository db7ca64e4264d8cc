import PluginLint.Proofs.Docs.Marks

/-!
# Well-formed comments are read back

A comment made of elements, empty tags and texts is written with every text and every value escaped.
Scanning what is written gives the forest it was written from. The induction is on the comment, with
any text behind it and any blocks open around it: what is written for one item does to a forest what
the item itself does (`Item.put`), and the scan goes on behind it.
-/
namespace PluginLint

namespace Text

/-- A character is not in two classes whose ranges are apart. -/
theorem inRanges_eq_false {ranges others : List (Nat × Nat)}
    (apart : ∀ p ∈ ranges, ∀ q ∈ others, p.2 < q.1 ∨ q.2 < p.1) {c : Char}
    (hc : inRanges ranges c = true) : inRanges others c = false := by
  rw [Bool.eq_false_iff]
  intro hother
  simp only [inRanges, List.any_eq_true, Bool.and_eq_true, decide_eq_true_eq] at hc hother
  obtain ⟨p, hp, hcp⟩ := hc
  obtain ⟨q, hq, hcq⟩ := hother
  have := apart p hp q hq
  omega

theorem inRanges_of_isAlpha {c : Char} (h : c.isAlpha = true) :
    inRanges [(65, 90), (97, 122)] c = true := by
  have hcases : (decide (c.val ≥ 'A'.val ∧ c.val ≤ 'Z'.val) ||
      (decide (c.val ≥ 'a'.val) && decide (c.val ≤ 'z'.val))) = true := h
  simp only [Bool.or_eq_true, Bool.and_eq_true, decide_eq_true_eq, ge_iff_le,
    UInt32.le_iff_toNat_le] at hcases
  have hval : c.toNat = c.val.toNat := rfl
  have hZ : 'Z'.val.toNat = 90 := rfl
  have hz : 'z'.val.toNat = 122 := rfl
  have hA : 'A'.val.toNat = 65 := rfl
  have ha : 'a'.val.toNat = 97 := rfl
  simp only [inRanges_cons, inRanges_nil, Bool.or_false, Bool.or_eq_true, Bool.and_eq_true,
    decide_eq_true_eq]
  omega

theorem isLetter_of_isBlank {c : Char} (hc : isBlank c = true) : isLetter c = false := by
  have hbeyond : inRanges letterRanges c = false := inRanges_eq_false (by decide +kernel) hc
  have hascii : c.isAlpha = false := by
    rw [Bool.eq_false_iff]
    intro h
    have hapart : inRanges [(65, 90), (97, 122)] c = false := inRanges_eq_false (by decide) hc
    rw [inRanges_of_isAlpha h] at hapart
    cases hapart
  simp [isLetter, hascii, hbeyond]

end Text

namespace Docs

open Text

/-! ### Names -/

theorem isNameChar_of_isNameStart {c : Char} (h : isNameStart c = true) : isNameChar c = true := by
  simp only [isNameStart, Bool.or_eq_true] at h
  simp only [isNameChar, Bool.or_eq_true]
  exact .inl (.inl (h.imp_left (.imp_left isWordChar_of_isLetter)))

theorem not_isNameStart_of_isBlank {c : Char} (hc : isBlank c = true) : isNameStart c = false := by
  have hletter := isLetter_of_isBlank hc
  have hmark : ∀ d, isBlank d = false → c ≠ d := by
    rintro d hd rfl
    rw [hc] at hd
    cases hd
  simp [isNameStart, hletter, hmark '_' (by decide), hmark ':' (by decide)]

/-- A text that begins and goes on as names do. -/
def isName : List Char → Bool
  | [] => false
  | c :: rest => isNameStart c && rest.all isNameChar

/-- The name of an element or of an attribute. -/
structure Name where
  text : String
  valid : isName text.toList = true

namespace Name

/-- The characters of a name. -/
def chars (n : Name) : List Char := n.text.toList

@[simp] theorem ofList_chars (n : Name) : String.ofList n.chars = n.text := String.ofList_toList

theorem exists_chars (n : Name) : ∃ c rest, n.chars = c :: rest ∧ isNameStart c = true ∧
    ∀ d ∈ c :: rest, isNameChar d = true := by
  have hvalid := n.valid
  rw [← chars] at hvalid
  rcases hn : n.chars with - | ⟨c, rest⟩
  · rw [hn] at hvalid
    cases hvalid
  · rw [hn, isName, Bool.and_eq_true, List.all_eq_true] at hvalid
    refine ⟨c, rest, rfl, hvalid.1, List.forall_mem_cons.2 ⟨?_, hvalid.2⟩⟩
    exact isNameChar_of_isNameStart hvalid.1

theorem isNameChar_of_mem {n : Name} {c : Char} (h : c ∈ n.chars) : isNameChar c = true := by
  obtain ⟨d, rest, hn, -, hall⟩ := n.exists_chars
  exact hall c (hn ▸ h)

/-- A name is read up to the first character that is none of a name. -/
theorem takeWhile_append (n : Name) {c : Char} (hc : isNameChar c = false) (rest : List Char) :
    (n.chars ++ c :: rest).takeWhile isNameChar = n.chars := by
  rw [List.takeWhile_append_of_pos fun _ h => isNameChar_of_mem h]
  simp [hc]

theorem dropWhile_append (n : Name) {c : Char} (hc : isNameChar c = false) (rest : List Char) :
    (n.chars ++ c :: rest).dropWhile isNameChar = c :: rest := by
  rw [List.dropWhile_append_of_pos fun _ h => isNameChar_of_mem h]
  simp [hc]

end Name

/-! ### Attributes -/

/-- An attribute as it is written: its value is escaped and stands in double quotes. -/
def renderAttribute (a : Name × String) : List Char :=
  ' ' :: a.1.chars ++ '=' :: '"' :: escape a.2.toList ++ ['"']

/-- All attributes of a tag as they are written. -/
def renderAttributes (attrs : List (Name × String)) : List Char := attrs.flatMap renderAttribute

/-- What the attributes are read as. -/
def pairs (attrs : List (Name × String)) : List (String × String) :=
  attrs.map fun (name, value) => (name.text, value)

/-- How a tag ends. -/
def tagEnd : Bool → List Char
  | true => ['/', '>']
  | false => ['>']

theorem breakAt_of_not_mem {c : Char} {s : List Char} (h : c ∉ s) (rest : List Char) :
    breakAt [c] (s ++ c :: rest) = (s, rest) := by
  induction s with
  | nil => simp [breakAt]
  | cons d s ih =>
    rw [List.mem_cons, not_or] at h
    simp [breakAt, h.1, ih h.2]

theorem attributePair_render (a : Name × String) (rest : List Char) :
    attributePair (a.1.chars ++ '=' :: '"' :: escape a.2.toList ++ '"' :: rest) =
      ((a.1.text, a.2), rest) := by
  have hvalue : breakAt ['"'] (escape a.2.toList ++ '"' :: rest) = (escape a.2.toList, rest) :=
    breakAt_of_not_mem (not_mem_escape (by decide) (by decide) _) rest
  have hdecode : decodeEntities (escape a.2.toList) = a.2.toList := by
    simpa using decodeEntities_escape a.2.toList []
  have hequals : isNameChar '=' = false := by decide
  have hnext : dropBlank ('=' :: '"' :: (escape a.2.toList ++ '"' :: rest)) =
      '=' :: '"' :: (escape a.2.toList ++ '"' :: rest) := rfl
  have hquote : dropBlank ('"' :: (escape a.2.toList ++ '"' :: rest)) =
      '"' :: (escape a.2.toList ++ '"' :: rest) := rfl
  rw [List.append_assoc, List.cons_append, List.cons_append]
  unfold attributePair
  rw [a.1.takeWhile_append hequals, a.1.dropWhile_append hequals, hnext]
  simp only [hquote, attributeValue, hvalue, hdecode, Name.ofList_chars, String.ofList_toList]

/-- Behind a blank, a character that begins a name begins an attribute. -/
theorem attributes_of_isNameStart {c : Char} (hc : isNameStart c = true) (fuel : Nat)
    (s : List Char) :
    attributes (fuel + 1) (' ' :: c :: s) =
      ((attributePair (c :: s)).1 :: (attributes fuel (attributePair (c :: s)).2).1,
        (attributes fuel (attributePair (c :: s)).2).2) := by
  have hblank : isBlank c = false := by
    rw [Bool.eq_false_iff]
    intro h
    rw [not_isNameStart_of_isBlank h] at hc
    cases hc
  have hdrop : dropBlank (' ' :: c :: s) = c :: s := by
    have hspace : isBlank ' ' = true := by decide
    simp [dropBlank, hspace, hblank]
  rw [attributes, hdrop]
  split
  · rename_i h
    cases h
  · rename_i h
    cases h
    exact absurd hc (by decide)
  · rename_i h
    cases h
    exact absurd hc (by decide)
  · rename_i h
    cases h
    rw [if_pos hc]

/-- Attributes are read back up to the end of their tag. -/
theorem attributes_render {fuel : Nat} (attrs : List (Name × String)) (isEmpty : Bool)
    (rest : List Char) (hf : (renderAttributes attrs).length < fuel) :
    attributes fuel (renderAttributes attrs ++ (tagEnd isEmpty ++ rest)) =
      (pairs attrs, isEmpty, rest) := by
  induction attrs generalizing fuel with
  | nil =>
    obtain ⟨fuel, rfl⟩ := Nat.exists_eq_succ_of_ne_zero (Nat.ne_of_gt (Nat.zero_lt_of_lt hf))
    cases isEmpty <;> rfl
  | cons a attrs ih =>
    obtain ⟨fuel, rfl⟩ := Nat.exists_eq_succ_of_ne_zero (Nat.ne_of_gt (Nat.zero_lt_of_lt hf))
    obtain ⟨c, name, hname, hstart, -⟩ := a.1.exists_chars
    have hfuel : (renderAttributes attrs).length < fuel := by
      simp only [renderAttributes, List.flatMap_cons, renderAttribute, List.length_append,
        List.length_cons] at hf ⊢
      omega
    have htext : renderAttributes (a :: attrs) ++ (tagEnd isEmpty ++ rest) =
        ' ' :: (a.1.chars ++ '=' :: '"' :: escape a.2.toList ++
          '"' :: (renderAttributes attrs ++ (tagEnd isEmpty ++ rest))) := by
      simp [renderAttributes, renderAttribute]
    have hpair := attributePair_render a (renderAttributes attrs ++ (tagEnd isEmpty ++ rest))
    rw [htext]
    simp only [hname, List.cons_append] at hpair ⊢
    rw [attributes_of_isNameStart hstart, hpair, ih hfuel]
    rfl

/-! ### Tags -/

/-- A start tag, or an empty tag, as it is written. -/
def renderTag (name : Name) (attrs : List (Name × String)) (isEmpty : Bool) : List Char :=
  '<' :: name.chars ++ (renderAttributes attrs ++ tagEnd isEmpty)

/-- An end tag as it is written. -/
def renderEnd (name : Name) : List Char := '<' :: '/' :: name.chars ++ ['>']

/-- Behind an angle bracket only an exclamation mark opens a comment or a data section. -/
theorem dropStart?_of_ne_bang {c : Char} (hc : c ≠ '!') (start s : List Char) :
    dropStart? ('<' :: '!' :: start) ('<' :: c :: s) = none := by
  simp [dropStart?, hc.symm]

/-- A start tag is read by its name, and then by its attributes. -/
theorem nextMark_of_isNameStart {d : Char} (hd : isNameStart d = true)
    {s name behind rest : List Char} {attrs : List (String × String)} {isEmpty : Bool}
    (hname : (d :: s).takeWhile isNameChar = name)
    (hbehind : (d :: s).dropWhile isNameChar = behind)
    (hattrs : attributes (behind.length + 1) behind = (attrs, isEmpty, rest)) :
    nextMark ('<' :: d :: s) = (some (.startTag (String.ofList name) attrs isEmpty), rest) := by
  have hbang : d ≠ '!' := by rintro rfl; exact absurd hd (by decide)
  unfold nextMark
  simp only [String.reduceToList, dropStart?_of_ne_bang hbang]
  split
  · rename_i h
    cases h
    exact absurd hd (by decide)
  · rename_i h
    cases h
    simp only [if_pos hd, hname, hbehind, hattrs]
  · rename_i h
    exact absurd rfl (h d s)

/-- No part of a tag behind its name goes on with the name. -/
theorem exists_behind_name (attrs : List (Name × String)) (isEmpty : Bool) (rest : List Char) :
    ∃ c s, renderAttributes attrs ++ (tagEnd isEmpty ++ rest) = c :: s ∧ isNameChar c = false := by
  cases attrs with
  | nil =>
    cases isEmpty
    · exact ⟨'>', rest, rfl, by decide⟩
    · exact ⟨'/', '>' :: rest, rfl, by decide⟩
  | cons a attrs => exact ⟨' ', _, rfl, by decide⟩

theorem nextMark_renderTag (name : Name) (attrs : List (Name × String)) (isEmpty : Bool)
    (rest : List Char) :
    nextMark (renderTag name attrs isEmpty ++ rest) =
      (some (.startTag name.text (pairs attrs) isEmpty), rest) := by
  obtain ⟨c, s, hbehind, hc⟩ := exists_behind_name attrs isEmpty rest
  have hname := name.takeWhile_append hc s
  have hrest := name.dropWhile_append hc s
  have hattributes : attributes ((c :: s).length + 1) (c :: s) = (pairs attrs, isEmpty, rest) := by
    rw [← hbehind]
    exact attributes_render attrs isEmpty rest (by simp only [List.length_append]; omega)
  obtain ⟨d, name', hchars, hstart, -⟩ := name.exists_chars
  have htext : renderTag name attrs isEmpty ++ rest = '<' :: d :: (name' ++ c :: s) := by
    simp [renderTag, hchars, ← hbehind]
  rw [hchars, List.cons_append] at hname hrest
  rw [htext, nextMark_of_isNameStart hstart hname hrest hattributes, ← hchars, Name.ofList_chars]

theorem nextMark_renderEnd (name : Name) (rest : List Char) :
    nextMark (renderEnd name ++ rest) = (some (.endTag name.text), rest) := by
  have hclose : isNameChar '>' = false := by decide
  have hname := name.takeWhile_append hclose rest
  have hrest := name.dropWhile_append hclose rest
  obtain ⟨d, name', hchars, hstart, -⟩ := name.exists_chars
  have htext : renderEnd name ++ rest = '<' :: '/' :: d :: (name' ++ '>' :: rest) := by
    simp [renderEnd, hchars]
  rw [hchars, List.cons_append] at hname hrest
  rw [htext]
  unfold nextMark
  simp only [String.reduceToList, dropStart?_of_ne_bang (show '/' ≠ '!' by decide)]
  simp [hstart, hname, hrest, ← hchars, breakAt]

/-! ### Comments -/

/-- What a comment is made of. -/
inductive Item where
  | text (s : String)
  /-- Written as `<name/>`. -/
  | emptyTag (name : Name) (attrs : List (Name × String))
  | element (name : Name) (attrs : List (Name × String)) (content : List Item)

/- Items as they are written. -/
mutual

/-- An item as it is written. -/
def render : Item → List Char
  | .text s => escape s.toList
  | .emptyTag name attrs => renderTag name attrs true
  | .element name attrs content =>
    renderTag name attrs false ++ (renderAll content ++ renderEnd name)

/-- Items as they are written, one behind the other. -/
def renderAll : List Item → List Char
  | [] => []
  | i :: is => render i ++ renderAll is

end

/-- The texts among the items as one; what is inside an element is not among them. -/
def directText : List Item → String
  | [] => ""
  | .text s :: is => s ++ directText is
  | _ :: is => directText is

/- The blocks that items stand for. -/
mutual

/-- The block that an item stands for. -/
def block? : Item → Option Block
  | .text _ => none
  | .emptyTag name attrs =>
    some { name := name.text, attributes := pairs attrs, isEmptyTag := true }
  | .element name attrs content =>
    some { name := name.text, attributes := pairs attrs, text := directText content,
           children := blocks content }

/-- The blocks among the items. -/
def blocks : List Item → List Block
  | [] => []
  | i :: is => (block? i).toList ++ blocks is

end

namespace Forest

/-- What an item adds to a forest: a text to the innermost open block, and a block in its place. -/
def put (f : Forest) : Item → Forest
  | .text s => f.addText s
  | i => (block? i).elim f f.attach

/-- In an open block the texts become one text, and the blocks stand in their order. -/
theorem foldl_put_opened (is : List Item) (b : Block) (opened roots : List Block) :
    is.foldl put ⟨b :: opened, roots⟩ =
      ⟨{ b with text := b.text ++ directText is, children := b.children ++ blocks is } :: opened,
        roots⟩ := by
  induction is generalizing b with
  | nil =>
    cases b
    simp [directText, blocks]
  | cons i is ih =>
    rw [List.foldl_cons]
    cases i with
    | text s => simp [put, addText, ih, directText, blocks, block?, String.append_assoc]
    | emptyTag name attrs => simp [put, attach, ih, directText, blocks, block?]
    | element name attrs content => simp [put, attach, ih, directText, blocks, block?]

/-- Outside all blocks only the blocks are left. -/
theorem foldl_put_roots (is : List Item) (roots : List Block) :
    is.foldl put ⟨[], roots⟩ = ⟨[], roots ++ blocks is⟩ := by
  induction is generalizing roots with
  | nil => simp [blocks]
  | cons i is ih =>
    rw [List.foldl_cons]
    cases i with
    | text s => simp [put, addText, ih, blocks, block?]
    | emptyTag name attrs => simp [put, attach, ih, blocks, block?]
    | element name attrs content => simp [put, attach, ih, blocks, block?]

theorem read_renderTag (f : Forest) (name : Name) (attrs : List (Name × String)) (isEmpty : Bool)
    (rest : List Char) :
    f.read (renderTag name attrs isEmpty ++ rest) =
      (f.add (.startTag name.text (pairs attrs) isEmpty)).read rest := by
  rw [read_eq f (by simp [renderTag]), nextMark_renderTag]
  rfl

/-- An end tag closes the innermost block when that has its name. -/
theorem read_renderEnd (name : Name) {b : Block} (hb : b.name = name.text)
    (opened roots : List Block) (rest : List Char) :
    (⟨b :: opened, roots⟩ : Forest).read (renderEnd name ++ rest) =
      ((⟨opened, roots⟩ : Forest).attach b).read rest := by
  rw [read_eq _ (by simp [renderEnd]), nextMark_renderEnd]
  simp [addMark, add, List.findIdx?_cons, hb, close]

/- The scan of what is written for an item, and for items. -/
mutual

/-- What is written for an item does to a forest what the item does, whatever stands behind it. -/
theorem read_render (i : Item) (f : Forest) (rest : List Char) :
    f.read (render i ++ rest) = (f.put i).read rest :=
  match i with
  | .text s => read_escape f s rest
  | .emptyTag name attrs => read_renderTag f name attrs true rest
  | .element name attrs content => by
    have hcontent := read_renderAll content
      ⟨{ name := name.text, attributes := pairs attrs } :: f.opened, f.roots⟩
      (renderEnd name ++ rest)
    rw [render, List.append_assoc, read_renderTag, List.append_assoc]
    refine hcontent.trans ?_
    rw [foldl_put_opened, read_renderEnd name rfl]
    simp [put, block?]

theorem read_renderAll (is : List Item) (f : Forest) (rest : List Char) :
    f.read (renderAll is ++ rest) = (is.foldl put f).read rest :=
  match is with
  | [] => rfl
  | i :: is => by
    rw [renderAll, List.append_assoc, read_render i f, read_renderAll is, List.foldl_cons]

end

end Forest

/-- A comment is read back as the forest it was written from: names, attributes, the order of the
blocks and which tags are empty, and the text of a block is the texts directly inside it. -/
theorem parseText_renderAll (is : List Item) :
    parseText (String.ofList (renderAll is)) = blocks is := by
  have hread : (marks (String.ofList (renderAll is))).foldl Forest.add {} = ⟨[], blocks is⟩ := by
    have hscan := Forest.read_renderAll is {} []
    rw [List.append_nil, Forest.foldl_put_roots, Forest.read_nil] at hscan
    simpa [marks, Forest.read] using hscan
  simp [parseText, hread, Forest.close]

end Docs

end PluginLint
