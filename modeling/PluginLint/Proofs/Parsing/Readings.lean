import PluginLint.Proofs.Progress.Steps

/-!
# What a step reads

`Reads` says what a step gives, which tokens are left behind it, and that no problem is noted on the
way. It is stated of the tokens ahead only, so it can be compared with what is followed over the same
tokens. There is one rule for each way of putting steps together.
-/
namespace PluginLint.Grammar

/-! ### Texts and kinds -/

/-- The texts of tokens agree with their kinds: the end of the file has no text, and what reads like a
mark of a list is one. Behind the end of the file there is nothing. -/
structure Spelled (ts : List Token) : Prop where
  last : ts.Pairwise fun t _ => t.isEnd = false
  ended : ∀ t ∈ ts, t.isEnd = true → t.text = ""
  marks : ∀ t ∈ ts, t.text ∈ Lexer.listMarks → t.kind = .punct

namespace Spelled

variable {ts rest : List Token} {text : String}

theorem of_suffix (h : Spelled ts) (hs : rest <:+ ts) : Spelled rest :=
  ⟨h.last.sublist hs.sublist, fun t ht => h.ended t (hs.subset ht),
    fun t ht => h.marks t (hs.subset ht)⟩

theorem not_startsEnd (h : Spelled ts) (hs : startsText ts text = true) (ht : text ≠ "") :
    startsEnd ts = false := by
  cases ts with
  | nil => exact absurd (startsText_iff.1 hs).symm ht
  | cons t ts =>
    have htext : t.text = text := startsText_iff.1 hs
    rw [Bool.eq_false_iff]
    intro hend
    have hblank : t.text = "" := h.ended t List.mem_cons_self hend
    exact ht (htext.symm.trans hblank)

/-- In front of a token there is no end of the file. -/
theorem not_startsEnd_of_drop (h : Spelled ts) (hd : startsEnd (ts.drop 1) = false) :
    startsEnd ts = false := by
  match ts, h, hd with
  | [], _, hd => exact hd
  | [_], _, hd => cases hd
  | t :: u :: _, h, _ => exact (List.pairwise_cons.1 h.last).1 u List.mem_cons_self

/-- A word is no mark of a list. -/
theorem not_startsText_of_kind (h : Spelled ts) (hk : kindAt ts 0 ≠ .punct)
    (ht : text ∈ Lexer.listMarks) (hne : text ≠ "") : startsText ts text = false := by
  cases ts with
  | nil => simpa [startsText, textAt, nth, Token.endOfFile] using hne.symm
  | cons t ts =>
    rw [Bool.eq_false_iff]
    intro hs
    have htext : t.text = text := startsText_iff.1 hs
    exact hk (h.marks t List.mem_cons_self (htext ▸ ht))

end Spelled

theorem Legible.spelled {ts : List Token} (h : Legible ts) : Spelled ts := by
  obtain ⟨init, leading, hts, hinit⟩ := h.ended
  refine ⟨?_, ?_, h.marks⟩
  · rw [hts, List.pairwise_append]
    refine ⟨?_, List.pairwise_singleton _ _, fun t ht _ _ => (hinit t ht).1⟩
    exact (List.pairwise_of_forall fun _ _ => trivial).imp_of_mem fun ht _ _ => (hinit _ ht).1
  · intro t ht hend
    rw [hts, List.mem_append, List.mem_singleton] at ht
    rcases ht with ht | rfl
    · rw [(hinit t ht).1] at hend
      cases hend
    · rfl

theorem spelled_of_tokenize {source : String} {ts : List Token}
    (h : Lexer.tokenize source = .ok ts) : Spelled ts := (legible_of_tokenize h).spelled

theorem skipText_of_startsText {ts : List Token} {text : String} (h : startsText ts text = true) :
    skipText text ts = skipText text (ts.drop 1) := by
  cases ts with
  | nil => rfl
  | cons t ts => exact List.dropWhile_cons_of_pos h

theorem skipText_of_not_startsText {ts : List Token} {text : String}
    (h : startsText ts text = false) : skipText text ts = ts := by
  cases ts with
  | nil => rfl
  | cons t ts => exact List.dropWhile_cons_of_neg (Bool.eq_false_iff.1 h)

/-! ### Steps -/

/-- With the tokens `ts` ahead the step gives `a` and leaves `rest`, and no problem is noted. -/
def Reads (p : Parse α) (ts : List Token) (a : α) (rest : List Token) : Prop :=
  Spelled ts → rest <:+ ts ∧ ∀ b : Builder, b.ahead = ts →
    ∃ b', p b = .ok (a, b') ∧ b'.ahead = rest ∧ b'.errors = b.errors

/-- A step that runs gives what it reads and leaves what it reads up to. -/
theorem Runs.reading {p : Parse α} {ts rest : List Token} {a : α} {Q : α → List Token → Prop}
    (h : Runs p ts Q) (hr : Reads p ts a rest) :
    Runs p ts fun a' rest' => a' = a ∧ rest' = rest ∧ Q a' rest' := by
  intro hl b hb
  obtain ⟨a', b', hrun, hs, hne, hq⟩ := h hl b hb
  obtain ⟨b'', hrun', hahead, -⟩ := (hr hl.spelled).2 b hb
  rw [hrun] at hrun'
  cases hrun'
  exact ⟨a, b', hrun, hs, hne, rfl, hahead, hq⟩

namespace Reads

variable {p : Parse α} {f : α → Parse β} {ts mid rest : List Token} {a : α} {c : β}

theorem of_spelled (h : Spelled ts → Reads p ts a rest) : Reads p ts a rest := fun hs => h hs hs

theorem pure : Reads (Pure.pure a) ts a ts :=
  fun _ => ⟨List.suffix_rfl, fun b hb => ⟨b, rfl, hb, rfl⟩⟩

/-- One step after the other. -/
theorem bind (hp : Reads p ts a mid) (hf : Reads (f a) mid c rest) : Reads (p >>= f) ts c rest := by
  intro hs
  obtain ⟨hmid, hrun⟩ := hp hs
  obtain ⟨hrest, hrun'⟩ := hf (hs.of_suffix hmid)
  refine ⟨hrest.trans hmid, fun b hb => ?_⟩
  obtain ⟨b', heq, hahead, herrors⟩ := hrun b hb
  obtain ⟨b'', heq', hahead', herrors'⟩ := hrun' b' hahead
  refine ⟨b'', ?_, hahead', herrors'.trans herrors⟩
  change (p b >>= fun r => f r.1 r.2) = _
  rw [heq]
  exact heq'

theorem ite_pos {x y : Parse α} {d : Prop} [Decidable d] (hd : d) (h : Reads x ts a rest) :
    Reads (if d then x else y) ts a rest := by
  rwa [if_pos hd]

theorem ite_neg {x y : Parse α} {d : Prop} [Decidable d] (hd : ¬d) (h : Reads y ts a rest) :
    Reads (if d then x else y) ts a rest := by
  rwa [if_neg hd]

theorem discard (h : Reads p ts a rest) : Reads (Functor.discard p) ts () rest :=
  bind (f := fun _ => Pure.pure ()) h .pure

theorem return_true (h : Reads p ts a rest) :
    Reads (p >>= fun _ => Pure.pure true) ts true rest := h.bind .pure

/-! ### Looking at tokens -/

/-- A step that only looks sees the tokens ahead. -/
theorem see {p : Parse α} {s : List Token → α} (hp : ∀ b, p b = .ok (s b.ahead, b)) :
    Reads p ts (s ts) ts := by
  refine fun _ => ⟨List.suffix_rfl, fun b hb => ⟨b, ?_, hb, rfl⟩⟩
  rw [hp, hb]

theorem ahead : Reads Grammar.ahead ts ts ts := see (s := id) fun _ => rfl

theorem atText (text : String) : Reads (atText text) ts (startsText ts text) ts :=
  see (s := fun ts => startsText ts text) fun _ => rfl

theorem atIdentifier : Reads atIdentifier ts (startsIdentifier ts) ts := see fun _ => rfl

theorem atEnd : Reads atEnd ts (startsEnd ts) ts := see fun _ => rfl

theorem look {x : List Token → Except Panic α} (hx : x ts = .ok a) : Reads (look x) ts a ts := by
  refine fun _ => ⟨List.suffix_rfl, fun b hb => ⟨b, ?_, hb, rfl⟩⟩
  change ((x b.ahead).map fun a => (a, b)) = _
  rw [hb, hx]
  rfl

/-! ### Placing tokens -/

theorem bump (h : startsEnd ts = false) : Reads bump ts () (ts.drop 1) := by
  refine fun _ => ⟨List.drop_suffix 1 ts, fun b hb => ?_⟩
  subst hb
  cases ht : b.ahead with
  | nil => simp [ht, startsEnd, nth, Token.endOfFile, Token.isEnd] at h
  | cons t rest =>
    have hend : t.isEnd = false := by simpa [ht, startsEnd, nth] using h
    exact ⟨{ b with ahead := rest, offset := b.offset + t.width, parts := b.parts.push (.leaf t) },
      by simp [Grammar.bump, place, ht, hend], rfl, rfl⟩

section texts

variable {text : String}

/-- A token with a text is not the end of the file. -/
theorem bump_text (h : startsText ts text = true) (ht : text ≠ "") :
    Reads Grammar.bump ts () (ts.drop 1) :=
  .of_spelled fun hs => .bump (hs.not_startsEnd h ht)

theorem eat (h : startsText ts text = true) (ht : text ≠ "") :
    Reads (eat text) ts true (ts.drop 1) := by
  apply Reads.of_spelled
  intro hs
  refine (atText text).bind (atEnd.bind (.ite_pos ?_ ((bump_text h ht).bind .pure)))
  rw [h, hs.not_startsEnd h ht]
  rfl

theorem eat_none (h : startsText ts text = false) : Reads (Grammar.eat text) ts false ts := by
  refine (atText text).bind (atEnd.bind (.ite_neg ?_ .pure))
  rw [h]
  exact Bool.false_ne_true

theorem expect (h : startsText ts text = true) (ht : text ≠ "") :
    Reads (expect text) ts true (ts.drop 1) :=
  (eat h ht).bind (.ite_pos rfl .pure)

end texts

theorem orReport {p : Parse Bool} {message : String} (hp : Reads p ts true rest) :
    Reads (orReport p message) ts true rest := hp.bind (.ite_pos rfl .pure)

/-! ### Nodes -/

/-- How parts are gathered does not matter to the tokens ahead. -/
theorem node {kind : NodeKind} (hp : Reads p ts a rest) : Reads (node kind p) ts a rest := by
  refine fun hs => ⟨(hp hs).1, fun b hb => ?_⟩
  obtain ⟨b', hrun, hrest⟩ := (hp hs).2 { b with parts := #[] } hb
  refine ⟨{ b' with parts := b.parts.push (.node kind b'.parts.toList) }, ?_, hrest⟩
  rw [Grammar.node, gather, hrun]
  rfl

theorem wrapLast {kind : NodeKind} (hp : Reads p ts a rest) : Reads (wrapLast kind p) ts a rest := by
  refine fun hs => ⟨(hp hs).1, fun b hb => ?_⟩
  obtain ⟨b', hrun, hrest⟩ := (hp hs).2
    { b with parts := (b.parts.back?.map (#[·])).getD #[] } hb
  refine ⟨{ b' with parts := b.parts.pop.push (.node kind b'.parts.toList) }, ?_, hrest⟩
  rw [Grammar.wrapLast, hrun]
  rfl

/-! ### Loops -/

section loops

variable {n : Nat} {step : Parse Bool}

theorem repeat_stop (h : Reads step ts false rest) : Reads (repeatUpTo (n + 1) step) ts () rest :=
  h.bind (.ite_neg Bool.false_ne_true .pure)

theorem repeat_again (h : Reads step ts true mid) (hrest : Reads (repeatUpTo n step) mid () rest) :
    Reads (repeatUpTo (n + 1) step) ts () rest :=
  h.bind (.ite_pos rfl hrest)

/-- An item with a comma behind it, and further items. -/
theorem comma_again {item : Parse Bool} (h : Reads item ts true mid)
    (hcomma : startsText mid "," = true)
    (hrest : Reads (commaSeparated n item) (mid.drop 1) () rest) :
    Reads (commaSeparated (n + 1) item) ts () rest := by
  apply Reads.repeat_again _ hrest
  exact h.bind (.ite_pos rfl (.eat hcomma (by decide)))

/-- The last item. -/
theorem comma_stop {item : Parse Bool} (h : Reads item ts true rest)
    (hcomma : startsText rest "," = false) : Reads (commaSeparated (n + 1) item) ts () rest := by
  apply Reads.repeat_stop
  exact h.bind (.ite_pos rfl (.eat_none hcomma))

theorem bumpWhile {text : String} (ht : text ≠ "") (h : ts.length < n) :
    Reads (bumpWhile n text) ts () (skipText text ts) := by
  induction n generalizing ts with
  | zero => omega
  | succ n ih =>
    cases hs : startsText ts text with
    | true =>
      have hlt := length_drop_one_lt hs ht
      rw [skipText_of_startsText hs]
      exact .repeat_again (.eat hs ht) (ih (by omega))
    | false =>
      rw [skipText_of_not_startsText hs]
      exact .repeat_stop (.eat_none hs)

end loops

end Reads

end PluginLint.Grammar
