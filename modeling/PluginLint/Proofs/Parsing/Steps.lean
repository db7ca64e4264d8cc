import PluginLint.Grammar.Types
import PluginLint.Proofs.Parsing.Growth
import Mathlib.Tactic.SplitIfs

/-!
# Rules for the steps of a parse

One rule for each step from which the grammar is built: looking at tokens, placing them, noting a
problem, making nodes and repeating a step. Nodes made around a part that is there already need
rules of their own, since such a step changes the last part instead of adding one.
-/
namespace PluginLint.Grammar

variable {b : Builder} {Q : α → Builder → List Tree → Prop}

/-! ### Looking at tokens -/

theorem nth_drop (ts : List Token) (n k : Nat) : nth (ts.drop n) k = nth ts (n + k) := by
  simp [nth, List.getD_eq_getElem?_getD, List.getElem?_drop]

theorem textAt_drop (ts : List Token) (n k : Nat) : textAt (ts.drop n) k = textAt ts (n + k) := by
  simp [textAt, nth_drop]

theorem startsText_iff {ts : List Token} {text : String} :
    startsText ts text = true ↔ textAt ts 0 = text := by
  simp [startsText]

/-- A token that is not the end of the file comes next. -/
theorem More.exists_cons (h : More b) : ∃ t rest, b.ahead = t :: rest ∧ t.isEnd = false := by
  unfold More startsEnd at h
  cases ht : b.ahead with
  | nil => simp [ht, nth, Token.endOfFile, Token.isEnd] at h
  | cons t rest => exact ⟨t, rest, rfl, by simpa [ht, nth] using h⟩

/-- The parts of the open node do not matter for what is ahead. -/
theorem More.fresh (h : More b) {parts : Array Tree} : More { b with parts } := h

/-- The end of the file has no text. -/
theorem textAt_of_isEnd {ts : List Token} {k : Nat} (h : Lexer.Ended ts)
    (hk : (nth ts k).isEnd = true) : textAt ts k = "" := by
  obtain ⟨init, leading, rfl, hinit⟩ := h
  unfold textAt
  unfold nth at hk ⊢
  rw [List.getD_eq_getElem?_getD, List.getElem?_append] at hk ⊢
  split_ifs at hk ⊢ with hlt
  · rw [List.getElem?_eq_getElem hlt, Option.getD_some] at hk
    exact absurd hk (by simp [(hinit _ (List.getElem_mem hlt)).1])
  · cases k - init.length <;> rfl

theorem not_startsEnd_of_textAt {k : Nat} (hb : Readable b) (h : textAt b.ahead k ≠ "") :
    startsEnd (b.ahead.drop k) = false := by
  rw [← Bool.not_eq_true]
  intro he
  rw [startsEnd, nth_drop] at he
  exact h (textAt_of_isEnd hb he)

theorem not_startsEnd_of_startsText {k : Nat} {text : String} (hb : Readable b)
    (h : startsText (b.ahead.drop k) text = true) (ht : text ≠ "") :
    startsEnd (b.ahead.drop k) = false := by
  refine not_startsEnd_of_textAt hb ?_
  rw [startsText_iff, textAt_drop] at h
  exact h ▸ ht

theorem more_of_textAt_ne (hb : Readable b) (h : textAt b.ahead 0 ≠ "") : More b :=
  not_startsEnd_of_textAt hb h

theorem more_of_startsText {text : String} (hb : Readable b)
    (h : startsText b.ahead text = true) (ht : text ≠ "") : More b :=
  not_startsEnd_of_startsText (k := 0) hb h ht

theorem more_of_kindAt (h : kindAt b.ahead 0 ≠ .endOfFile) : More b := by
  simpa [More, startsEnd, Token.isEnd, kindAt] using h

theorem more_of_startsIdentifier (h : startsIdentifier b.ahead = true) : More b := by
  refine more_of_kindAt ?_
  simp only [startsIdentifier, beq_iff_eq] at h
  simp [h]

theorem more_of_startsWord {word : String} (h : startsWord b.ahead word = true) : More b := by
  simp only [startsWord, Bool.and_eq_true] at h
  exact more_of_startsIdentifier h.1

theorem Yields.ahead_bind {f : List Token → Parse α} (h : Yields (f b.ahead) b Q) :
    Yields (ahead >>= f) b Q := h

theorem Yields.atText_bind {text : String} {f : Bool → Parse α} (ht : text ≠ "")
    (h₁ : More b → startsText b.ahead text = true → Yields (f true) b Q)
    (h₂ : startsText b.ahead text = false → Yields (f false) b Q) :
    Yields (atText text >>= f) b Q := by
  refine .of_readable fun hb => ?_
  change Yields (f (startsText b.ahead text)) b Q
  cases hs : startsText b.ahead text with
  | true => exact h₁ (more_of_startsText hb hs ht) hs
  | false => exact h₂ hs

theorem Yields.atIdentifier_bind {f : Bool → Parse α}
    (h₁ : More b → startsIdentifier b.ahead = true → Yields (f true) b Q)
    (h₂ : startsIdentifier b.ahead = false → Yields (f false) b Q) :
    Yields (atIdentifier >>= f) b Q := by
  change Yields (f (startsIdentifier b.ahead)) b Q
  cases hs : startsIdentifier b.ahead with
  | true => exact h₁ (more_of_startsIdentifier hs) hs
  | false => exact h₂ hs

theorem Yields.atWord_bind {word : String} {f : Bool → Parse α}
    (h₁ : More b → Yields (f true) b Q) (h₂ : Yields (f false) b Q) :
    Yields (atWord word >>= f) b Q := by
  change Yields (f (startsWord b.ahead word)) b Q
  cases hs : startsWord b.ahead word with
  | true => exact h₁ (more_of_startsWord hs)
  | false => exact h₂

theorem Yields.atEnd_bind {f : Bool → Parse α} (h₁ : Yields (f true) b Q)
    (h₂ : More b → Yields (f false) b Q) : Yields (atEnd >>= f) b Q := by
  change Yields (f (startsEnd b.ahead)) b Q
  cases hs : startsEnd b.ahead with
  | true => exact h₁
  | false => exact h₂ hs

theorem Yields.atEnd_bind_of {f : Bool → Parse α} (hb : More b) (h : Yields (f false) b Q) :
    Yields (atEnd >>= f) b Q := by
  change Yields (f (startsEnd b.ahead)) b Q
  rwa [hb]

theorem Yields.isBlankNode_bind {f : Bool → Parse α} (h : Yields (f b.parts.isEmpty) b Q) :
    Yields (isBlankNode >>= f) b Q := h

/-- A step that only looks has a known result, unless it panics. -/
theorem yields_orPanic (x : Except Panic α) :
    Yields (orPanic x) b fun a b' new => x = .ok a ∧ b' = b ∧ new = [] := by
  intro _ a b' hrun
  cases x with
  | error e => cases hrun
  | ok a' =>
    cases hrun
    exact ⟨[], .refl b, rfl, rfl, rfl⟩

theorem Yields.orPanic_bind {x : Except Panic β} {f : β → Parse α}
    (h : ∀ a, x = .ok a → Yields (f a) b Q) : Yields (orPanic x >>= f) b Q := by
  refine (yields_orPanic x).bind fun a b' new _ hx => ?_
  obtain ⟨hx, rfl, rfl⟩ := hx
  exact h a hx

theorem Yields.look_bind {t : List Token → Except Panic β} {f : β → Parse α}
    (h : ∀ a, t b.ahead = .ok a → Yields (f a) b Q) : Yields (look t >>= f) b Q :=
  .congr (q := orPanic (t b.ahead) >>= f) rfl (.orPanic_bind h)

theorem yields_upcoming :
    Yields upcoming b fun ts b' new => ts = b.ahead ∧ b' = b ∧ new = [] :=
  .ahead_bind (.ite (fun _ => .panic _) fun _ => .pure ⟨rfl, rfl, rfl⟩)

theorem Yields.upcoming_bind {f : List Token → Parse α} (h : Yields (f b.ahead) b Q) :
    Yields (upcoming >>= f) b Q := by
  refine yields_upcoming.bind fun ts b' new _ hts => ?_
  obtain ⟨rfl, rfl, rfl⟩ := hts
  exact h

theorem careful_orPanic (x : Except Panic α) : Careful (orPanic x) :=
  fun _ => (yields_orPanic x).imp fun _ _ _ _ h _ _ => h.2.1

theorem careful_look (t : List Token → Except Panic α) : Careful (look t) :=
  fun b => .congr (q := orPanic (t b.ahead)) rfl (careful_orPanic _ b)

theorem steady_look (t : List Token → Except Panic α) : Steady (look t) := (careful_look t).steady

theorem careful_ahead : Careful ahead :=
  fun b => .congr (q := Pure.pure b.ahead) rfl (.pure fun _ _ => rfl)

theorem careful_upcoming : Careful upcoming :=
  careful_ahead.bind fun _ => .ite (.panic _) (.pure _)

theorem steady_ahead : Steady ahead := careful_ahead.steady

theorem steady_upcoming : Steady upcoming := careful_upcoming.steady

theorem steady_atText (text : String) : Steady (atText text) := steady_ahead.bind fun _ => .pure _

theorem steady_atIdentifier : Steady atIdentifier := steady_ahead.bind fun _ => .pure _

theorem steady_atWord (word : String) : Steady (atWord word) := steady_ahead.bind fun _ => .pure _

theorem steady_atEnd : Steady atEnd := steady_ahead.bind fun _ => .pure _

theorem Careful.atText_bind {text : String} {f : Bool → Parse α} (ht : text ≠ "")
    (h₁ : ∀ b, More b → Yields (f true) b (Quiet b)) (h₂ : Careful (f false)) :
    Careful (atText text >>= f) :=
  fun b => .atText_bind ht (fun hb _ => h₁ b hb) fun _ => h₂ b

theorem Steady.atText_bind {text : String} {f : Bool → Parse α} (ht : text ≠ "")
    (h₁ : ∀ b, More b → Yields (f true) b Anything) (h₂ : Steady (f false)) :
    Steady (atText text >>= f) :=
  fun b => .atText_bind ht (fun hb _ => h₁ b hb) fun _ => h₂ b

/-! ### Placing tokens -/

/-- The next token has been placed, changed by `f`. -/
def Took (f : Token → Token) (b : Builder) : Unit → Builder → List Tree → Prop :=
  fun _ b' new => ∃ t, b.ahead = t :: b'.ahead ∧ new = [.leaf (f t)]

theorem yields_place {f : Token → Token} (hf : ∀ t, Retagged t (f t)) (hb : More b) :
    Yields (place f) b (Took f b) := by
  intro _ a b' hrun
  obtain ⟨t, rest, ht, he⟩ := hb.exists_cons
  simp only [place, ht, he, Bool.false_eq_true, if_false] at hrun
  cases hrun
  refine ⟨[.leaf (f t)], ⟨by simp, ⟨[t], ?_, ?_, ?_⟩, ?_, List.suffix_rfl, by simp, by simp⟩, t, ht, rfl⟩
  · simp [ht]
  · simpa using hf t
  · simpa using he
  · simp [(hf t).width]

/-- The end of the file is not placed. -/
theorem yields_place_of_end {f : Token → Token} {Q : Unit → Builder → List Tree → Prop}
    (hb : ¬More b) : Yields (place f) b Q := by
  intro _ a b' hrun
  simp only [More, Bool.not_eq_false] at hb
  unfold place at hrun
  split at hrun
  · cases hrun
  · rename_i t rest ht
    have he : t.isEnd = true := by simpa only [startsEnd, ht, nth, List.getD_cons_zero] using hb
    rw [if_pos he] at hrun
    cases hrun

theorem careful_place {f : Token → Token} (hf : ∀ t, Retagged t (f t)) : Careful (place f) := by
  intro b
  by_cases hb : More b
  · refine Yields.quiet_of_something ((yields_place hf hb).imp fun _ _ _ _ h => ?_)
    obtain ⟨t, -, hnew⟩ := h
    simp [Something, hnew]
  · exact yields_place_of_end hb

theorem yields_bump (hb : More b) : Yields bump b (Took id b) := yields_place (fun _ => .inl rfl) hb

theorem yields_bumpKeyword (hb : More b) : Yields bumpKeyword b (Took Token.asKeyword b) :=
  yields_place retagged_asKeyword hb

theorem careful_bump : Careful bump := careful_place fun _ => .inl rfl

theorem careful_bumpKeyword : Careful bumpKeyword := careful_place retagged_asKeyword

theorem steady_bump : Steady bump := careful_bump.steady

theorem each_bumpKeyword : Yields bumpKeyword b (Each fun x => x.isNode = false) := by
  by_cases hb : More b
  · refine (yields_bumpKeyword hb).imp fun _ _ _ _ ⟨t, _, hnew⟩ => ?_
    simp [Each, hnew, Tree.isNode]
  · exact yields_place_of_end hb

theorem Yields.took_something {f : Token → Token} {p : Parse Unit} (h : Yields p b (Took f b)) :
    Yields p b Something :=
  h.imp fun _ _ _ _ ⟨t, _, hnew⟩ => by simp [Something, hnew]

/-- A token is placed, and the rest goes on behind it. -/
theorem Yields.bump_bind {f : Unit → Parse α} (hb : More b)
    (hf : ∀ b' t, b.ahead = t :: b'.ahead →
      Yields (f ()) b' fun a b'' new => Q a b'' (.leaf t :: new)) : Yields (bump >>= f) b Q :=
  (yields_bump hb).bind fun _ b' _ _ ⟨t, ht, hnew⟩ => by
    rw [hnew]
    exact hf b' t ht

/-- A token, and steps behind it that may rely on what comes next. -/
theorem Yields.bump_something {f : Unit → Parse α} (hb : More b)
    (hf : ∀ b' t, b.ahead = t :: b'.ahead → Yields (f ()) b' Anything) :
    Yields (bump >>= f) b Something :=
  .bump_bind hb fun b' t ht => (hf b' t ht).imp fun _ _ _ _ _ => List.cons_ne_nil _ _

/-- A token and any steps behind it. -/
theorem yields_bump_then {f : Unit → Parse α} (hb : More b) (hf : Steady (f ())) :
    Yields (bump >>= f) b Something :=
  (yields_bump hb).took_something.then_steady fun _ => hf

theorem yields_bumpKeyword_then {f : Unit → Parse α} (hb : More b) (hf : Steady (f ())) :
    Yields (bumpKeyword >>= f) b Something :=
  (yields_bumpKeyword hb).took_something.then_steady fun _ => hf

/-- Tokens are placed up to the one that many places ahead. -/
theorem yields_bumpKeywords (n : Nat) :
    Yields (bumpKeywords n) b fun _ b' _ => b'.ahead = b.ahead.drop n := by
  induction n generalizing b with
  | zero => exact .pure rfl
  | succ n ih =>
    refine .atEnd_bind (.panic _) fun hb => ?_
    refine (yields_bumpKeyword hb).bind fun _ b' _ _ h => ih.imp fun _ b'' _ _ hahead => ?_
    obtain ⟨t, ht, -⟩ := h
    rw [hahead, ht, List.drop_succ_cons]

/-- Words, and something behind them. -/
theorem yields_bumpKeywords_then {n : Nat} {f : Unit → Parse α}
    (hb : startsEnd (b.ahead.drop n) = false)
    (hf : ∀ b', b'.ahead = b.ahead.drop n → More b' → Yields (f ()) b' Something) :
    Yields (bumpKeywords n >>= f) b Something := by
  refine (yields_bumpKeywords n).bind fun _ b' _ _ hahead => ?_
  have hm : More b' := by rw [More, hahead, hb]
  exact (hf b' hahead hm).imp fun _ _ _ _ hne h => hne (List.append_eq_nil_iff.1 h).2

theorem steady_bumpMany (n : Nat) : Steady (bumpMany n) := by
  induction n with
  | zero => exact .pure ()
  | succ n ih => exact steady_bump.bind fun _ => ih

/-! ### Problems -/

theorem yields_report (message : String) :
    Yields (report message) b fun _ b' new => b'.errors ≠ [] ∧ new = [] := by
  intro _ a b' hrun
  have grown : ∀ es, b.errors <:+ es → Grown b { b with errors := es } [] := fun es hes =>
    ⟨by simp, ⟨[], by simp⟩, by simp, hes, by simp, by simp⟩
  unfold report at hrun
  split at hrun
  · cases hrun
  dsimp only at hrun
  split at hrun
  · rename_i e es he
    split at hrun
    · cases hrun
      exact ⟨[], .refl b, by simp [he], rfl⟩
    · cases hrun
      exact ⟨[], grown _ (List.suffix_cons _ _), by simp, rfl⟩
  · rename_i he
    cases hrun
    exact ⟨[], grown _ (by simp [he]), by simp, rfl⟩

theorem steady_report (message : String) : Steady (report message) :=
  fun _ => (yields_report message).anything

/-- A token with a given text. -/
def IsToken (text : String) (x : Tree) : Prop := ∃ t, x = .leaf t ∧ t.text = text

/-- The next token, which has this text, has been placed, or nothing happened. -/
def Ate (text : String) (b : Builder) : Bool → Builder → List Tree → Prop :=
  fun found b' new =>
    if found then ∃ t, b.ahead = t :: b'.ahead ∧ t.text = text ∧ new = [.leaf t]
    else b' = b ∧ new = []

theorem yields_eat (text : String) : Yields (eat text) b (Ate text b) := by
  change Yields (if (startsText b.ahead text && !startsEnd b.ahead) = true then
    (do bump; return true) else return false) b _
  refine .ite (fun hc => ?_) fun _ => .pure ⟨rfl, rfl⟩
  simp only [Bool.and_eq_true, Bool.not_eq_true'] at hc
  refine .bump_bind hc.2 fun b' t ht => .pure ⟨t, ht, ?_, rfl⟩
  simpa [startsText, textAt, nth, ht] using hc.1

theorem yields_eat_of {text : String} (hb : More b) (h : startsText b.ahead text = true) :
    Yields (eat text) b fun found _ new => found = true ∧ ∃ t, new = [.leaf t] ∧ t.text = text := by
  have hrun : eat text b = (do bump; return true : Parse Bool) b := by
    have hend : startsEnd b.ahead = false := hb
    change (if (startsText b.ahead text && !startsEnd b.ahead) = true then
      (do bump; return true : Parse Bool) else return false) b = _
    rw [h, hend]
    rfl
  refine .congr hrun (.bump_bind hb fun b' t ht => .pure ⟨rfl, t, rfl, ?_⟩)
  simpa [startsText, textAt, nth, ht] using h

theorem steady_eat (text : String) : Steady (eat text) := fun _ => (yields_eat text).anything

theorem yields_expect (text : String) : Yields (expect text) b (Required (IsToken text)) := by
  refine (yields_eat text).bind fun found b' new hg h => ?_
  cases found with
  | true =>
    obtain ⟨t, -, ht, rfl⟩ := h
    exact .pure ⟨_, rfl, t, rfl, ht⟩
  | false =>
    obtain ⟨rfl, rfl⟩ := h
    exact (yields_report _).bind fun _ _ _ _ hr => .pure ⟨hr.1, by simp [hr.2]⟩

theorem yields_expect_of {text : String} (hb : More b) (h : startsText b.ahead text = true) :
    Yields (expect text) b fun _ _ new => ∃ t, new = [.leaf t] ∧ t.text = text := by
  refine (yields_eat_of hb h).bind fun found b' new hg ht => ?_
  obtain ⟨rfl, ht⟩ := ht
  exact .pure (by simpa using ht)

theorem steady_expect (text : String) : Steady (expect text) := fun _ => (yields_expect text).anything

theorem yields_expectIdentifier :
    Yields expectIdentifier b fun found _ new => found = true → new ≠ [] := by
  refine .atIdentifier_bind (fun hb _ => ?_) fun _ => ?_
  · exact .bump_bind hb fun b' t _ => .pure fun _ => by simp
  · exact (steady_report _ b).bind fun _ _ _ _ _ => .pure fun h => by cases h

theorem steady_expectIdentifier : Steady expectIdentifier :=
  fun _ => yields_expectIdentifier.anything

theorem yields_orReport {K : NodeKind → Prop} {p : Parse Bool} {message : String}
    (hp : Yields p b (Tried K b)) :
    Yields (orReport p message) b (Required fun x => x.HasKind K) := by
  refine hp.bind fun found b' new hg h => ?_
  cases found with
  | true =>
    obtain ⟨x, rfl, hx⟩ := h
    exact .pure ⟨x, rfl, hx⟩
  | false =>
    obtain ⟨rfl, rfl⟩ := h
    exact (yields_report _).bind fun _ _ _ _ hr => .pure ⟨hr.1, by simp [hr.2]⟩

theorem steady_orReport {p : Parse Bool} {message : String} (hp : Steady p) :
    Steady (orReport p message) :=
  hp.bind fun _ => .ite (.pure true) ((steady_report message).bind fun _ => .pure false)

theorem yields_orGiveUp {K : NodeKind → Prop} {p : Parse Bool} (hp : Yields p b (Tried K b)) :
    Yields (orGiveUp p) b (One K) := by
  refine hp.bind fun found b' new hg h => ?_
  cases found with
  | true =>
    obtain ⟨x, rfl, hx⟩ := h
    exact .pure ⟨x, rfl, hx⟩
  | false => exact .panic _

/-! ### Nodes -/

/-- What a node may be made of. -/
def Fits (kind : NodeKind) (b : Builder) (inner : List Tree) : Prop :=
  Formed kind inner ∧ (b.errors = [] → Complete kind inner)

theorem Fits.of_plain {kind : NodeKind} {inner : List Tree} (hk : kind.isPlain = true)
    (hne : inner ≠ []) : Fits kind b inner := ⟨.of_plain hk hne, fun _ => .of_plain hk⟩

/-- What is placed in a fresh open node is gathered there. -/
theorem exists_of_gather {p : Parse α} {close : α → Array Tree → Array Tree → Array Tree} {a : α}
    {b'' : Builder} (h : gather p close b = .ok (a, b'')) :
    ∃ b', p { b with parts := #[] } = .ok (a, b') ∧
      b'' = { b' with parts := close a b.parts b'.parts } := by
  obtain ⟨⟨_, b'⟩, hp, hc⟩ := exists_of_map h
  cases hc
  exact ⟨b', hp, rfl⟩

theorem yields_node_of {K : NodeKind → Prop} {kind : NodeKind} {p : Parse α} (hK : K kind)
    (hp : Yields p { b with parts := #[] } fun _ b' inner => Fits kind b' inner) :
    Yields (node kind p) b (One K) := by
  intro hb a b'' hrun
  obtain ⟨b', hinner, rfl⟩ := exists_of_gather hrun
  obtain ⟨inner, hg, hf, hc⟩ := hp hb a b' hinner
  exact ⟨[.node kind inner], hg.node hf hc, _, rfl, hK⟩

/-- The first new part is a token. -/
def Headed : α → Builder → List Tree → Prop := fun _ _ new => ∃ t rest, new = .leaf t :: rest

theorem yields_bump_headed {f : Unit → Parse α} (hb : More b) (hf : Steady (f ())) :
    Yields (bump >>= f) b Headed :=
  .bump_bind hb fun b' t _ => (hf b').imp fun _ _ new _ _ => ⟨t, new, rfl⟩

theorem yields_bumpKeyword_headed {f : Unit → Parse α} (hb : More b) (hf : Steady (f ())) :
    Yields (bumpKeyword >>= f) b Headed :=
  (yields_bumpKeyword hb).bind fun _ b' _ _ ⟨t, _, hnew⟩ => (hf b').imp fun _ _ new _ _ =>
    ⟨t.asKeyword, new, by simp [hnew]⟩

theorem Yields.took_headed {f : Token → Token} {p : Parse Unit} (h : Yields p b (Took f b)) :
    Yields p b Headed :=
  h.imp fun _ _ _ _ ⟨t, _, hnew⟩ => ⟨f t, [], hnew⟩

/-- Steps behind a first token leave it where it is. -/
theorem Yields.headed_gives {R : β → Prop} {p : Parse α} {f : α → Parse β} (hp : Yields p b Headed)
    (hf : ∀ a b', Yields (f a) b' (Gives R)) :
    Yields (p >>= f) b fun c b' new => R c ∧ Headed c b' new := by
  refine hp.bind fun a b' _ _ ⟨t, rest, hnew⟩ => (hf a b').imp fun _ _ new _ hc => ?_
  exact ⟨hc, t, rest ++ new, by simp [hnew]⟩

/-- Of some kinds of nodes it is known that they begin with a token. -/
theorem yields_headedNode {K : NodeKind → Prop} {kind : NodeKind} {p : Parse α} (hK : K kind)
    (hk : kind.isLoose = true) (hp : Yields p { b with parts := #[] } Headed) :
    Yields (node kind p) b (One K) := by
  refine yields_node_of hK (hp.imp fun _ _ new _ h => ?_)
  obtain ⟨t, rest, rfl⟩ := h
  exact ⟨.of_leaf (NodeKind.ne_block_of_isLoose hk) (NodeKind.ne_identifierName_of_isLoose hk),
    fun _ => .of_loose hk⟩

/-- A node of a kind of which nothing special is known has to have parts, and that is all. -/
theorem yields_node {K : NodeKind → Prop} {kind : NodeKind} {p : Parse α} (hK : K kind)
    (hk : kind.isPlain = true) (hp : Yields p { b with parts := #[] } Something) :
    Yields (node kind p) b (One K) :=
  yields_node_of hK (hp.imp fun _ _ _ _ hne => .of_plain hk hne)

theorem yields_nodeOf {K : NodeKind → Prop} {p : Parse NodeKind}
    (hp : Yields p { b with parts := #[] } fun kind b' inner => K kind ∧ Fits kind b' inner) :
    Yields (nodeOf p) b (One K) := by
  intro hb a b'' hrun
  obtain ⟨kind, b₁, hrun, hrest⟩ := exists_of_bind hrun
  obtain ⟨-, rfl⟩ := eq_of_pure hrest
  obtain ⟨b', hinner, rfl⟩ := exists_of_gather hrun
  obtain ⟨inner, hg, hK, hf, hc⟩ := hp hb kind b' hinner
  exact ⟨[.node kind inner], hg.node hf hc, _, rfl, hK⟩

theorem yields_nodeWhen {kind : NodeKind} {p : Parse Bool} (hk : kind.isPlain = true)
    (hp : Yields p { b with parts := #[] } fun ok _ inner => ok = true → inner ≠ []) :
    Yields (nodeWhen kind p) b Anything := by
  intro hb ok b'' hrun
  obtain ⟨b', hinner, rfl⟩ := exists_of_gather hrun
  obtain ⟨inner, hg, hne⟩ := hp hb ok b' hinner
  cases ok with
  | true =>
    obtain ⟨hf, hc⟩ := Fits.of_plain (b := b') hk (hne rfl)
    exact ⟨[.node kind inner], hg.node hf hc, trivial⟩
  | false => exact ⟨inner, hg.inline, trivial⟩

theorem yields_nodeUnlessBlank {K : NodeKind → Prop} {kind : NodeKind} {p : Parse Unit}
    (hK : K kind) (hk : kind.isPlain = true)
    (hp : Careful p) : Yields (nodeUnlessBlank kind p) b (Tried K b) := by
  intro hb found b'' hrun
  unfold nodeUnlessBlank nodeWhen at hrun
  obtain ⟨b', hnode, rfl⟩ := exists_of_gather hrun
  obtain ⟨_, b₁, hinner, hblank⟩ := exists_of_bind hnode
  obtain ⟨rfl, rfl⟩ : found = !b₁.parts.isEmpty ∧ b' = b₁ := by
    cases hblank
    exact ⟨rfl, rfl⟩
  obtain ⟨inner, hg, hq⟩ := hp { b with parts := #[] } hb _ _ hinner
  have hparts : b'.parts = inner.toArray := by
    apply Array.toList_inj.1
    simpa using hg.parts
  cases inner with
  | nil =>
    have hb' := hq rfl rfl
    exact ⟨[], by simpa [hb'] using Grown.refl b, by simp [hb', Tried]⟩
  | cons x inner =>
    obtain ⟨hf, hc⟩ := Fits.of_plain (b := b') hk (List.cons_ne_nil x inner)
    have hfull : (!b'.parts.isEmpty) = true := by simp [hparts]
    refine ⟨[.node kind (x :: inner)], by simpa [hparts] using hg.node hf hc, ?_⟩
    rw [hfull]
    exact ⟨_, rfl, hK⟩

theorem steady_nodeUnlessBlank {kind : NodeKind} {p : Parse Unit} (hk : kind.isPlain = true)
    (hp : Steady p) : Steady (nodeUnlessBlank kind p) := by
  refine fun b => yields_nodeWhen hk ((hp _).bind fun _ b' new hg _ => .isBlankNode_bind ?_)
  refine .pure fun hfull hnew => ?_
  have hparts : b'.parts.toList = [] := by
    rw [hg.parts, (List.append_eq_nil_iff.1 hnew).1]
    rfl
  rw [Array.toList_eq_nil_iff] at hparts
  simp [hparts] at hfull

/-- Noting a problem and setting a token aside adds a node at most. -/
theorem yields_skipToken (message : String) :
    Yields (skipToken message) b (Each fun t => t.isNode = true) := by
  refine (yields_report message).bind fun _ b' _ _ hr => ?_
  obtain ⟨-, rfl⟩ := hr
  refine .atEnd_bind (.pure (by simp [Each])) fun hb => ?_
  refine (yields_node (K := fun _ => True) trivial rfl (yields_bump hb.fresh).took_something).imp ?_
  rintro _ _ _ _ ⟨x, rfl, hx⟩
  cases x with
  | node kind parts => simp [Each, Tree.isNode]
  | leaf t => cases hx

theorem steady_skipToken (message : String) : Steady (skipToken message) :=
  fun _ => (yields_skipToken message).anything

/-! ### Loops -/

/-- What holds of every round of a loop, and can be put together, holds of the loop. -/
theorem yields_repeatUpTo {R : Builder → Builder → List Tree → Prop} {step : Parse Bool}
    (htrans : ∀ b b' b'' new new', R b b' new → R b' b'' new' → R b b'' (new ++ new'))
    (hstep : ∀ b, Yields step b fun _ b' new => R b b' new) (n : Nat) (b : Builder) :
    Yields (repeatUpTo n step) b fun _ b' new => R b b' new := by
  induction n generalizing b with
  | zero => exact .panic _
  | succ n ih =>
    refine (hstep b).bind fun again b' new _ h => ?_
    cases again with
    | true => exact (ih b').imp fun _ _ _ _ h' => htrans _ _ _ _ _ h h'
    | false => exact .pure (by simpa using h)

/-- What every round of a loop keeps, the loop keeps, and what holds where a round asks for no other
holds behind the loop. -/
theorem repeatUpTo_ends {I F : Builder → Prop} {step : Parse Bool}
    (hstep : ∀ b again b', I b → step b = .ok (again, b') → I b' ∧ (again = false → F b'))
    {n : Nat} {b b' : Builder} (hb : I b) (hrun : repeatUpTo n step b = .ok ((), b')) :
    I b' ∧ F b' := by
  induction n generalizing b with
  | zero => cases hrun
  | succ n ih =>
    obtain ⟨again, b₁, hrun, hrest⟩ := exists_of_bind hrun
    obtain ⟨hb₁, hF⟩ := hstep b again b₁ hb hrun
    cases again with
    | true => exact ih hb₁ hrest
    | false =>
      obtain ⟨-, rfl⟩ := eq_of_pure hrest
      exact ⟨hb₁, hF rfl⟩

theorem repeatUpTo_keeps {I : Builder → Prop} {step : Parse Bool}
    (hstep : ∀ b again b', I b → step b = .ok (again, b') → I b') {n : Nat} {b b' : Builder}
    (hb : I b) (hrun : repeatUpTo n step b = .ok ((), b')) : I b' :=
  (repeatUpTo_ends (F := fun _ => True)
    (fun b again b' hb hrun => ⟨hstep b again b' hb hrun, fun _ => trivial⟩) hb hrun).1

theorem steady_repeatUpTo {step : Parse Bool} (hstep : Steady step) (n : Nat) :
    Steady (repeatUpTo n step) :=
  yields_repeatUpTo (R := fun _ _ _ => True) (fun _ _ _ _ _ _ _ => trivial) hstep n

theorem yields_repeatUpTo_ends {F : Builder → Prop} {step : Parse Bool}
    (hstep : ∀ b, Yields step b fun again b' _ => again = false → F b') (n : Nat) (b : Builder) :
    Yields (repeatUpTo n step) b fun _ b' _ => F b' := by
  intro hb _ b' hrun
  obtain ⟨new, hg, -⟩ := steady_repeatUpTo (fun b => (hstep b).anything) n b hb () b' hrun
  refine ⟨new, hg, (repeatUpTo_ends (I := Readable) (fun c again c' hc hrun => ?_) hb hrun).2⟩
  obtain ⟨_, hg, hF⟩ := hstep c hc again c' hrun
  exact ⟨hg.readable hc, hF⟩

theorem each_repeatUpTo {P : Tree → Prop} {step : Parse Bool}
    (hstep : ∀ b, Yields step b (Each P)) (n : Nat) (b : Builder) :
    Yields (repeatUpTo n step) b (Each P) := by
  refine yields_repeatUpTo (R := fun _ _ new => ∀ t ∈ new, P t) ?_ hstep n b
  intro _ _ _ new new' h h' t ht
  rcases List.mem_append.1 ht with ht | ht
  · exact h t ht
  · exact h' t ht

theorem careful_repeatUpTo {step : Parse Bool} (hstep : Careful step) (n : Nat) :
    Careful (repeatUpTo n step) := by
  refine yields_repeatUpTo (R := fun b b' new => b.parts = #[] → new = [] → b' = b) ?_ hstep n
  intro b b' b'' new new' h h' hb hn
  obtain ⟨hn₁, hn₂⟩ := List.append_eq_nil_iff.1 hn
  obtain rfl := h hb hn₁
  exact h' hb hn₂

theorem steady_bumpWhile (n : Nat) (text : String) : Steady (bumpWhile n text) :=
  steady_repeatUpTo (steady_eat text) n

theorem steady_commaSeparated {item : Parse Bool} (h : Steady item) (n : Nat) :
    Steady (commaSeparated n item) :=
  steady_repeatUpTo (h.bind fun _ => .ite (steady_eat ",") (.pure false)) n

/-! ### Steps that change the last part -/

/-- Run behind a part whose kind is in `K`, the step turns this part into one whose kind is in `K'`,
and has a result in `R`. -/
def Rewraps (K K' : NodeKind → Prop) (R : α → Prop) (p : Parse α) (b : Builder) : Prop :=
  ∀ o init x, Readable o → x.HasKind K → Grown o b (init ++ [x]) → ∀ a b', p b = .ok (a, b') →
    R a ∧ ∃ y, y.HasKind K' ∧ Grown o b' (init ++ [y])

/-- Run behind at least one new part, the step leaves at least one, and has a result in `R`. -/
def Goes (R : α → Prop) (p : Parse α) (b : Builder) : Prop :=
  ∀ o new, Readable o → new ≠ [] → Grown o b new → ∀ a b', p b = .ok (a, b') →
    R a ∧ ∃ new', new' ≠ [] ∧ Grown o b' new'

theorem exists_of_wrapLast {kind : NodeKind} {p : Parse α} {b b'' : Builder} {init : List Tree}
    {x : Tree} {a : α} (h : b.parts.toList = init ++ [x])
    (hrun : wrapLast kind p b = .ok (a, b'')) :
    ∃ b', p { b with parts := #[x] } = .ok (a, b') ∧
      b'' = { b' with parts := b.parts.pop.push (.node kind b'.parts.toList) } := by
  have hback : b.parts.back? = some x := by
    rw [← Array.getLast?_toList, h, List.getLast?_concat]
  simp only [wrapLast, hback, Option.map_some, Option.getD_some] at hrun
  obtain ⟨⟨_, b'⟩, hp, hc⟩ := exists_of_map hrun
  cases hc
  exact ⟨b', hp, rfl⟩

namespace Rewraps

variable {K K' K'' : NodeKind → Prop} {p q : Parse α}

theorem pure {R : α → Prop} {a : α} (ha : R a) : Rewraps K K R (Pure.pure a) b := by
  intro o init x _ hx hg c b' hrun
  obtain ⟨rfl, rfl⟩ := eq_of_pure hrun
  exact ⟨ha, x, hx, hg⟩

theorem bind {R : α → Prop} {S : β → Prop} {f : α → Parse β} (hp : Rewraps K K' R p b)
    (hf : ∀ a b', R a → Rewraps K' K'' S (f a) b') : Rewraps K K'' S (p >>= f) b := by
  intro o init x hr hx hg c b'' hrun
  obtain ⟨a, b', hrun, hrun'⟩ := exists_of_bind hrun
  obtain ⟨ha, y, hy, hg'⟩ := hp o init x hr hx hg a b' hrun
  exact hf a b' ha o init y hr hy hg' c b'' hrun'

theorem ite {c : Prop} [Decidable c] {R : α → Prop} (hp : c → Rewraps K K' R p b)
    (hq : ¬c → Rewraps K K' R q b) : Rewraps K K' R (if c then p else q) b := by
  split
  · exact hp ‹_›
  · exact hq ‹_›

theorem of_readable {R : α → Prop} (h : Readable b → Rewraps K K' R p b) : Rewraps K K' R p b :=
  fun o init x hr hx hg => h (hg.readable hr) o init x hr hx hg

theorem ahead_bind {R : α → Prop} {f : List Token → Parse α}
    (h : Rewraps K K' R (f b.ahead) b) : Rewraps K K' R (Grammar.ahead >>= f) b := h

theorem upcoming_bind {R : α → Prop} {f : List Token → Parse α}
    (h : Rewraps K K' R (f b.ahead) b) : Rewraps K K' R (Grammar.upcoming >>= f) b := by
  intro o init x hr hx hg c b'' hrun
  obtain ⟨ts, b', hrun, hrun'⟩ := exists_of_bind hrun
  obtain ⟨new, -, rfl, rfl, -⟩ := yields_upcoming (hg.readable hr) ts b' hrun
  exact h o init x hr hx hg c b'' hrun'

theorem atText_bind {R : α → Prop} {text : String} {f : Bool → Parse α} (ht : text ≠ "")
    (h₁ : More b → Rewraps K K' R (f true) b) (h₂ : Rewraps K K' R (f false) b) :
    Rewraps K K' R (atText text >>= f) b := by
  refine .of_readable fun hb => ?_
  change Rewraps K K' R (f (startsText b.ahead text)) b
  cases hs : startsText b.ahead text with
  | true => exact h₁ (more_of_startsText hb hs ht)
  | false => exact h₂

/-- A look at the next token changes nothing. -/
theorem atText (text : String) : Rewraps K K (fun _ => True) (Grammar.atText text) b :=
  .ahead_bind (.pure trivial)

/-- The last part becomes the first part of a node of a kind of which nothing special is known. -/
theorem wrapLast {R : α → Prop} {kind : NodeKind} (hK : K' kind) (hk : kind.isPlain = true)
    (hp : ∀ b', b'.ahead = b.ahead → Yields p b' (Gives R)) :
    Rewraps K K' R (Grammar.wrapLast kind p) b := by
  intro o init x hr hx hg a b'' hrun
  have hparts : b.parts.toList = (o.parts.toList ++ init) ++ [x] := by simp [hg.parts]
  obtain ⟨b', hinner, rfl⟩ := exists_of_wrapLast hparts hrun
  obtain ⟨inner, hg', ha⟩ := hp { b with parts := #[x] } rfl (hg.readable hr) a b' hinner
  refine ⟨ha, .node kind (x :: inner), hK, hg.wrapLast hg' ?_ fun _ => .of_plain hk⟩
  exact .of_plain hk (List.cons_ne_nil x inner)

/-- The last part is wrapped, and that is the end of the step. -/
theorem wrapLast_return {kind : NodeKind} {R : β → Prop} {a : β} (ha : R a) (hK : K' kind)
    (hk : kind.isPlain = true) (hp : ∀ b', b'.ahead = b.ahead → Yields p b' Anything) :
    Rewraps K K' R (Grammar.wrapLast kind p >>= fun _ => Pure.pure a) b :=
  (wrapLast hK hk hp).bind fun _ _ _ => .pure ha

theorem repeatUpTo {R : Bool → Prop} {step : Parse Bool} (hstep : ∀ b, Rewraps K K R step b)
    (n : Nat) (b : Builder) : Rewraps K K (fun _ => True) (Grammar.repeatUpTo n step) b := by
  induction n generalizing b with
  | zero =>
    intro o init x _ _ _ a b' hrun
    cases hrun
  | succ n ih =>
    refine (hstep b).bind fun again b' _ => .ite (fun _ => ih b') fun _ => .pure trivial

end Rewraps

/-- A part is added and then changed. -/
theorem Yields.rewrap {K K' : NodeKind → Prop} {R : β → Prop} {p : Parse α} {f : α → Parse β}
    (hp : Yields p b (One K)) (hf : ∀ a b', Rewraps K K' R (f a) b') :
    Yields (p >>= f) b fun a _ new => R a ∧ ∃ x, new = [x] ∧ x.HasKind K' := by
  intro hb c b'' hrun
  obtain ⟨a, b', hrun, hrun'⟩ := exists_of_bind hrun
  obtain ⟨new, hg, x, rfl, hx⟩ := hp hb a b' hrun
  obtain ⟨ha, y, hy, hg'⟩ := hf a b' b [] x hb hx hg c b'' hrun'
  exact ⟨[y], hg', ha, y, rfl, hy⟩

/-- If there is a part, it is changed, and otherwise nothing happens. -/
theorem Yields.tried_rewrap {K K' : NodeKind → Prop} {p : Parse Bool} {f : Bool → Parse Bool}
    (hp : Yields p b (Tried K b)) (hfalse : f false = Pure.pure false)
    (htrue : ∀ b', Rewraps K K' (· = true) (f true) b') : Yields (p >>= f) b (Tried K' b) := by
  intro hb c b'' hrun
  obtain ⟨found, b', hrun, hrun'⟩ := exists_of_bind hrun
  obtain ⟨new, hg, h⟩ := hp hb found b' hrun
  cases found with
  | true =>
    obtain ⟨x, rfl, hx⟩ := h
    obtain ⟨rfl, y, hy, hg'⟩ := htrue b' b [] x hb hx hg c b'' hrun'
    exact ⟨[y], hg', y, rfl, hy⟩
  | false =>
    obtain ⟨rfl, rfl⟩ := h
    rw [hfalse] at hrun'
    obtain ⟨rfl, rfl⟩ := eq_of_pure hrun'
    exact ⟨[], hg, rfl, rfl⟩

/-- A look-ahead decides whether there is a part. -/
theorem Yields.tried_one {K : NodeKind → Prop} {p : Parse α} (hp : Yields p b (One K)) :
    Yields (p >>= fun _ => Pure.pure true) b (Tried K b) :=
  hp.bind fun _ _ _ _ ⟨x, hnew, hx⟩ => .pure ⟨x, by simp [hnew], hx⟩

theorem yields_foundNode {K : NodeKind → Prop} {kind : NodeKind} {p : Parse α} (hK : K kind)
    (hk : kind.isPlain = true) (hp : Yields p { b with parts := #[] } Something) :
    Yields (node kind p >>= fun _ => Pure.pure true) b (Tried K b) :=
  (yields_node hK hk hp).tried_one

theorem Yields.tried_none {K : NodeKind → Prop} : Yields (Pure.pure false) b (Tried K b) :=
  .pure ⟨rfl, rfl⟩

/-- What is not found by one step is looked for by another. -/
theorem Yields.tried_or {K : NodeKind → Prop} {p q : Parse Bool} (hp : Yields p b (Tried K b))
    (hq : Yields q b (Tried K b)) :
    Yields (p >>= fun found => if found = true then Pure.pure true else q) b (Tried K b) := by
  refine hp.bind fun found b' new _ h => ?_
  cases found with
  | true =>
    obtain ⟨x, rfl, hx⟩ := h
    exact .pure ⟨x, rfl, hx⟩
  | false =>
    obtain ⟨rfl, rfl⟩ := h
    exact hq

namespace Goes

variable {p q : Parse α}

theorem of_yields {R : α → Prop} (hp : Yields p b (Gives R)) : Goes R p b := by
  intro o new hr hne hg a b' hrun
  obtain ⟨new', hg', ha⟩ := hp (hg.readable hr) a b' hrun
  exact ⟨ha, new ++ new', by simp [hne], hg.trans hg'⟩

theorem bind {R : α → Prop} {S : β → Prop} {f : α → Parse β} (hp : Goes R p b)
    (hf : ∀ a b', Goes S (f a) b') : Goes S (p >>= f) b := by
  intro o new hr hne hg c b'' hrun
  obtain ⟨a, b', hrun, hrun'⟩ := exists_of_bind hrun
  obtain ⟨-, new', hne', hg'⟩ := hp o new hr hne hg a b' hrun
  exact hf a b' o new' hr hne' hg' c b'' hrun'

theorem pure {R : α → Prop} {a : α} (ha : R a) : Goes R (Pure.pure a) b := of_yields (.pure ha)

theorem of_readable {R : α → Prop} (h : Readable b → Goes R p b) : Goes R p b :=
  fun o new hr hne hg => h (hg.readable hr) o new hr hne hg

theorem ahead_bind {R : α → Prop} {f : List Token → Parse α} (h : Goes R (f b.ahead) b) :
    Goes R (Grammar.ahead >>= f) b := h

/-- Any step of which something is known, and one that goes on. -/
theorem yields_bind {Q : α → Builder → List Tree → Prop} {R : β → Prop} {f : α → Parse β}
    (hp : Yields p b Q) (hf : ∀ a b' new, Q a b' new → Goes R (f a) b') :
    Goes R (p >>= f) b := by
  intro o new hr hne hg c b'' hrun
  obtain ⟨a, b', hrun, hrun'⟩ := exists_of_bind hrun
  obtain ⟨new', hg', hq⟩ := hp (hg.readable hr) a b' hrun
  exact hf a b' new' hq o (new ++ new') hr (by simp [hne]) (hg.trans hg') c b'' hrun'

/-- Any step, and one that goes on. -/
theorem steady_bind {R : β → Prop} {f : α → Parse β} (hp : Steady p)
    (hf : ∀ a b', Goes R (f a) b') : Goes R (p >>= f) b :=
  yields_bind (hp b) fun a b' _ _ => hf a b'

theorem steady (hp : Steady p) : Goes (fun _ => True) p b := of_yields (hp b)

theorem atText_bind {R : α → Prop} {text : String} {f : Bool → Parse α} (ht : text ≠ "")
    (h₁ : More b → Goes R (f true) b) (h₂ : Goes R (f false) b) :
    Goes R (Grammar.atText text >>= f) b := by
  intro o new hr hne hg
  change ∀ a b', f (startsText b.ahead text) b = .ok (a, b') → _
  cases hs : startsText b.ahead text with
  | true => exact h₁ (more_of_startsText (hg.readable hr) hs ht) o new hr hne hg
  | false => exact h₂ o new hr hne hg

theorem ite {c : Prop} [Decidable c] {R : α → Prop} (hp : c → Goes R p b) (hq : ¬c → Goes R q b) :
    Goes R (if c then p else q) b := by
  split
  · exact hp ‹_›
  · exact hq ‹_›

theorem wrapLast {R : α → Prop} {kind : NodeKind} (hk : kind.isPlain = true)
    (hp : ∀ b, Yields p b (Gives R)) : Goes R (Grammar.wrapLast kind p) b := by
  intro o new hr hne hg a b'' hrun
  obtain ⟨init, x, rfl⟩ := List.eq_nil_or_concat' new |>.resolve_left hne
  have hparts : b.parts.toList = (o.parts.toList ++ init) ++ [x] := by simp [hg.parts]
  obtain ⟨b', hinner, rfl⟩ := exists_of_wrapLast hparts hrun
  obtain ⟨inner, hg', ha⟩ := hp { b with parts := #[x] } (hg.readable hr) a b' hinner
  refine ⟨ha, init ++ [.node kind (x :: inner)], by simp, hg.wrapLast hg' ?_ fun _ => .of_plain hk⟩
  exact .of_plain hk (List.cons_ne_nil x inner)

end Goes

theorem Yields.goes {Q : α → Builder → List Tree → Prop} {R : β → Prop} {p : Parse α}
    {f : α → Parse β} (hp : Yields p b Q) (hne : ∀ a b' new, Q a b' new → new ≠ [])
    (hf : ∀ a b' new, Q a b' new → Goes R (f a) b') :
    Yields (p >>= f) b fun a _ new => R a ∧ new ≠ [] := by
  intro hb c b'' hrun
  obtain ⟨a, b', hrun, hrun'⟩ := exists_of_bind hrun
  obtain ⟨new, hg, hq⟩ := hp hb a b' hrun
  obtain ⟨ha, new', hne', hg'⟩ := hf a b' new hq b new hb (hne _ _ _ hq) hg c b'' hrun'
  exact ⟨new', hg', ha, hne'⟩

/-- A token, and steps behind it that may change the last part and rely on what comes next. -/
theorem Yields.bump_goes {R : α → Prop} {f : Unit → Parse α} (hb : More b)
    (hf : ∀ b' t, b.ahead = t :: b'.ahead → Goes R (f ()) b') :
    Yields (bump >>= f) b fun a _ new => R a ∧ new ≠ [] := by
  refine (yields_bump hb).goes (fun _ _ _ h => ?_) fun _ b' _ h => ?_
  · obtain ⟨t, -, rfl⟩ := h
    simp
  · obtain ⟨t, ht, -⟩ := h
    exact hf b' t ht

/-- A token, and steps behind it that may change the last part. -/
theorem yields_bump_goes {f : Unit → Parse α} (hb : More b)
    (hf : ∀ b', Goes (fun _ => True) (f ()) b') : Yields (bump >>= f) b Something :=
  (Yields.bump_goes hb fun b' _ _ => hf b').imp fun _ _ _ _ h => h.2

/-- A token, and steps behind it that give the kind of the node. -/
theorem yields_nodeOf_bump {K : NodeKind → Prop} {f : Unit → Parse NodeKind} (hb : More b)
    (hf : ∀ b', Goes (fun kind => K kind ∧ kind.isPlain = true) (f ()) b') :
    Yields (nodeOf (bump >>= f)) b (One K) := by
  refine yields_nodeOf ((Yields.bump_goes hb.fresh fun b' _ _ => hf b').imp ?_)
  rintro kind b' new - ⟨⟨hK, hk⟩, hne⟩
  exact ⟨hK, .of_plain hk hne⟩

theorem Yields.found_of_tried {K : NodeKind → Prop} {p : Parse Bool} (hp : Yields p b (Tried K b)) :
    Yields p b fun found _ new => found = true → new ≠ [] := by
  refine hp.imp fun found _ new _ h hfound => ?_
  subst hfound
  obtain ⟨x, rfl, -⟩ := h
  simp

theorem Yields.found_of_required {P : Tree → Prop} {p : Parse Bool}
    (hp : Yields p b (Required P)) : Yields p b fun found _ new => found = true → new ≠ [] := by
  refine hp.imp fun found _ new _ h hfound => ?_
  subst hfound
  obtain ⟨x, rfl, -⟩ := h
  simp

/-- Behind what is found, a step may change it, and what is not found may be looked for in another
way. -/
theorem Yields.tried_goes {K : NodeKind → Prop} {Q : α → Builder → List Tree → Prop} {R : α → Prop}
    {p : Parse Bool} {f : Bool → Parse α} (hp : Yields p b (Tried K b))
    (ht : ∀ b', Goes R (f true) b') (hf : Yields (f false) b Q)
    (hq : ∀ a b' new, R a → new ≠ [] → Q a b' new) : Yields (p >>= f) b Q := by
  intro hb c b'' hrun
  obtain ⟨found, b', hrun, hrun'⟩ := exists_of_bind hrun
  obtain ⟨new, hg, h⟩ := hp hb found b' hrun
  cases found with
  | true =>
    obtain ⟨x, rfl, -⟩ := h
    obtain ⟨ha, new', hne, hg'⟩ := ht b' b [x] hb (by simp) hg c b'' hrun'
    exact ⟨new', hg', hq _ _ _ ha hne⟩
  | false =>
    obtain ⟨rfl, -⟩ := h
    exact hf hb c b'' hrun'

/-- Behind what is found, a step may change it. -/
theorem Yields.found_goes {p : Parse Bool} {f : Bool → Parse α}
    (hp : Yields p b fun found _ new => found = true → new ≠ [])
    (ht : ∀ b', Goes (fun _ => True) (f true) b') (hf : Steady (f false)) :
    Yields (p >>= f) b Anything := by
  intro hb c b'' hrun
  obtain ⟨found, b', hrun, hrun'⟩ := exists_of_bind hrun
  obtain ⟨new, hg, hfound⟩ := hp hb found b' hrun
  cases found with
  | true =>
    obtain ⟨-, new', -, hg'⟩ := ht b' b new hb (hfound rfl) hg c b'' hrun'
    exact ⟨new', hg', trivial⟩
  | false =>
    obtain ⟨new', hg', -⟩ := hf b' (hg.readable hb) c b'' hrun'
    exact ⟨new ++ new', hg.trans hg', trivial⟩

end PluginLint.Grammar
