import PluginLint.Proofs.Progress.Lookahead

/-!
# Steps that do not panic

`Runs` says that a step comes to its end wherever its tokens are ahead, and what is left of them
then. `Safe` says it of every place with few enough tokens, and is all that is needed behind a first
token; a loop ends because each round but its last leaves fewer tokens. A step that begins by placing
a token is no more than `Ready`: what comes before it has to have seen that there is one. As before
there is one rule for each way of putting steps together.
-/
namespace PluginLint.Grammar

/-- With the tokens `ts` ahead the step does not panic, it takes tokens from their front only and
leaves their end, and `Q` holds of its result and of the tokens left. -/
def Runs (p : Parse α) (ts : List Token) (Q : α → List Token → Prop) : Prop :=
  Legible ts → ∀ b : Builder, b.ahead = ts →
    ∃ a b', p b = .ok (a, b') ∧ b'.ahead <:+ ts ∧ b'.ahead ≠ [] ∧ Q a b'.ahead

/-- Whatever is left. -/
def Any : α → List Token → Prop := fun _ _ => True

/-- At least one of the tokens `ts` has been taken. -/
def Shorter (ts : List Token) : α → List Token → Prop := fun _ rest => rest.length < ts.length

/-- If the step found what it looked for, it has taken at least one of the tokens `ts`. -/
def Tries (ts : List Token) : Bool → List Token → Prop :=
  fun found rest => found = true → rest.length < ts.length

theorem Legible.of_suffix {ts rest : List Token} (h : Legible ts) (hs : rest <:+ ts)
    (hne : rest ≠ []) : Legible rest := by
  refine ⟨?_, fun t ht => h.marks t (hs.subset ht)⟩
  obtain ⟨moved, rfl⟩ := hs
  obtain ⟨init, leading, hts, hinit⟩ := h.ended
  obtain ⟨last, e, rfl⟩ := (List.eq_nil_or_concat' rest).resolve_left hne
  rw [← List.append_assoc] at hts
  obtain ⟨hfront, hlast⟩ := List.append_inj' hts rfl
  refine ⟨last, leading, by rw [hlast], fun t ht => hinit t ?_⟩
  rw [← hfront]
  exact List.mem_append_right moved ht

theorem Legible.ne_nil {ts : List Token} (h : Legible ts) : ts ≠ [] := by
  obtain ⟨init, leading, rfl, -⟩ := h.ended
  simp

/-- A token with a text is not the end of the file. -/
theorem Legible.not_startsEnd {ts : List Token} (h : Legible ts) {text : String}
    (hs : startsText ts text = true) (ht : text ≠ "") : startsEnd ts = false :=
  more_of_startsText (b := { ahead := ts }) h.ended hs ht

/-- Neither is one further on. -/
theorem Legible.not_startsEnd_drop {ts : List Token} (h : Legible ts) {k : Nat} {text : String}
    (hs : textAt ts k = text) (ht : text ≠ "") : startsEnd (ts.drop k) = false :=
  not_startsEnd_of_textAt (b := { ahead := ts }) h.ended (hs ▸ ht)

theorem Legible.not_startsEnd_either {ts : List Token} (h : Legible ts) {text text' : String}
    (hs : (startsText ts text || startsText ts text') = true) (ht : text ≠ "") (ht' : text' ≠ "") :
    startsEnd ts = false := by
  rcases Bool.or_eq_true_iff.1 hs with hs | hs
  · exact h.not_startsEnd hs ht
  · exact h.not_startsEnd hs ht'

theorem not_startsEnd_of_identifier {ts : List Token} (h : startsIdentifier ts = true) :
    startsEnd ts = false :=
  more_of_startsIdentifier (b := { ahead := ts }) h

theorem not_startsEnd_of_kind {ts : List Token} (h : kindAt ts 0 ≠ .endOfFile) :
    startsEnd ts = false :=
  more_of_kindAt (b := { ahead := ts }) h

theorem not_startsEnd_of_predefined {ts : List Token} (h : startsPredefined ts = true) :
    startsEnd ts = false := by
  simp only [startsPredefined, Bool.and_eq_true, beq_iff_eq] at h
  exact not_startsEnd_of_kind (by simp [h.1])

/-- Where a loop goes on that stops at the end of the file, among others, there is a token. -/
theorem not_startsEnd_of_goesOn {ts : List Token} {stops : Bool}
    (h : ¬(startsEnd ts || stops) = true) : startsEnd ts = false := by
  simp only [Bool.or_eq_true, not_or, Bool.not_eq_true] at h
  exact h.1

namespace Runs

variable {p q : Parse α} {f : α → Parse β} {ts : List Token} {Q : α → List Token → Prop}

theorem of_legible (h : Legible ts → Runs p ts Q) : Runs p ts Q := fun hl => h hl hl

theorem imp {R : α → List Token → Prop} (h : Runs p ts Q)
    (hr : ∀ a rest, rest.length ≤ ts.length → Q a rest → R a rest) : Runs p ts R := by
  intro hl b hb
  obtain ⟨a, b', hrun, hs, hne, hq⟩ := h hl b hb
  exact ⟨a, b', hrun, hs, hne, hr _ _ hs.length_le hq⟩

theorem any (h : Runs p ts Q) : Runs p ts Any := h.imp fun _ _ _ _ => trivial

/-- What is left is the end of what was ahead. -/
theorem suffix (h : Runs p ts Q) : Runs p ts fun a rest => rest <:+ ts ∧ Q a rest := by
  intro hl b hb
  obtain ⟨a, b', hrun, hs, hne, hq⟩ := h hl b hb
  exact ⟨a, b', hrun, hs, hne, hs, hq⟩

theorem pure {a : α} (h : Q a ts) : Runs (Pure.pure a) ts Q := by
  intro hl b hb
  subst hb
  exact ⟨a, b, rfl, List.suffix_rfl, hl.ne_nil, h⟩

/-- One step after the other. -/
theorem bind {R : β → List Token → Prop} (hp : Runs p ts Q)
    (hf : ∀ a rest, rest.length ≤ ts.length → Q a rest → Runs (f a) rest R) :
    Runs (p >>= f) ts R := by
  intro hl b hb
  obtain ⟨a, b', hrun, hs, hne, hq⟩ := hp hl b hb
  obtain ⟨c, b'', hrun', hs', hne', hr⟩ :=
    hf a b'.ahead hs.length_le hq (hl.of_suffix hs hne) b' rfl
  refine ⟨c, b'', ?_, hs'.trans hs, hne', hr⟩
  change (p b >>= fun r => f r.1 r.2) = _
  rw [hrun]
  exact hrun'

/-- A step that has taken tokens, and one behind it. -/
theorem bind_shorter (hp : Runs p ts (Shorter ts))
    (hf : ∀ a rest, rest.length < ts.length → Runs (f a) rest Any) :
    Runs (p >>= f) ts (Shorter ts) := by
  refine hp.bind fun a rest _ hlt => (hf a rest hlt).imp fun _ rest' hle _ => ?_
  simp only [Shorter] at hlt ⊢
  omega

theorem ite {c : Prop} [Decidable c] (hp : c → Runs p ts Q) (hq : ¬c → Runs q ts Q) :
    Runs (if c then p else q) ts Q := by
  split
  · exact hp ‹_›
  · exact hq ‹_›

theorem discard (h : Runs p ts Q) : Runs (Functor.discard p) ts fun _ rest => ∃ a, Q a rest :=
  h.bind fun a _ _ ha => .pure ⟨a, ha⟩

theorem of_bind_pure (h : Runs (p >>= Pure.pure) ts Q) : Runs p ts Q := by
  rwa [bind_pure] at h

/-- What is tried by one step and, if it is not found, by another where the first one stopped. -/
theorem tries_or {p q : Parse Bool} (hp : Runs p ts (Tries ts))
    (hq : ∀ rest, rest.length ≤ ts.length → Runs q rest (Tries rest)) :
    Runs (p >>= fun found => if found = true then Pure.pure true else q) ts (Tries ts) := by
  refine hp.bind fun found rest hle hfound => .ite (fun h => ?_) fun _ => ?_
  · exact .pure fun _ => hfound h
  · exact (hq rest hle).imp fun found' rest' _ hfound' h => Nat.lt_of_lt_of_le (hfound' h) hle

/-- Behind what is found the step goes on, and otherwise it gives up. -/
theorem tries_then {p : Parse Bool} {f : Parse Bool} (hp : Runs p ts (Tries ts))
    (hf : ∀ rest, rest.length < ts.length → Runs f rest Any) :
    Runs (p >>= fun found => if found = true then f else Pure.pure false) ts (Tries ts) := by
  refine hp.bind fun found rest _ hfound => .ite (fun h => ?_) fun _ => .pure fun h => by cases h
  refine (hf rest (hfound h)).imp fun _ rest' hle _ _ => ?_
  exact Nat.lt_of_le_of_lt hle (hfound h)

/-- The same, where giving up is written first. -/
theorem tries_unless {p : Parse Bool} {f : Parse Bool} (hp : Runs p ts (Tries ts))
    (hf : ∀ rest, rest.length < ts.length → Runs f rest Any) :
    Runs (p >>= fun found => if (!found) = true then Pure.pure false else f) ts (Tries ts) := by
  refine hp.bind fun found rest _ hfound => .ite (fun _ => .pure fun h => by cases h) fun h => ?_
  have hf' : found = true := by simpa using h
  refine (hf rest (hfound hf')).imp fun _ rest' hle _ _ => ?_
  exact Nat.lt_of_le_of_lt hle (hfound hf')

theorem tries_none : Runs (Pure.pure false) ts (Tries ts) := .pure fun h => by cases h

/-- What takes tokens is found. -/
theorem tries_of_shorter {p : Parse Bool} (h : Runs p ts (Shorter ts)) : Runs p ts (Tries ts) :=
  h.imp fun _ _ _ hlt _ => hlt

theorem return_true (h : Runs p ts (Shorter ts)) :
    Runs (p >>= fun _ => Pure.pure true) ts (Tries ts) :=
  tries_of_shorter (h.bind_shorter fun _ _ _ => .pure trivial)

end Runs

/-! ### Looking at tokens -/

section Looking

variable {ts : List Token} {Q : α → List Token → Prop}

/-- A step that only looks sees the tokens ahead. -/
theorem Runs.see_bind {p : Parse β} {s : List Token → β} {f : β → Parse α}
    (hp : ∀ b, p b = .ok (s b.ahead, b)) (h : Runs (f (s ts)) ts Q) : Runs (p >>= f) ts Q := by
  intro hl b hb
  subst hb
  obtain ⟨a, b', hrun, hrest⟩ := h hl b rfl
  refine ⟨a, b', ?_, hrest⟩
  change (p b >>= fun r => f r.1 r.2) = _
  rw [hp]
  exact hrun

theorem Runs.ahead_bind {f : List Token → Parse α} (h : Runs (f ts) ts Q) :
    Runs (ahead >>= f) ts Q := .see_bind (s := id) (fun _ => rfl) h

theorem Runs.upcoming_bind {f : List Token → Parse α} (h : Runs (f ts) ts Q) :
    Runs (upcoming >>= f) ts Q := by
  intro hl b hb
  subst hb
  have hne : b.ahead.isEmpty = false := by simpa using hl.ne_nil
  obtain ⟨a, b', hrun, hrest⟩ := h hl b rfl
  refine ⟨a, b', ?_, hrest⟩
  change (if b.ahead.isEmpty then throw .pastEnd else Pure.pure b.ahead : Parse (List Token)) b
    >>= (fun r => f r.1 r.2) = _
  rw [hne]
  exact hrun

theorem Runs.orPanic_bind {x : Except Panic β} {f : β → Parse α} (hx : Answers x)
    (h : ∀ a, x = .ok a → Runs (f a) ts Q) : Runs (orPanic x >>= f) ts Q := by
  obtain ⟨a, rfl, -⟩ := hx
  exact h a rfl

theorem Runs.look_bind {x : List Token → Except Panic β} {f : β → Parse α} (hx : Answers (x ts))
    (h : ∀ a, x ts = .ok a → Runs (f a) ts Q) : Runs (look x >>= f) ts Q := by
  intro hl b hb
  subst hb
  exact Runs.orPanic_bind hx h hl b rfl

theorem Runs.seeText_bind {text : String} {f : Bool → Parse α}
    (h : Runs (f (startsText ts text)) ts Q) : Runs (atText text >>= f) ts Q :=
  .see_bind (s := fun ts => startsText ts text) (fun _ => rfl) h

theorem Runs.seeEnd_bind {f : Bool → Parse α} (h : Runs (f (startsEnd ts)) ts Q) :
    Runs (atEnd >>= f) ts Q :=
  .see_bind (s := startsEnd) (fun _ => rfl) h

/-- What is seen decides how the step goes on. -/
theorem Runs.of_cases {c : Bool} {f : Bool → Parse α} (h₁ : c = true → Runs (f true) ts Q)
    (h₂ : c = false → Runs (f false) ts Q) : Runs (f c) ts Q := by
  cases hc : c with
  | true => exact h₁ hc
  | false => exact h₂ hc

theorem Runs.atText_bind {text : String} {f : Bool → Parse α}
    (h₁ : startsText ts text = true → Runs (f true) ts Q) (h₂ : Runs (f false) ts Q) :
    Runs (atText text >>= f) ts Q :=
  .seeText_bind (.of_cases h₁ fun _ => h₂)

theorem Runs.atIdentifier_bind {f : Bool → Parse α}
    (h₁ : startsIdentifier ts = true → Runs (f true) ts Q) (h₂ : Runs (f false) ts Q) :
    Runs (atIdentifier >>= f) ts Q :=
  .see_bind (s := startsIdentifier) (fun _ => rfl) (.of_cases h₁ fun _ => h₂)

theorem Runs.atWord_bind {word : String} {f : Bool → Parse α}
    (h₁ : startsWord ts word = true → Runs (f true) ts Q) (h₂ : Runs (f false) ts Q) :
    Runs (atWord word >>= f) ts Q :=
  .see_bind (s := fun ts => startsWord ts word) (fun _ => rfl) (.of_cases h₁ fun _ => h₂)

theorem Runs.atEnd_bind {f : Bool → Parse α} (h₁ : Runs (f true) ts Q)
    (h₂ : startsEnd ts = false → Runs (f false) ts Q) : Runs (atEnd >>= f) ts Q :=
  .seeEnd_bind (.of_cases (fun _ => h₁) h₂)

theorem runs_isBlankNode : Runs isBlankNode ts Any := by
  intro hl b hb
  subst hb
  exact ⟨_, b, rfl, List.suffix_rfl, hl.ne_nil, trivial⟩

end Looking

/-! ### Steps that are safe wherever few enough tokens are ahead -/

/-- The step runs wherever fewer tokens than `n` are ahead, counting one that came before. -/
def Safe (n : Nat) (p : Parse α) : Prop := ∀ ts, ts.length + 1 < n → Runs p ts Any

/-- The same, as long as the end of the file is not the next token. -/
def Ready (n : Nat) (p : Parse α) : Prop :=
  ∀ ts, ts.length + 1 < n → startsEnd ts = false → Runs p ts Any

namespace Safe

variable {n : Nat} {p q : Parse α} {f : α → Parse β}

theorem pure (a : α) : Safe n (Pure.pure a) := fun _ _ => .pure trivial

theorem bind (hp : Safe n p) (hf : ∀ a, Safe n (f a)) : Safe n (p >>= f) :=
  fun ts hts => (hp ts hts).bind fun a rest _ _ => hf a rest (by omega)

theorem ite {c : Prop} [Decidable c] (hp : Safe n p) (hq : Safe n q) :
    Safe n (if c then p else q) :=
  fun ts hts => .ite (fun _ => hp ts hts) fun _ => hq ts hts

theorem discard (hp : Safe n p) : Safe n (Functor.discard p) := hp.bind fun _ => .pure _

/-- A step that also runs in front of one token more. -/
theorem of_runs {Q : List Token → α → List Token → Prop}
    (h : ∀ ts, ts.length < n → Runs p ts (Q ts)) : Safe n p :=
  fun ts hts => (h ts (by omega)).any

theorem ahead : Safe n ahead := fun _ _ => .of_bind_pure (.ahead_bind (.pure trivial))

theorem upcoming : Safe n upcoming := fun _ _ =>
  .of_bind_pure (.upcoming_bind (.pure trivial))

theorem atText (text : String) : Safe n (atText text) := ahead.bind fun _ => .pure _

theorem isBlankNode : Safe n isBlankNode := fun _ _ => runs_isBlankNode

theorem look {x : List Token → Except Panic α} (hx : ∀ ts, ts.length < n → Answers (x ts)) :
    Safe n (look x) :=
  fun ts hts => .of_bind_pure (.look_bind (hx ts (by omega)) fun _ _ => .pure trivial)

/-- What may rely on the text that comes next. -/
theorem atText_bind {text : String} {f : Bool → Parse α}
    (h₁ : ∀ ts, ts.length + 1 < n → startsText ts text = true → Runs (f true) ts Any)
    (h₂ : Safe n (f false)) : Safe n (Grammar.atText text >>= f) :=
  fun ts hts => .atText_bind (h₁ ts hts) (h₂ ts hts)

/-- What begins with a token comes behind a look at it. -/
theorem ifText {text : String} (ht : text ≠ "") (hp : Ready n p) (hq : Safe n q) :
    Safe n (Grammar.atText text >>= fun found => if found = true then p else q) :=
  fun ts hts => .of_legible fun hl =>
    .atText_bind (fun h => hp ts hts (hl.not_startsEnd h ht)) (hq ts hts)

theorem ifEitherText {text text' : String} (ht : text ≠ "") (ht' : text' ≠ "") (hp : Ready n p)
    (hq : Safe n q) : Safe n (do
      if (← Grammar.atText text) || (← Grammar.atText text') then p else q) :=
  fun ts hts => .of_legible fun hl => .seeText_bind (.seeText_bind (.ite
    (fun h => hp ts hts (hl.not_startsEnd_either h ht ht')) fun _ => hq ts hts))

theorem ifIdentifier (hp : Ready n p) (hq : Safe n q) :
    Safe n (Grammar.atIdentifier >>= fun found => if found = true then p else q) :=
  fun ts hts => .atIdentifier_bind (fun h => hp ts hts (not_startsEnd_of_identifier h)) (hq ts hts)

theorem ifWord {word : String} (hp : Ready n p) (hq : Safe n q) :
    Safe n (Grammar.atWord word >>= fun found => if found = true then p else q) :=
  fun ts hts => .atWord_bind
    (fun h => hp ts hts (not_startsEnd_of_identifier (Bool.and_eq_true_iff.1 h).1)) (hq ts hts)

end Safe

namespace Ready

variable {n : Nat} {p : Parse α} {f : α → Parse β}

theorem of_runs {Q : List Token → α → List Token → Prop}
    (h : ∀ ts, ts.length < n → startsEnd ts = false → Runs p ts (Q ts)) : Ready n p :=
  fun ts hts he => (h ts (by omega) he).any

theorem bind (hp : Ready n p) (hf : ∀ a, Safe n (f a)) : Ready n (p >>= f) :=
  fun ts hts he => (hp ts hts he).bind fun a rest _ _ => hf a rest (by omega)

end Ready

/-! ### Placing tokens -/

section Placing

variable {n : Nat} {ts : List Token}

theorem runs_place (f : Token → Token) (h : startsEnd ts = false) :
    Runs (place f) ts fun _ rest => rest = ts.drop 1 := by
  intro hl b hb
  subst hb
  cases ht : b.ahead with
  | nil => exact absurd ht hl.ne_nil
  | cons t rest =>
    have he : t.isEnd = false := by simpa [startsEnd, nth, ht] using h
    have hrest : rest ≠ [] := by
      rintro rfl
      obtain ⟨init, leading, hts, -⟩ := hl.ended
      rw [ht] at hts
      have hends : [] ++ [t] = init ++ [Token.endOfFile leading] := hts
      obtain ⟨-, hlast⟩ := List.append_inj' hends rfl
      simp [List.cons_eq_cons.1 hlast, Token.endOfFile, Token.isEnd] at he
    exact ⟨(), { b with
      ahead := rest, offset := b.offset + t.width, parts := b.parts.push (.leaf (f t)) },
      by simp [place, ht, he], List.suffix_cons t rest, hrest, rfl⟩

/-- A token is placed, and what follows sees the tokens behind it. -/
theorem Runs.place_bind {f : Token → Token} {k : Unit → Parse α} {Q : α → List Token → Prop}
    (h : startsEnd ts = false)
    (hk : (ts.drop 1).length < ts.length → Runs (k ()) (ts.drop 1) Q) :
    Runs (place f >>= k) ts Q := by
  refine .of_legible fun hl => (runs_place f h).bind fun _ rest _ hrest => ?_
  subst hrest
  have := List.length_pos_of_ne_nil hl.ne_nil
  exact hk (by rw [List.length_drop]; omega)

/-- The same, where nothing more is known of the end. -/
theorem Runs.place_next {f : Token → Token} {k : Unit → Parse α} (h : startsEnd ts = false)
    (hk : (ts.drop 1).length < ts.length → Runs (k ()) (ts.drop 1) Any) :
    Runs (place f >>= k) ts (Shorter ts) :=
  .place_bind h fun hlt => (hk hlt).imp fun _ _ hle _ => Nat.lt_of_le_of_lt hle hlt

theorem runs_place_shorter (f : Token → Token) (h : startsEnd ts = false) :
    Runs (place f) ts (Shorter ts) :=
  .of_bind_pure (.place_bind h fun hlt => .pure hlt)

theorem runs_bump (h : startsEnd ts = false) : Runs bump ts (Shorter ts) := runs_place_shorter id h

theorem ready_bump : Ready n bump := .of_runs fun _ _ => runs_bump

/-- A token and any steps behind it. -/
theorem Runs.place_then {f : Token → Token} {k : Unit → Parse α} (h : startsEnd ts = false)
    (hn : ts.length < n) (hk : Safe n (k ())) : Runs (place f >>= k) ts (Shorter ts) :=
  (runs_place_shorter f h).bind_shorter fun _ rest hlt => hk rest (by omega)

theorem Runs.bump_then {k : Unit → Parse α} (h : startsEnd ts = false)
    (hn : ts.length < n) (hk : Safe n (k ())) : Runs (bump >>= k) ts (Shorter ts) :=
  .place_then h hn hk

theorem Runs.bumpKeyword_then {k : Unit → Parse α} (h : startsEnd ts = false)
    (hn : ts.length < n) (hk : Safe n (k ())) : Runs (bumpKeyword >>= k) ts (Shorter ts) :=
  .place_then h hn hk

/-- In front of a token that is there, there is no end of the file. -/
theorem Legible.not_startsEnd_of_drop (h : Legible ts) {k : Nat}
    (hk : startsEnd (ts.drop k) = false) : startsEnd ts = false := by
  obtain ⟨init, leading, rfl, hinit⟩ := h.ended
  cases init with
  | nil => cases k <;> simp [startsEnd, nth, Token.endOfFile, Token.isEnd] at hk
  | cons t init => simpa [startsEnd, nth] using (hinit t (by simp)).1

/-- A token and steps behind it that begin with another one. -/
theorem Runs.place_ready {f : Token → Token} {k : Unit → Parse α}
    (h : startsEnd (ts.drop 1) = false) (hn : ts.length < n) (hk : Ready n (k ())) :
    Runs (place f >>= k) ts (Shorter ts) :=
  .of_legible fun hl => .place_next (hl.not_startsEnd_of_drop h) fun _ => hk _ (by omega) h

theorem Runs.bump_ready {k : Unit → Parse α} (h : startsEnd (ts.drop 1) = false)
    (hn : ts.length < n) (hk : Ready n (k ())) : Runs (bump >>= k) ts (Shorter ts) :=
  .place_ready h hn hk

theorem Runs.bumpKeyword_ready {k : Unit → Parse α} (h : startsEnd (ts.drop 1) = false)
    (hn : ts.length < n) (hk : Ready n (k ())) : Runs (bumpKeyword >>= k) ts (Shorter ts) :=
  .place_ready h hn hk

/-- Tokens up to one that is there can all be placed. -/
theorem runs_bumpMany {k : Nat} (h : startsEnd (ts.drop k) = false) :
    Runs (bumpMany (k + 1)) ts fun _ rest => rest = ts.drop (k + 1) := by
  induction k generalizing ts with
  | zero => exact .place_bind h fun _ => .pure rfl
  | succ k ih =>
    refine .of_legible fun hl => .place_bind (hl.not_startsEnd_of_drop h) fun _ => ?_
    refine (ih (by simpa using h)).imp fun _ rest _ hrest => ?_
    rw [hrest, List.drop_drop, Nat.add_comm]

/-- Tokens that are all there, and a step that may rely on what comes behind them. -/
theorem Runs.bumpMany_next {k : Nat} {f : Unit → Parse α} (h : startsEnd (ts.drop k) = false)
    (hf : (ts.drop (k + 1)).length < ts.length → Runs (f ()) (ts.drop (k + 1)) Any) :
    Runs (bumpMany (k + 1) >>= f) ts (Shorter ts) := by
  refine .of_legible fun hl => (runs_bumpMany h).bind fun _ rest _ hrest => ?_
  have hpos := List.length_pos_of_ne_nil hl.ne_nil
  have hlt : (ts.drop (k + 1)).length < ts.length := by
    rw [List.length_drop]
    omega
  subst hrest
  exact (hf hlt).imp fun _ _ hle _ => Nat.lt_of_le_of_lt hle hlt

/-- Words in front of a token that is there can all be placed. -/
theorem runs_bumpKeywords {k : Nat} (h : startsEnd (ts.drop k) = false) :
    Runs (bumpKeywords k) ts fun _ rest => rest = ts.drop k := by
  induction k generalizing ts with
  | zero => exact .pure rfl
  | succ k ih =>
    refine .of_legible fun hl => ?_
    have he : startsEnd ts = false := hl.not_startsEnd_of_drop h
    refine .seeEnd_bind ?_
    rw [he]
    refine .place_bind he fun _ => (ih (by simpa using h)).imp fun _ rest _ hrest => ?_
    rw [hrest, List.drop_drop, Nat.add_comm]

end Placing

/-! ### Problems -/

section Problems

variable {n : Nat} {ts : List Token}

theorem runs_report (message : String) : Runs (report message) ts fun _ rest => rest = ts := by
  intro hl b hb
  subst hb
  have stay : ∀ errors : List ParseError, ∃ a b', Except.ok (ε := Panic) ((), { b with errors }) =
      .ok (a, b') ∧ b'.ahead <:+ b.ahead ∧ b'.ahead ≠ [] ∧ b'.ahead = b.ahead :=
    fun errors => ⟨(), { b with errors }, rfl, List.suffix_rfl, hl.ne_nil, rfl⟩
  unfold report
  split
  · exact absurd ‹_› hl.ne_nil
  dsimp only
  split
  · split
    · exact stay b.errors
    · exact stay _
  · exact stay _

theorem safe_report (message : String) : Safe n (report message) :=
  fun _ _ => (runs_report message).any

/-- The next token is placed if it has a text that is not that of the end. -/
theorem runs_eat (text : String) : Runs (eat text) ts (Tries ts) := by
  refine .seeText_bind ?_
  refine .seeEnd_bind (.ite (fun h => ?_) fun _ => .tries_none)
  have he : startsEnd ts = false := by simpa using (Bool.and_eq_true_iff.1 h).2
  exact (runs_bump he).return_true

theorem safe_eat (text : String) : Safe n (eat text) := fun _ _ => (runs_eat text).any

theorem runs_expect (text : String) : Runs (expect text) ts (Tries ts) :=
  (runs_eat text).bind fun _ _ _ hate => .ite (fun h => .pure fun _ => hate h) fun _ =>
    (runs_report _).bind fun _ _ _ _ => .pure fun h => by cases h

theorem safe_expect (text : String) : Safe n (expect text) := fun _ _ => (runs_expect text).any

/-- The next token has this text and is placed. -/
theorem runs_eat_of {text : String} (h : startsText ts text = true) (ht : text ≠ "") :
    Runs (eat text) ts (Shorter ts) := by
  refine .of_legible fun hl => ?_
  have he := hl.not_startsEnd h ht
  refine .seeText_bind ?_
  refine .seeEnd_bind ?_
  rw [h, he]
  exact (runs_bump he).bind_shorter fun _ _ _ => .pure trivial

theorem runs_expect_of {text : String} (h : startsText ts text = true) (ht : text ≠ "") :
    Runs (expect text) ts (Shorter ts) :=
  (runs_eat_of h ht).bind_shorter fun _ _ _ => .ite (fun _ => .pure trivial) fun _ =>
    (runs_report _).bind fun _ _ _ _ => .pure trivial

theorem runs_expectIdentifier : Runs expectIdentifier ts (Tries ts) :=
  .atIdentifier_bind (fun h => (runs_bump (not_startsEnd_of_identifier h)).return_true)
    ((runs_report _).bind fun _ _ _ _ => .pure fun h => by cases h)

theorem safe_expectIdentifier : Safe n expectIdentifier := fun _ _ => runs_expectIdentifier.any

theorem runs_orReport {p : Parse Bool} {message : String} (hp : Runs p ts (Tries ts)) :
    Runs (orReport p message) ts (Tries ts) :=
  hp.bind fun _ _ _ hfound => .ite (fun h => .pure fun _ => hfound h) fun _ =>
    (runs_report _).bind fun _ _ _ _ => .pure fun h => by cases h

theorem safe_orReport {p : Parse Bool} {message : String} (hp : Safe n p) :
    Safe n (orReport p message) :=
  hp.bind fun _ => .ite (.pure true) ((safe_report message).bind fun _ => .pure false)

/-- What is sure to be found is not given up. -/
theorem runs_orGiveUp {p : Parse Bool} {Q : List Token → Prop}
    (hp : Runs p ts fun found rest => found = true ∧ Q rest) :
    Runs (orGiveUp p) ts fun _ rest => Q rest :=
  hp.bind fun _ _ _ hfound => .ite (fun _ => .pure hfound.2) fun h => absurd hfound.1 h

end Problems

/-! ### Nodes -/

section Nodes

variable {n : Nat} {ts : List Token} {Q : α → List Token → Prop}

/-- How parts are gathered does not matter to the tokens ahead. -/
theorem runs_gather {p : Parse α} {close : α → Array Tree → Array Tree → Array Tree}
    (hp : Runs p ts Q) : Runs (gather p close) ts Q := by
  intro hl b hb
  obtain ⟨a, b', hrun, hrest⟩ := hp hl { b with parts := #[] } hb
  refine ⟨a, { b' with parts := close a b.parts b'.parts }, ?_, hrest⟩
  rw [gather, hrun]
  rfl

theorem runs_node {kind : NodeKind} {p : Parse α} (hp : Runs p ts Q) : Runs (node kind p) ts Q :=
  runs_gather hp

theorem runs_nodeOf {p : Parse NodeKind} (hp : Runs p ts (Shorter ts)) :
    Runs (nodeOf p) ts (Shorter ts) :=
  (runs_gather hp).bind_shorter fun _ _ _ => .pure trivial

theorem runs_nodeWhen {kind : NodeKind} {p : Parse Bool} {Q : Bool → List Token → Prop}
    (hp : Runs p ts Q) : Runs (nodeWhen kind p) ts Q := runs_gather hp

theorem runs_wrapLast {kind : NodeKind} {p : Parse α} (hp : Runs p ts Q) :
    Runs (wrapLast kind p) ts Q := by
  intro hl b hb
  obtain ⟨a, b', hrun, hrest⟩ := hp hl { b with parts := (b.parts.back?.map (#[·])).getD #[] } hb
  refine ⟨a, { b' with parts := b.parts.pop.push (.node kind b'.parts.toList) }, ?_, hrest⟩
  rw [wrapLast, hrun]
  rfl

theorem runs_wrapAll {kind : NodeKind} : Runs (wrapAll kind) ts fun _ rest => rest = ts := by
  intro hl b hb
  subst hb
  exact ⟨(), _, rfl, List.suffix_rfl, hl.ne_nil, rfl⟩

theorem safe_node {kind : NodeKind} {p : Parse α} (hp : Safe n p) : Safe n (node kind p) :=
  fun ts hts => runs_node (hp ts hts)

theorem safe_nodeWhen {kind : NodeKind} {p : Parse Bool} (hp : Safe n p) :
    Safe n (nodeWhen kind p) :=
  fun ts hts => runs_nodeWhen (hp ts hts)

theorem safe_nodeUnlessBlank {kind : NodeKind} {p : Parse Unit} (hp : Safe n p) :
    Safe n (nodeUnlessBlank kind p) :=
  safe_nodeWhen (hp.bind fun _ => Safe.isBlankNode.bind fun _ => .pure _)

theorem safe_wrapLast {kind : NodeKind} {p : Parse α} (hp : Safe n p) : Safe n (wrapLast kind p) :=
  fun ts hts => runs_wrapLast (hp ts hts)

theorem ready_node {kind : NodeKind} {p : Parse α} (hp : Ready n p) : Ready n (node kind p) :=
  fun ts hts he => runs_node (hp ts hts he)

theorem ready_wrapLast {kind : NodeKind} {p : Parse α} (hp : Ready n p) :
    Ready n (wrapLast kind p) :=
  fun ts hts he => runs_wrapLast (hp ts hts he)

theorem safe_skipToken (message : String) : Safe n (skipToken message) :=
  (safe_report message).bind fun _ ts hts =>
    .atEnd_bind (.pure trivial) fun he => ready_node ready_bump ts hts he

/-- If anything is ahead, setting a token aside moves on. -/
theorem runs_skipToken (message : String) (h : startsEnd ts = false) :
    Runs (skipToken message) ts (Shorter ts) := by
  refine (runs_report message).bind fun _ rest _ hrest => ?_
  subst hrest
  refine .seeEnd_bind ?_
  rw [h]
  exact runs_node (runs_bump h)

/-- Behind steps that may have failed, setting a token aside still moves on. -/
theorem runs_skipToken_of_suffix (message : String) {rest : List Token} (hs : rest <:+ ts)
    (h : startsEnd ts = false) : Runs (skipToken message) rest (Shorter ts) := by
  cases he : startsEnd rest with
  | false =>
    refine (runs_skipToken message he).imp fun _ _ _ hlt => ?_
    exact Nat.lt_of_lt_of_le hlt hs.length_le
  | true =>
    -- The file was not at its end before, so that something has been placed already.
    have hlt : rest.length < ts.length := by
      refine Nat.lt_of_le_of_ne hs.length_le fun heq => ?_
      rw [hs.eq_of_length heq, h] at he
      cases he
    have hstay : Runs (skipToken message) rest Any := safe_skipToken message rest (Nat.lt_succ_self _)
    exact hstay.imp fun _ _ hle _ => Nat.lt_of_le_of_lt hle hlt

end Nodes

/-! ### Loops -/

section Loops

variable {n : Nat} {ts : List Token} {step : Parse Bool}

/-- A loop ends if each round but the last takes a token, and there are fewer tokens than rounds. -/
theorem runs_repeatUpTo (hstep : ∀ us, us.length ≤ ts.length → Runs step us (Tries us))
    (h : ts.length < n) : Runs (repeatUpTo n step) ts Any := by
  induction n generalizing ts with
  | zero => omega
  | succ n ih =>
    refine (hstep ts (Nat.le_refl _)).bind fun again rest _ hagain => ?_
    refine .ite (fun h => ?_) fun _ => .pure trivial
    have hlt := hagain h
    exact ih (fun us hus => hstep us (by omega)) (by omega)

theorem safe_repeatUpTo (hstep : ∀ ts, ts.length + 1 < n → Runs step ts (Tries ts)) :
    Safe n (repeatUpTo n step) :=
  fun _ hts => runs_repeatUpTo (fun us hus => hstep us (by omega)) (by omega)

theorem safe_bumpWhile (text : String) : Safe n (bumpWhile n text) :=
  safe_repeatUpTo fun _ _ => runs_eat text

/-- A comma takes a token, so that the items need not. -/
theorem safe_commaSeparated {item : Parse Bool} (h : Safe n item) :
    Safe n (commaSeparated n item) :=
  safe_repeatUpTo fun ts hts => (h ts hts).bind fun _ rest hle _ => .ite (fun _ =>
    (runs_eat ",").imp fun _ _ _ hate hfound => Nat.lt_of_lt_of_le (hate hfound) hle) fun _ =>
    .pure fun h => by cases h

/-- A round that stops at the end of the file or at a closing token. -/
theorem Runs.unlessEnd {close : String} {p : Parse Bool}
    (hp : startsEnd ts = false → Runs p ts (Tries ts)) : Runs (do
      if (← atEnd) || (← atText close) then return false
      p) ts (Tries ts) := by
  refine .atEnd_bind ?_ fun he => ?_
  · exact .seeText_bind .tries_none
  · exact .seeText_bind (.ite (fun _ => .tries_none) fun _ => hp he)

/-- A round of a loop over items with commas between them, where what is no item is set aside. -/
theorem runs_commaOrSkip {p : Parse Bool} {message : String} (hp : Runs p ts Any)
    (h : startsEnd ts = false) : Runs (do
      if ← p then eat ","
      else
        skipToken message
        return true) ts (Tries ts) := by
  refine hp.suffix.bind fun found rest hle hs => .ite (fun _ => ?_) fun _ => ?_
  · exact (runs_eat ",").imp fun _ _ _ hate h => Nat.lt_of_lt_of_le (hate h) hle
  · exact (runs_skipToken_of_suffix _ hs.1 h).bind fun _ _ _ hlt => .pure fun _ => hlt

/-- A round of a loop over items that follow one another, where what is no item is set aside. -/
theorem runs_orSkip {p : Parse Bool} {message : String} (hp : Runs p ts (Tries ts))
    (h : startsEnd ts = false) : Runs (do
      if !(← p) then skipToken message
      return true) ts (Tries ts) := by
  refine hp.suffix.bind fun found rest _ hs => .ite (fun _ => ?_) fun hfound => ?_
  · exact (runs_skipToken_of_suffix _ hs.1 h).bind fun _ _ _ hlt => .pure fun _ => hlt
  · exact .pure fun _ => hs.2 (by simpa using hfound)

end Loops

/-! ### What is known of the parts -/

/-- From this place the step does not panic, as for `Runs`. -/
def RunsFrom (p : Parse α) (b : Builder) (Q : α → List Token → Prop) : Prop :=
  Legible b.ahead →
    ∃ a b', p b = .ok (a, b') ∧ b'.ahead <:+ b.ahead ∧ b'.ahead ≠ [] ∧ Q a b'.ahead

theorem Runs.from {p : Parse α} {b : Builder} {Q : α → List Token → Prop}
    (h : Runs p b.ahead Q) : RunsFrom p b Q := fun hl => h hl b rfl

theorem Runs.of_from {p : Parse α} {ts : List Token} {Q : α → List Token → Prop}
    (h : ∀ b, b.ahead = ts → RunsFrom p b Q) : Runs p ts Q := by
  rintro hl b rfl
  exact h b rfl hl

namespace RunsFrom

variable {b : Builder} {p q : Parse α} {Q : α → List Token → Prop}

theorem of_legible (h : Legible b.ahead → RunsFrom p b Q) : RunsFrom p b Q := fun hl => h hl hl

theorem ite {c : Prop} [Decidable c] (hp : c → RunsFrom p b Q) (hq : ¬c → RunsFrom q b Q) :
    RunsFrom (if c then p else q) b Q := by
  split
  · exact hp ‹_›
  · exact hq ‹_›

/-- One step after the other, where the second may rely on the parts that the first has placed. -/
theorem bind {R : β → List Token → Prop} {S : α → Builder → List Tree → Prop} {f : α → Parse β}
    (hp : RunsFrom p b Q) (hy : Yields p b S)
    (hf : ∀ a b' new, Grown b b' new → Q a b'.ahead → S a b' new → RunsFrom (f a) b' R) :
    RunsFrom (p >>= f) b R := by
  intro hl
  obtain ⟨a, b', hrun, hs, hne, hq⟩ := hp hl
  obtain ⟨new, hg, hnew⟩ := hy hl.ended a b' hrun
  obtain ⟨c, b'', hrun', hs', hne', hr⟩ := hf a b' new hg hq hnew (hl.of_suffix hs hne)
  refine ⟨c, b'', ?_, hs'.trans hs, hne', hr⟩
  change (p b >>= fun r => f r.1 r.2) = _
  rw [hrun]
  exact hrun'

theorem isBlankNode_bind {f : Bool → Parse α} (h : RunsFrom (f b.parts.isEmpty) b Q) :
    RunsFrom (isBlankNode >>= f) b Q := h

theorem nodeOf {p : Parse NodeKind} (hp : RunsFrom p { b with parts := #[] } Any) :
    RunsFrom (nodeOf p) b Any := by
  intro hl
  obtain ⟨kind, b', hrun, hs, hne, -⟩ := hp hl
  refine ⟨(), { b' with parts := b.parts.push (.node kind b'.parts.toList) }, ?_, hs, hne, trivial⟩
  change (gather p _ b >>= fun r => .ok ((), r.2)) = _
  rw [gather, hrun]
  rfl

end RunsFrom

/-! ### Progress seen in the new parts -/

/-- New parts are made of tokens that were ahead. -/
theorem Grown.shorter {b b' : Builder} {new : List Tree} (h : Grown b b' new) (hne : new ≠ []) :
    b'.ahead.length < b.ahead.length := by
  obtain ⟨moved, hm, hr, -⟩ := h.moved
  obtain ⟨x, xs, rfl⟩ := List.exists_cons_of_ne_nil hne
  have htokens : x.tokens ≠ [] := Tree.tokens_ne_nil_of_formed (Tree.everyAll_cons.1 h.formed).1
  have hlen : moved.length = (Tree.tokensAll (x :: xs)).length := hr.length_eq
  have hpos := List.length_pos_of_ne_nil htokens
  rw [hm, List.length_append, hlen, Tree.tokensAll_cons, List.length_append]
  omega

namespace Runs

variable {ts : List Token} {Q : α → List Token → Prop}

/-- What is known of the new parts of a run holds of the run. -/
theorem yielding {p : Parse α} {R : α → List Token → Prop}
    {S : Builder → α → Builder → List Tree → Prop}
    (hp : Runs p ts Q) (hy : ∀ b, b.ahead = ts → Yields p b (S b))
    (h : ∀ b a b' new, b.ahead = ts → Grown b b' new → S b a b' new → R a b'.ahead) :
    Runs p ts R := by
  intro hl b hb
  obtain ⟨a, b', hrun, hs, hne, -⟩ := hp hl b hb
  have hr : Readable b := by
    rw [Readable, hb]
    exact hl.ended
  obtain ⟨new, hg, hnew⟩ := hy b hb hr a b' hrun
  exact ⟨a, b', hrun, hs, hne, h b a b' new hb hg hnew⟩

theorem shorter {p : Parse α} (hp : Runs p ts Q) (hy : ∀ b, b.ahead = ts → Yields p b Something) :
    Runs p ts (Shorter ts) :=
  hp.yielding hy fun _ _ _ _ hb hg hne => hb ▸ hg.shorter hne

theorem tries {p : Parse Bool} {K : NodeKind → Prop} {Q : Bool → List Token → Prop}
    (hp : Runs p ts Q) (hy : ∀ b, b.ahead = ts → Yields p b (Tried K b)) : Runs p ts (Tries ts) :=
  hp.yielding (fun b hb => (hy b hb).found_of_tried) fun _ _ _ _ hb hg hne hfound =>
    hb ▸ hg.shorter (hne hfound)

end Runs

end PluginLint.Grammar
