import PluginLint.Grammar.Parse
import PluginLint.Proofs.Parsing.Steps

/-!
# Looking ahead comes to an end

What is followed over the tokens ahead stops after finitely many of them, and counts of brackets
stay above zero, because each is entered at an opening bracket and left where that one is closed.
-/
namespace PluginLint

/-! ### Tokens as they are read -/

namespace Lexer

def closingBrackets : List String := [")", "]", "\x7d"]

/-- What stands behind the elements of a list: a closing bracket, or what separates them or closes
type arguments. -/
def listMarks : List String := closingBrackets ++ [",", ">"]

theorem kind_of_listMark {fuel : Nat} {c : Char} {rest : List Char} {kind : TokenKind} {k : Cursor}
    (hc : c ∈ [')', ']', '\x7d', ',', '>']) (h : token fuel (c :: rest) = .ok (kind, k)) :
    kind = .punct := by
  simp only [List.mem_cons, List.not_mem_nil, or_false] at hc
  have hletter : isWordStart c = false := by
    rcases hc with rfl | rfl | rfl | rfl | rfl <;> decide +kernel
  have hpunct : isPunct c = true := by rcases hc with rfl | rfl | rfl | rfl | rfl <;> decide
  have hstring : opensString (c :: rest) = false := by
    rcases hc with rfl | rfl | rfl | rfl | rfl <;> rfl
  have hnumber : startsNumber (c :: rest) = false := by
    rcases hc with rfl | rfl | rfl | rfl | rfl <;> rfl
  have hquote : (c == '\'') = false := by rcases hc with rfl | rfl | rfl | rfl | rfl <;> decide
  have hmark : (c == '@') = false := by rcases hc with rfl | rfl | rfl | rfl | rfl <;> decide
  simp only [token, hstring, hquote, hmark, hletter, hnumber, hpunct, Bool.false_and,
    Bool.false_eq_true, if_false, if_true] at h
  split at h
  · cases h
    rfl
  · cases h
    rfl

/-- What reads like a closing bracket, a comma or an angle bracket is one. -/
theorem kind_of_token_listMark {fuel : Nat} {s : List Char} {kind : TokenKind} {k : Cursor}
    (h : token fuel s = .ok (kind, k)) (hs : s ≠ []) (hk : k.lexeme ∈ listMarks) :
    kind = .punct := by
  have hread : k.lexeme.toList ++ k.ahead = s := (advances_token h hs).1.1.toList_lexeme
  simp only [listMarks, closingBrackets, List.mem_append, List.mem_cons, List.not_mem_nil,
    or_false] at hk
  rcases hk with (hk | hk | hk) | hk | hk
  all_goals
    rw [hk] at hread
    subst hread
    exact kind_of_listMark (by decide) h

theorem tokensFrom_listMarks {fuel : Nat} {p : Place} {ts : List Token}
    (h : tokensFrom fuel p = .ok ts) :
    ∀ t ∈ ts, t.text ∈ listMarks → t.kind = .punct := by
  have hend : ∀ leading, ∀ t ∈ [Token.endOfFile leading], t.text ∈ listMarks →
      t.kind = .punct := by
    intro leading t ht htext
    rw [List.mem_singleton.1 ht] at htext
    simp [Token.endOfFile, listMarks, closingBrackets] at htext
  induction fuel generalizing p ts with
  | zero =>
    cases h
    exact hend []
  | succ fuel ih =>
    obtain ⟨-, rfl⟩ | ⟨kind, k, rest, hne, htok, hrest, rfl⟩ := tokensFrom_succ h
    · exact hend _
    · intro t ht htext
      rcases List.mem_cons.1 ht with rfl | ht
      · exact kind_of_token_listMark htok hne htext
      · exact ih hrest t ht htext

end Lexer

namespace Grammar

/-- Tokens as they are read: the end of the file is the last of them and no other, and what reads
like a mark of a list is one. -/
structure Legible (ts : List Token) : Prop where
  ended : Lexer.Ended ts
  marks : ∀ t ∈ ts, t.text ∈ Lexer.listMarks → t.kind = .punct

theorem legible_of_tokenize {source : String} {ts : List Token}
    (h : Lexer.tokenize source = .ok ts) : Legible ts :=
  ⟨(Lexer.tokenize_lossless h).2, Lexer.tokensFrom_listMarks h⟩

/-! ### Values without panic -/

/-- The computation does not panic, and its value has a property. -/
def Settles (x : Except Panic α) (P : α → Prop) : Prop := ∃ a, x = .ok a ∧ P a

namespace Settles

variable {x y : Except Panic α} {P : α → Prop}

theorem ok {a : α} (h : P a) : Settles (.ok a) P := ⟨a, rfl, h⟩

theorem imp {Q : α → Prop} (h : Settles x P) (hpq : ∀ a, P a → Q a) : Settles x Q := by
  obtain ⟨a, rfl, ha⟩ := h
  exact .ok (hpq a ha)

theorem bind {f : α → Except Panic β} {Q : β → Prop} (h : Settles x P)
    (hf : ∀ a, P a → Settles (f a) Q) : Settles (x >>= f) Q := by
  obtain ⟨a, rfl, ha⟩ := h
  exact hf a ha

theorem ite {c : Prop} [Decidable c] (hx : c → Settles x P) (hy : ¬c → Settles y P) :
    Settles (if c then x else y) P := by
  split
  · exact hx ‹_›
  · exact hy ‹_›

end Settles

/-! ### Following types -/

/-- What is followed from `ts` on, if it is there, ends at most `k` tokens in front of the end. -/
def Leaves (k : Nat) (found : Option (List Token)) : Prop := ∀ rest ∈ found, rest.length ≤ k

theorem leaves_none {k : Nat} : Leaves k none := fun _ h => by cases h

theorem leaves_some {k : Nat} {rest : List Token} (h : rest.length ≤ k) : Leaves k (some rest) :=
  fun _ hr => by
    cases hr
    exact h

/-- The step goes on behind what was followed, if it was there. -/
theorem Settles.follow {x : Except Panic (Option (List Token))} {k : Nat} {P : β → Prop} {none' : β}
    {f : List Token → Except Panic β} (h : Settles x (Leaves k))
    (hn : P none') (hf : ∀ rest, rest.length ≤ k → Settles (f rest) P) :
    Settles (x >>= fun found => match found with | some rest => f rest | _ => .ok none') P := by
  refine h.bind fun found hfound => ?_
  cases found with
  | none => exact .ok hn
  | some rest => exact hf rest (hfound rest rfl)

theorem length_drop_le (ts : List Token) (k : Nat) : (ts.drop k).length ≤ ts.length := by simp

theorem length_drop_one_lt {ts : List Token} {text : String} (h : startsText ts text = true)
    (ht : text ≠ "") : (ts.drop 1).length < ts.length := by
  cases ts with
  | nil => exact absurd (startsText_iff.1 h).symm ht
  | cons t rest => simp

variable {n : Nat} {ts : List Token} {type : Skip}

theorem length_skipText_le (text : String) (ts : List Token) :
    (skipText text ts).length ≤ ts.length := (List.dropWhile_suffix _).length_le

theorem length_skipEmptyRank? {rest : List Token} (h : skipEmptyRank? ts = some rest) :
    rest.length < ts.length := by
  simp only [skipEmptyRank?, Option.ite_none_right_eq_some, Option.some.injEq] at h
  obtain ⟨hopen, -, rfl⟩ := h
  have h₁ := length_drop_one_lt hopen (by decide)
  have h₂ := length_skipText_le "," (ts.drop 1)
  have h₃ := length_drop_le (skipText "," (ts.drop 1)) 1
  omega

theorem settles_skipTypeSuffixes (h : ts.length < n) :
    Settles (skipTypeSuffixes n ts) (·.length ≤ ts.length) := by
  induction n generalizing ts with
  | zero => omega
  | succ n ih =>
    rw [skipTypeSuffixes]
    refine .ite (fun hmark => ?_) fun _ => ?_
    · have hlt := length_drop_one_lt hmark (by decide)
      exact (ih (by omega)).imp fun rest hrest => by omega
    · split
      · rename_i rest hrank
        have hlt := length_skipEmptyRank? hrank
        exact (ih (by omega)).imp fun rest' hrest => by omega
      · exact .ok (Nat.le_refl _)

/-- Types inside the tokens `ts`, but not at their start, can be followed. -/
def FollowsInside (type : Skip) (ts : List Token) : Prop :=
  ∀ us, us.length < ts.length → Settles (type us) (Leaves us.length)

theorem FollowsInside.of_le {us : List Token} (h : FollowsInside type ts)
    (hle : us.length ≤ ts.length) : FollowsInside type us :=
  fun vs hvs => h vs (by omega)

theorem settles_skipTypeItems (htype : ∀ us, us.length ≤ ts.length →
    Settles (type us) (Leaves us.length)) (h : ts.length < n) :
    Settles (skipTypeItems type n ts) (Leaves ts.length) := by
  induction n generalizing ts with
  | zero => omega
  | succ n ih =>
    rw [skipTypeItems]
    refine (htype ts (Nat.le_refl _)).follow leaves_none fun rest hrest => ?_
    refine .ite (fun hcomma => ?_) fun _ => .ite (fun hclose => ?_) fun _ => .ok leaves_none
    · have hlt := length_drop_one_lt hcomma (by decide)
      refine (ih (fun us hus => htype us (by omega)) (by omega)).imp fun found hfound rest' hr => ?_
      have := hfound rest' hr
      omega
    · have hlt := length_drop_one_lt hclose (by decide)
      exact .ok (leaves_some (by omega))

theorem settles_skipTypeArgumentsWith (htype : FollowsInside type ts)
    (hlt : (ts.drop 1).length < ts.length) (h : ts.length ≤ n) :
    Settles (skipTypeArgumentsWith type n ts) (Leaves ts.length) := by
  unfold skipTypeArgumentsWith
  refine .ite (fun _ => .ok ?_) fun _ => ?_
  · have h₁ := length_skipText_le "," (ts.drop 1)
    have h₂ := length_drop_le (skipText "," (ts.drop 1)) 1
    split
    · exact leaves_some (by omega)
    · exact leaves_none
  · refine (settles_skipTypeItems (fun us hus => htype us (by omega)) (by omega)).imp ?_
    intro found hfound rest hr
    have := hfound rest hr
    omega

theorem settles_skipSegment (htype : FollowsInside type ts) (h : ts.length ≤ n) :
    Settles (skipSegment type n ts) (·.length ≤ (ts.drop 1).length) := by
  have hle := length_drop_le ts 1
  unfold skipSegment
  refine .ite (fun hopen => ?_) fun _ => .ok (Nat.le_refl _)
  have hlt := length_drop_one_lt hopen (by decide)
  refine (settles_skipTypeArgumentsWith (htype.of_le hle) hlt (by omega)).bind fun found hfound => ?_
  refine .ok ?_
  cases found with
  | none => exact Nat.le_refl _
  | some rest => exact hfound rest rfl

theorem settles_skipSegments (htype : FollowsInside type ts) (h : ts.length < n) :
    Settles (skipSegments type n ts) (·.length ≤ ts.length) := by
  induction n generalizing ts with
  | zero => omega
  | succ n ih =>
    rw [skipSegments]
    refine .ite (fun hdot => ?_) fun _ => .ok (Nat.le_refl _)
    have hlt : (ts.drop 1).length < ts.length := by
      simp only [startsQualifier, Bool.and_eq_true, Bool.or_eq_true] at hdot
      rcases hdot.1 with hdot | hdot
      · exact length_drop_one_lt hdot (by decide)
      · exact length_drop_one_lt hdot (by decide)
    refine (settles_skipSegment (htype.of_le (Nat.le_of_lt hlt)) (by omega)).bind fun rest hrest => ?_
    have hle := length_drop_le (ts.drop 1) 1
    exact (ih (htype.of_le (by omega)) (by omega)).imp fun rest' hr => by omega

theorem settles_skipTupleItems (count : Nat) (htype : ∀ us, us.length ≤ ts.length →
    Settles (type us) (Leaves us.length)) (h : ts.length < n) :
    Settles (skipTupleItems type n count ts) (Leaves ts.length) := by
  induction n generalizing ts count with
  | zero => omega
  | succ n ih =>
    rw [skipTupleItems]
    refine (htype ts (Nat.le_refl _)).follow leaves_none fun rest hrest => ?_
    have hname : (if startsIdentifier rest then rest.drop 1 else rest).length ≤ ts.length := by
      have := length_drop_le rest 1
      split <;> omega
    dsimp only
    generalize (if startsIdentifier rest then rest.drop 1 else rest) = rest' at hname ⊢
    refine .ite (fun hcomma => ?_) fun _ => .ite (fun _ => ?_) fun _ => .ok leaves_none
    · have hlt := length_drop_one_lt hcomma (by decide)
      refine (ih _ (fun us hus => htype us (by omega)) (by omega)).imp fun found hfound last hr => ?_
      have := hfound last hr
      omega
    · have := length_drop_le rest' 1
      exact .ok (leaves_some (by omega))

theorem settles_skipBareType (htype : FollowsInside type ts) (h : ts.length < n) :
    Settles (skipBareType type n ts) (Leaves ts.length) := by
  have hle := length_drop_le ts 1
  unfold skipBareType
  refine .ite (fun _ => .ok (leaves_some hle)) fun _ => .ite (fun hname => ?_) fun _ =>
    .ite (fun hopen => ?_) fun _ => .ok leaves_none
  · refine (settles_skipSegment htype (Nat.le_of_lt h)).bind fun rest hrest => ?_
    refine (settles_skipSegments (htype.of_le (by omega)) (by omega)).bind fun rest' hrest' => ?_
    exact .ok (leaves_some (by omega))
  · have hlt := length_drop_one_lt hopen (by decide)
    refine (settles_skipTupleItems 0 (fun us hus => htype us (by omega)) (by omega)).imp ?_
    intro found hfound rest hr
    have := hfound rest hr
    omega

/-- A type can be followed if fewer tokens are ahead than the bound: inside a type fewer are left,
and the bound falls by one. -/
theorem settles_skipType (h : ts.length < n) : Settles (skipType n ts) (Leaves ts.length) := by
  induction n generalizing ts with
  | zero => omega
  | succ n ih =>
    rw [skipType, skipTypeWith]
    have hinside : FollowsInside (skipType n) ts := fun us hus => ih (by omega)
    refine (settles_skipBareType hinside h).follow leaves_none fun rest hrest => ?_
    refine (settles_skipTypeSuffixes (n := n + 1) (by omega)).bind fun rest' hrest' => ?_
    exact .ok (leaves_some (by omega))

theorem followsInside_skipType (h : ts.length ≤ n) : FollowsInside (skipType n) ts :=
  fun _ hus => settles_skipType (by omega)

/-! ### What may come next -/

/-- The look-ahead comes to a value. -/
abbrev Answers (x : Except Panic α) : Prop := Settles x fun _ => True

theorem settles_skipTypeArguments (hopen : startsText ts "<" = true) (h : ts.length ≤ n) :
    Settles (skipTypeArguments n ts) (Leaves ts.length) :=
  settles_skipTypeArgumentsWith (followsInside_skipType h) (length_drop_one_lt hopen (by decide)) h

/-- Type arguments behind the next token. -/
theorem settles_skipTypeArguments_drop (hopen : (textAt ts 1 == "<") = true) (h : ts.length < n) :
    Settles (skipTypeArguments n (ts.drop 1)) (Leaves ts.length) := by
  have hle := length_drop_le ts 1
  have hopen' : startsText (ts.drop 1) "<" = true := by
    rw [startsText_iff, textAt_drop]
    exact beq_iff_eq.1 hopen
  refine (settles_skipTypeArguments hopen' (by omega)).imp fun found hfound rest hr => ?_
  have := hfound rest hr
  omega

theorem answers_startsGenericType (h : ts.length < n) : Answers (startsGenericType n ts) :=
  .ite (fun hopen => (settles_skipTypeArguments_drop hopen h).bind fun _ _ => .ok trivial)
    fun _ => .ok trivial

theorem answers_startsGenericName (h : ts.length < n) : Answers (startsGenericName n ts) :=
  .ite (fun hopen => (settles_skipTypeArguments_drop hopen h).follow trivial fun _ _ => .ok trivial)
    fun _ => .ok trivial

theorem answers_startsInterfaceSegment (h : ts.length < n) :
    Answers (startsInterfaceSegment n ts) :=
  .ite (fun _ => .ok trivial) fun _ => .ite
    (fun hopen => (settles_skipTypeArguments_drop hopen h).follow trivial fun _ _ => .ok trivial)
    fun _ => .ok trivial

theorem answers_startsTupleType (h : ts.length < n) : Answers (startsTupleType n ts) := by
  cases n with
  | zero => omega
  | succ n =>
    rw [startsTupleType]
    refine .ite (fun hopen => ?_) fun _ => .ok trivial
    have hlt := length_drop_one_lt hopen (by decide)
    refine (settles_skipTupleItems 0 (fun us hus => settles_skipType (by omega)) (by omega)).bind ?_
    exact fun _ _ => .ok trivial

theorem answers_startsDeclaration (follow : List String) (h : ts.length < n) :
    Answers (startsDeclaration n follow ts) :=
  (settles_skipType h).follow trivial fun _ _ => .ok trivial

theorem answers_startsCast (h : ts.length < n) : Answers (startsCast n ts) := by
  have hle := length_drop_le ts 1
  exact (settles_skipType (by omega)).follow trivial fun _ _ => .ok trivial

theorem answers_startsUsingDirective (h : ts.length < n) : Answers (startsUsingDirective n ts) := by
  unfold startsUsingDirective
  have hhead : (if startsWord ts "global" && textAt ts 1 == "using" then ts.drop 1 else ts).length
      ≤ ts.length := by
    have := length_drop_le ts 1
    split <;> omega
  dsimp only
  generalize (if startsWord ts "global" && textAt ts 1 == "using" then ts.drop 1 else ts) = head
    at hhead ⊢
  have hle := length_drop_le head 1
  refine .ite (fun _ => .ok trivial) fun _ => .ite (fun _ => .ok trivial) fun _ =>
    .ite (fun _ => .ok trivial) fun _ => .ite (fun _ => .ok trivial) fun _ => ?_
  exact (settles_skipType (by omega)).follow trivial fun _ _ => .ok trivial

/-! ### Counting brackets -/

/-- Inside at least one bracket, the count does not fall below zero. -/
theorem settles_depthBehind (opening closing : List String) {depth : Nat} (hd : 0 < depth)
    (t : Token) : Answers (depthBehind opening closing depth t) := by
  unfold depthBehind
  refine .ite (fun _ => .ok trivial) fun _ => .ite (fun _ => ?_) fun _ => .ok trivial
  cases depth with
  | zero => omega
  | succ depth => exact .ok trivial

/-- An opening bracket is counted. -/
theorem settles_depthBehind_opening {opening closing : List String} {depth : Nat} {t : Token}
    (h : opening.contains t.text = true) :
    Settles (depthBehind opening closing depth t) (· = depth + 1) :=
  .ite (fun _ => .ok rfl) fun hn => absurd h hn

/-- Behind brackets of one kind the count is zero only where the first of them is closed. -/
theorem settles_depthBehind_pair {opens closes : String} {depth : Nat} (hd : 0 < depth) (t : Token) :
    Settles (depthBehind [opens] [closes] depth t) fun depth' => depth' = 0 → t.text = closes := by
  unfold depthBehind
  refine .ite (fun _ => .ok fun h => by omega) fun _ => .ite (fun hc => ?_) fun _ => .ok fun h => ?_
  · cases depth with
    | zero => omega
    | succ depth => exact .ok fun _ => by simpa using hc
  · omega

theorem settles_skipBrackets_inside {depth : Nat} (hd : 0 < depth) :
    Settles (skipBrackets depth ts) (Leaves ts.length) := by
  induction ts generalizing depth with
  | nil => exact .ok leaves_none
  | cons t ts ih =>
    rw [skipBrackets]
    refine .ite (fun _ => .ok leaves_none) fun _ => ?_
    refine (settles_depthBehind_pair hd t).bind fun depth' hd' => ?_
    refine .ite (fun _ => .ok (leaves_some (by simp))) fun hopen => ?_
    have hpos : 0 < depth' := Nat.pos_of_ne_zero fun h0 => hopen (by simp [hd' h0, h0])
    refine (ih hpos).imp fun found hfound rest hr => ?_
    have := hfound rest hr
    simp only [List.length_cons]
    omega

/-- From an opening bracket on, its end is found or the end of the file is. -/
theorem settles_skipBrackets (h : startsText ts "[" = true) :
    Settles (skipBrackets 0 ts) fun found => ∀ rest ∈ found, rest.length < ts.length := by
  cases ts with
  | nil => exact .ok fun _ h => by cases h
  | cons t ts =>
    have ht : t.text = "[" := startsText_iff.1 h
    rw [skipBrackets]
    refine .ite (fun _ => .ok fun _ h => by cases h) fun _ => ?_
    refine Settles.bind (settles_depthBehind_opening (by simp [ht])) fun depth' hd' => ?_
    subst hd'
    refine .ite (fun hclose => ?_) fun _ => ?_
    · simp [ht] at hclose
    · refine (settles_skipBrackets_inside (Nat.succ_pos 0)).imp fun found hfound rest hr => ?_
      have := hfound rest hr
      simp only [List.length_cons]
      omega

theorem answers_closesAtArrow_inside {depth : Nat} (hd : 0 < depth) :
    Answers (closesAtArrow depth ts) := by
  induction ts generalizing depth with
  | nil => exact .ok trivial
  | cons t ts ih =>
    rw [closesAtArrow]
    refine .ite (fun _ => .ok trivial) fun _ => ?_
    refine (settles_depthBehind_pair hd t).bind fun depth' hd' => ?_
    refine .ite (fun _ => .ok trivial) fun hopen => ih ?_
    exact Nat.pos_of_ne_zero fun h0 => hopen (by simp [hd' h0, h0])

theorem answers_startsLambdaHead : Answers (startsLambdaHead ts) := by
  unfold startsLambdaHead
  refine .ite (fun h => ?_) fun _ => .ok trivial
  cases ts with
  | nil => exact .ok trivial
  | cons t ts =>
    have ht : t.text = "(" := startsText_iff.1 h
    rw [closesAtArrow]
    refine .ite (fun _ => .ok trivial) fun _ => ?_
    refine Settles.bind (settles_depthBehind_opening (by simp [ht])) fun depth' hd' => ?_
    subst hd'
    refine .ite (fun hclose => ?_) fun _ => answers_closesAtArrow_inside (Nat.succ_pos 0)
    simp [ht] at hclose

theorem length_drop_one_lt_of_modifier (h : startsModifier ts = true) :
    (ts.drop 1).length < ts.length := by
  cases ts with
  | nil => cases h
  | cons t rest => simp

theorem answers_startsTypeDeclaration (h : ts.length < n) :
    Answers (startsTypeDeclaration n ts) := by
  induction n generalizing ts with
  | zero => omega
  | succ n ih =>
    rw [startsTypeDeclaration]
    refine .ite (fun hopen => ?_) fun _ => .ite (fun hmod => ?_) fun _ => .ok trivial
    · refine (settles_skipBrackets hopen).bind fun found hfound => ?_
      cases found with
      | none => exact .ok trivial
      | some rest =>
        have hlt := hfound rest rfl
        exact ih (by omega)
    · have hlt := length_drop_one_lt_of_modifier hmod
      exact ih (by omega)

end Grammar

end PluginLint
