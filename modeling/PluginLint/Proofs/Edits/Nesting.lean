import PluginLint.Proofs.Edits.Passes

/-!
# Bodies inside bodies

Bodies for which an edit is asked may stand inside each other. One pass repairs the outermost ones, so
it takes one from every chain of nested bodies that begins with a body that can be repaired. Other
trivia around a tree makes no chain longer or shorter. A pass puts in no more text than the braces of
the bodies that had none.
-/
namespace PluginLint.Rules

/- Chains of nested bodies. -/
mutual

/-- The length of the longest chain of bodies inside each other, the outermost of one form and all
others of another. -/
def nesting (Q P : NodeKind → Tree → Bool) : Tree → Nat
  | .node kind parts => nestingAll Q P (waiting kind) parts
  | .leaf _ => 0

/-- The same among the parts of a node that may wait for its body. -/
def nestingAll (Q P : NodeKind → Tree → Bool) (waits : Option NodeKind) : List Tree → Nat
  | [] => 0
  | t :: ts =>
    max (max (nesting Q P t) (if waits.any (fun kind => Q kind t) then nesting P P t + 1 else 0))
      (nestingAll Q P (stillWaiting waits t) ts)

end

section nesting

variable {Q P Q' P' : NodeKind → Tree → Bool}

@[simp] theorem nesting_leaf (t : Token) : nesting Q P (.leaf t) = 0 := by rw [nesting]

@[simp] theorem nesting_node (kind : NodeKind) (parts : List Tree) :
    nesting Q P (.node kind parts) = nestingAll Q P (waiting kind) parts := by rw [nesting]

@[simp] theorem nestingAll_nil (waits : Option NodeKind) : nestingAll Q P waits [] = 0 := by
  rw [nestingAll]

theorem nestingAll_cons (waits : Option NodeKind) (t : Tree) (ts : List Tree) :
    nestingAll Q P waits (t :: ts) =
      max (max (nesting Q P t) (if waits.any (fun kind => Q kind t) then nesting P P t + 1 else 0))
        (nestingAll Q P (stillWaiting waits t) ts) := by rw [nestingAll]

theorem nestingAll_none_cons (t : Tree) (ts : List Tree) :
    nestingAll Q P none (t :: ts) = max (nesting Q P t) (nestingAll Q P none ts) := by
  rw [nestingAll_cons, stillWaiting, ite_self]
  simp

/-- Among parts of which none is a body, tokens do not count. -/
theorem nestingAll_none_filter (ts : List Tree) :
    nestingAll Q P none (ts.filter Tree.isNode) = nestingAll Q P none ts := by
  induction ts with
  | nil => rfl
  | cons t ts ih =>
    cases t with
    | node kind parts =>
      rw [List.filter_cons_of_pos rfl, nestingAll_none_cons, nestingAll_none_cons, ih]
    | leaf token =>
      rw [List.filter_cons_of_neg (by simp [Tree.isNode]), nestingAll_none_cons, nesting_leaf, ih,
        Nat.zero_max]

theorem nesting_block_single {parts : List Tree} {s : Tree} (h : parts.filter Tree.isNode = [s]) :
    nesting Q P (.node .block parts) = nesting Q P s := by
  rw [nesting_node, waiting_block, ← nestingAll_none_filter, h, nestingAll_none_cons, nestingAll_nil,
    Nat.max_zero]

theorem nesting_mono (hQ : ∀ kind t, Q kind t = true → Q' kind t = true)
    (hP : ∀ kind t, P kind t = true → P' kind t = true) (t : Tree) :
    nesting Q P t ≤ nesting Q' P' t := by
  induction t using Tree.induct generalizing Q Q' with
  | leaf token => simp
  | node kind parts ih =>
    have hall : ∀ waits, nestingAll Q P waits parts ≤ nestingAll Q' P' waits parts := by
      refine Tree.along parts (by simp) fun u us hu hus waits => ?_
      have hfirst := ih u hu hQ
      have hinner := ih u hu hP
      have hrest := hus (stillWaiting waits u)
      have hany : waits.any (fun kind => Q kind u) = true →
          waits.any (fun kind => Q' kind u) = true := by
        cases waits with
        | none => exact id
        | some k => exact hQ k u
      rw [nestingAll_cons, nestingAll_cons]
      by_cases h : waits.any (fun kind => Q kind u) = true
      · rw [if_pos h, if_pos (hany h)]
        omega
      · rw [if_neg h]
        omega
    rw [nesting_node, nesting_node]
    exact hall _

end nesting

/-! ### Other trivia around a tree -/

/-- A property of bodies that does not depend on the trivia around them. -/
structure Steady (S : NodeKind → List Tree → Prop) (P : NodeKind → Tree → Bool) : Prop where
  first : ∀ kind (t : Tree) front, t.Every S →
    P kind (t.mapFirst fun token => { token with leading := front }) = P kind t
  last : ∀ kind (t : Tree) back, t.Every S →
    P kind (t.mapLast fun token => { token with trailing := back }) = P kind t

theorem isStatement_mapFirst (f : Token → Token) (t : Tree) :
    (t.mapFirst f).isStatement = t.isStatement := by
  cases t <;> rfl

theorem isStatement_mapLast (f : Token → Token) (t : Tree) :
    (t.mapLast f).isStatement = t.isStatement := by
  cases t <;> rfl

theorem steady_isAsked : Steady Formed isAsked where
  first kind t front _ := by rw [isAsked, Tree.outline?_mapFirst, isAsked]
  last kind t back _ := by rw [isAsked, Tree.outline?_mapLast, isAsked]

/-- A block of which both braces are there is taken apart unless comments stand inside the braces. -/
theorem isSome_unwrapped? (opening closing : Token) (inner : List Tree)
    (hopening : opening.text = "\x7b") (hclosing : closing.text = "\x7d") :
    (∀ t ∈ inner, t.isNode = true) →
    (Tree.node .block (.leaf opening :: (inner ++ [.leaf closing]))).unwrapped?.isSome =
      match inner with
      | [s] => s.isStatement &&
          !(opening.trailing ++ s.leading ++ s.trailing ++ closing.leading).any Trivia.isComment
      | _ => false := by
  intro hinner
  have hnodes : (Tree.leaf opening :: (inner ++ [.leaf closing])).filter Tree.isNode = inner := by
    rw [List.filter_cons_of_neg (by simp [Tree.isNode]), List.filter_append,
      List.filter_eq_self.2 hinner, List.filter_cons_of_neg (by simp [Tree.isNode]), List.filter_nil,
      List.append_nil]
  rw [Tree.unwrapped?, hnodes]
  obtain _ | ⟨s, _ | ⟨s', rest⟩⟩ := inner
  · rfl
  · have htrivia : Tree.innerTrivia [.leaf opening, s, .leaf closing] s =
        opening.trailing ++ s.leading ++ s.trailing ++ closing.leading := by
      cases s with
      | leaf token => exact absurd (hinner _ List.mem_cons_self) (by simp [Tree.isNode])
      | node kind parts => simp [Tree.innerTrivia, Tree.token?, hopening, hclosing]
    simp only [List.cons_append, List.nil_append, htrivia]
    split <;> simp_all
  · rfl

theorem mapLastOf_append_leaf (f : Token → Token) (ts : List Tree) (token : Token) :
    Tree.mapLastOf f (ts ++ [.leaf token]) = ts ++ [.leaf (f token)] := by
  induction ts with
  | nil => simp [Tree.mapLastOf, Tree.lastTokenOf?, Tree.lastToken?, Tree.mapLast]
  | cons t ts ih =>
    rw [List.cons_append, Tree.mapLastOf, ih, if_pos (by simp [Tree.lastTokenOf?_eq])]
    rfl

/-- If a body is seen alike and its braces can be removed or not as before, then it can be repaired or
not as before. -/
theorem isFixable_congr {t u : Tree} (houtline : u.outline? = t.outline?)
    (hunwrapped : t.kind? = some .block → u.unwrapped?.isSome = t.unwrapped?.isSome)
    (kind : NodeKind) : isFixable kind u = isFixable kind t := by
  unfold isFixable repaired?
  rw [houtline]
  cases hfix : t.outline?.bind (askedFix? kind) with
  | none => rfl
  | some fix =>
    cases fix with
    | addBraces => rfl
    | removeBraces =>
      refine hunwrapped ?_
      obtain ⟨o, ho, hasked⟩ := Option.bind_eq_some_iff.1 hfix
      have hblock : o.kind = .block := by
        unfold askedFix? at hasked
        split at hasked
        · split at hasked
          · cases hasked
          · split at hasked
            · rename_i hbraced
              simp only [isBracedJump, Bool.and_eq_true, beq_iff_eq] at hbraced
              exact hbraced.2.1
            · cases hasked
        · cases hasked
      cases t with
      | node k parts =>
        cases ho
        exact congrArg some hblock
      | leaf token => cases ho

theorem steady_isFixable : Steady Complete isFixable where
  first kind t front ht := by
    refine isFixable_congr (Tree.outline?_mapFirst _ t) (fun hk => ?_) kind
    cases t with
    | leaf token => cases hk
    | node k parts =>
      cases hk
      obtain ⟨opening, inner, closing, rfl, hopening, hclosing, hinner⟩ :=
        (Tree.every_node.1 ht).1.braces rfl
      rw [Tree.mapFirst, Tree.mapFirstOf, if_pos (by simp [Tree.firstToken?]), Tree.mapFirst,
        isSome_unwrapped? { opening with leading := front } closing inner hopening hclosing hinner,
        isSome_unwrapped? opening closing inner hopening hclosing hinner]
  last kind t back ht := by
    refine isFixable_congr (Tree.outline?_mapLast _ t) (fun hk => ?_) kind
    cases t with
    | leaf token => cases hk
    | node k parts =>
      cases hk
      obtain ⟨opening, inner, closing, rfl, hopening, hclosing, hinner⟩ :=
        (Tree.every_node.1 ht).1.braces rfl
      have hlast : Tree.mapLastOf (fun token => { token with trailing := back })
          (.leaf opening :: (inner ++ [.leaf closing])) =
          .leaf opening :: (inner ++ [.leaf { closing with trailing := back }]) :=
        mapLastOf_append_leaf _ (.leaf opening :: inner) closing
      rw [Tree.mapLast, hlast,
        isSome_unwrapped? opening { closing with trailing := back } inner hopening hclosing hinner,
        isSome_unwrapped? opening closing inner hopening hclosing hinner]

section trivia

variable {S : NodeKind → List Tree → Prop} {Q P : NodeKind → Tree → Bool}

theorem nesting_mapFirst (hQ : Steady S Q) (hP : Steady S P) (front : List Trivia) {t : Tree}
    (ht : t.Every S) :
    nesting Q P (t.mapFirst fun token => { token with leading := front }) = nesting Q P t := by
  induction t using Tree.induct generalizing Q with
  | leaf token => simp [Tree.mapFirst]
  | node kind parts ih =>
    have hparts := (Tree.every_node.1 ht).2
    have hall : ∀ waits,
        nestingAll Q P waits (Tree.mapFirstOf (fun token => { token with leading := front }) parts) =
          nestingAll Q P waits parts := by
      refine Tree.along parts (by simp [Tree.mapFirstOf]) fun u us hmem hrest waits => ?_
      have hu := Tree.every_of_mem hparts hmem
      rw [Tree.mapFirstOf]
      split
      · rw [nestingAll_cons, nestingAll_cons, ih u hmem hQ hu, ih u hmem hP hu, stillWaiting,
          isStatement_mapFirst, ← stillWaiting]
        simp only [hQ.first _ u front hu]
      · rw [nestingAll_cons, nestingAll_cons, hrest]
    rw [Tree.mapFirst, nesting_node, nesting_node]
    exact hall _

theorem nesting_mapLast (hQ : Steady S Q) (hP : Steady S P) (back : List Trivia) {t : Tree}
    (ht : t.Every S) :
    nesting Q P (t.mapLast fun token => { token with trailing := back }) = nesting Q P t := by
  induction t using Tree.induct generalizing Q with
  | leaf token => simp [Tree.mapLast]
  | node kind parts ih =>
    have hparts := (Tree.every_node.1 ht).2
    have hall : ∀ waits,
        nestingAll Q P waits (Tree.mapLastOf (fun token => { token with trailing := back }) parts) =
          nestingAll Q P waits parts := by
      refine Tree.along parts (by simp [Tree.mapLastOf]) fun u us hmem hrest waits => ?_
      have hu := Tree.every_of_mem hparts hmem
      rw [Tree.mapLastOf]
      split
      · rw [nestingAll_cons, nestingAll_cons, hrest]
      · split
        · rw [nestingAll_cons, nestingAll_cons, ih u hmem hQ hu, ih u hmem hP hu, stillWaiting,
            isStatement_mapLast, ← stillWaiting]
          simp only [hQ.last _ u back hu]
        · rfl
    rw [Tree.mapLast, nesting_node, nesting_node]
    exact hall _

/-- Other trivia around a tree does not change its chains. -/
theorem nesting_withOuterTrivia (hS : Lasting S) (hQ : Steady S Q) (hP : Steady S P)
    (front back : List Trivia) {t : Tree} (ht : t.Every S) :
    nesting Q P (t.withOuterTrivia front back) = nesting Q P t := by
  have hfirst := Tree.every_mapFirst (f := fun token => { token with leading := front }) hS
    (fun _ => rfl) ht
  rw [Tree.withOuterTrivia, nesting_mapLast hQ hP back hfirst, nesting_mapFirst hQ hP front ht]

/-- A repaired body has the chains that were inside. -/
theorem Repaired.nesting_eq (hS : Lasting S) (hQ : Steady S Q) (hP : Steady S P) {t new : Tree}
    (h : Repaired t new) (ht : t.Every S) : nesting Q P new = nesting Q P t := by
  cases h with
  | wrapped houtline hstatement hbare =>
    have hinner : t.withoutOuterTrivia.isNode = true := by
      cases t with
      | node k parts => rfl
      | leaf token => cases houtline
    have hsingle : [Tree.leaf ⟨.punct, "\x7b", t.leading, [.space]⟩, t.withoutOuterTrivia,
        .leaf ⟨.punct, "\x7d", [.space], t.trailing⟩].filter Tree.isNode =
          [t.withoutOuterTrivia] := by
      rw [List.filter_cons_of_neg (by simp [Tree.isNode]), List.filter_cons_of_pos hinner,
        List.filter_cons_of_neg (by simp [Tree.isNode]), List.filter_nil]
    rw [Tree.wrapped, nesting_block_single hsingle, Tree.withoutOuterTrivia,
      nesting_withOuterTrivia hS hQ hP [] [] ht]
  | @unwrapped parts s o hparts houtline hjump hcomments =>
    have hmem : s ∈ parts := (List.mem_filter.1 (hparts ▸ List.mem_singleton_self s)).1
    rw [nesting_block_single hparts,
      nesting_withOuterTrivia hS hQ hP _ _ (Tree.every_of_mem (Tree.every_node.1 ht).2 hmem)]

end trivia

/-! ### One pass -/

section pass

variable {S : NodeKind → List Tree → Prop} {P : NodeKind → Tree → Bool}

theorem any_isFixable_eq_false {waits : Option NodeKind} {t : Tree}
    (h : ∀ kind, waits = some kind → repaired? kind t = none) :
    waits.any (fun kind => isFixable kind t) = false := by
  cases waits with
  | none => rfl
  | some kind => rw [Option.any_some, isFixable, h kind rfl, Option.isSome_none]

/-- The bodies that can still be repaired after a pass stand in shorter chains. -/
theorem nesting_repairedOnce_le (hS : Lasting S) (hP : Steady S P)
    (hle : ∀ kind t, isFixable kind t = true → P kind t = true) {t : Tree}
    (hformed : t.Every Formed) (ht : t.Every S) :
    nesting isFixable P (repairedOnce t) ≤ nesting isFixable P t - 1 := by
  induction t using Tree.induct with
  | leaf token => simp
  | node kind parts ih =>
    have hparts := (Tree.every_node.1 ht).2
    have hall : ∀ waits, nestingAll isFixable P waits (repairedOnceAll waits parts) ≤
        nestingAll isFixable P waits parts - 1 := by
      refine Tree.along parts (by simp) fun u us hmem hus waits => ?_
      have hrest := hus (stillWaiting waits u)
      have huf := Tree.every_of_mem (Tree.every_node.1 hformed).2 hmem
      rcases repairedOnceAll_cons waits u us with ⟨k, new, rfl, hnew, heq⟩ | ⟨hleft, heq⟩
      · -- The chains inside a repaired body were one longer, with the body itself.
        have hr := repaired_of_eq_some hnew
        have hinner : nesting isFixable P new ≤ nesting P P u := by
          rw [← hr.nesting_eq hS hP hP (Tree.every_of_mem hparts hmem)]
          exact nesting_mono hle (fun _ _ h => h) new
        have hdone := @any_isFixable_eq_false (some k) new fun kind _ =>
          hr.repaired?_eq_none kind
        have hbody : (some k).any (fun kind => isFixable kind u) = true := by
          rw [Option.any_some, isFixable, hnew, Option.isSome_some]
        rw [heq, nestingAll_cons, nestingAll_cons, hdone, hbody, (hr.stillWaiting_eq _).1,
          if_neg (by simp), if_pos rfl]
        rw [(hr.stillWaiting_eq _).2] at hrest ⊢
        omega
      · have hu := ih u hmem huf (Tree.every_of_mem hparts hmem)
        have hagain := any_isFixable_eq_false fun kind hwaits =>
          repaired?_repairedOnce huf (hleft kind hwaits)
        rw [heq, nestingAll_cons, nestingAll_cons, hagain, stillWaiting_repairedOnce,
          if_neg (by simp)]
        omega
    rw [repairedOnce_node, nesting_node, nesting_node]
    exact hall _

/-- Where all braces are there, a pass makes every chain shorter by one body and no more. -/
theorem nesting_repairedOnce_ge {t : Tree} (hformed : t.Every Formed) (ht : t.Every Complete) :
    nesting isFixable isFixable t - 1 ≤ nesting isFixable isFixable (repairedOnce t) := by
  induction t using Tree.induct with
  | leaf token => simp
  | node kind parts ih =>
    have hparts := (Tree.every_node.1 ht).2
    have hall : ∀ waits, nestingAll isFixable isFixable waits parts - 1 ≤
        nestingAll isFixable isFixable waits (repairedOnceAll waits parts) := by
      refine Tree.along parts (by simp) fun u us hmem hus waits => ?_
      have hrest := hus (stillWaiting waits u)
      have huf := Tree.every_of_mem (Tree.every_node.1 hformed).2 hmem
      rcases repairedOnceAll_cons waits u us with ⟨k, new, rfl, hnew, heq⟩ | ⟨hleft, heq⟩
      · have hr := repaired_of_eq_some hnew
        have hinner := hr.nesting_eq lasting_complete steady_isFixable steady_isFixable
          (Tree.every_of_mem hparts hmem)
        rw [(hr.stillWaiting_eq _).2] at hrest
        rw [heq, nestingAll_cons, nestingAll_cons, hinner, (hr.stillWaiting_eq _).1,
          (hr.stillWaiting_eq _).2]
        split <;> split <;> omega
      · have hu := ih u hmem huf (Tree.every_of_mem hparts hmem)
        rw [heq, nestingAll_cons, nestingAll_cons, any_isFixable_eq_false hleft,
          stillWaiting_repairedOnce, if_neg (by simp)]
        omega
    rw [repairedOnce_node, nesting_node, nesting_node]
    exact hall _

end pass

/-! ### Room for braces -/

theorem width_eq_of_tokens {t : Tree} (h : t.tokens ≠ []) :
    t.width = Trivia.width t.leading + t.text.utf8ByteSize + Trivia.width t.trailing := by
  rw [Tree.width_eq, Token.widthAll_eq h, Tree.leading_eq, Tree.text_eq, Tree.trailing_eq]

theorem width_withOuterTrivia {t : Tree} (h : t.tokens ≠ []) (front back : List Trivia) :
    (t.withOuterTrivia front back).width =
      Trivia.width front + t.text.utf8ByteSize + Trivia.width back := by
  rw [Tree.width_eq, Tree.tokens_withOuterTrivia, Token.widthAll_eq (Token.surround_ne_nil _ _ h),
    Token.frontTrivia_surround _ _ h, Token.backTrivia_surround _ _ h, Token.innerText_surround,
    Tree.text_eq]

/-- A block around a statement is wider by its braces and two blanks. -/
theorem width_wrapped {t : Tree} (h : t.tokens ≠ []) : t.wrapped.width = t.width + 4 := by
  have hspace : Trivia.width [.space] = 1 := rfl
  have hopening : "\x7b".utf8ByteSize = 1 := rfl
  have hclosing : "\x7d".utf8ByteSize = 1 := rfl
  rw [Tree.wrapped, Tree.width_node, Tree.widthAll_cons, Tree.widthAll_cons, Tree.widthAll_cons,
    Tree.widthAll_nil, Tree.width_leaf, Tree.width_leaf, Token.width, Token.width,
    Tree.withoutOuterTrivia, width_withOuterTrivia h, width_eq_of_tokens h, hspace, hopening,
    hclosing, Trivia.width_nil]
  dsimp only
  omega

/-- The single statement of a block is not wider than the block, with the same trivia around it. -/
theorem width_unwrapped_le {parts : List Tree} {s : Tree} (hs : s ∈ parts) (hne : s.tokens ≠ []) :
    (s.withOuterTrivia (Tree.node .block parts).leading (Tree.node .block parts).trailing).width ≤
      (Tree.node .block parts).width := by
  obtain ⟨before, after, rfl⟩ := List.append_of_mem hs
  have htokens : (Tree.node .block (before ++ s :: after)).tokens =
      Tree.tokensAll before ++ (s.tokens ++ Tree.tokensAll after) := by simp
  have hfront := Token.frontTrivia_middle_le (Tree.tokensAll before) (Tree.tokensAll after) hne
  have hback := Token.backTrivia_middle_le (Tree.tokensAll before) (Tree.tokensAll after) hne
  have hwidth := Token.widthAll_eq hne
  rw [width_withOuterTrivia hne, Tree.width_eq (Tree.node _ _), Tree.leading_eq, Tree.trailing_eq,
    Tree.text_eq, htokens, Token.widthAll_append, Token.widthAll_append]
  omega

/-- A node that waits for its body sees a bare one. -/
def seesBare (waits : Option NodeKind) (parts : List Tree) : Nat :=
  (waits.any fun kind => seesBareBody kind (Tree.outlines parts)).toNat

theorem seesBare_waiting (kind : NodeKind) (parts : List Tree) :
    seesBare (waiting kind) parts = (seesBareBody kind (Tree.outlines parts)).toNat := by
  unfold seesBare waiting
  split
  · rfl
  · rename_i h
    simp only [Option.any_none, seesBareBody, bodyOutline?, if_neg h]
    rfl

/-- The first statement is the body that is seen. -/
theorem seesBareBody_cons {kind : NodeKind} (hkind : controlKinds.contains kind = true) (o : Outline)
    (os : List Outline) : seesBareBody kind (o :: os) =
      if o.kind.isStatement then askedFix? kind o == some .addBraces else seesBareBody kind os := by
  unfold seesBareBody bodyOutline?
  rw [if_pos hkind, if_pos hkind, List.find?_cons]
  cases hs : o.kind.isStatement with
  | false => rfl
  | true =>
    rw [if_pos rfl, askedFix?, hs, Bool.true_and, Option.filter_some]
    cases (kind == .elseClause && o.kind == .ifStatement)
    · cases hb : isBare o
      · cases noBracesForControlFlow.triggeredBy kind && isBracedJump o <;> simp [hb]
      · simp [hb]
    · rfl

theorem seesBare_cons {waits : Option NodeKind}
    (hwaits : ∀ kind, waits = some kind → controlKinds.contains kind = true) (t : Tree)
    (ts : List Tree) : seesBare waits (t :: ts) =
      (waits.any fun kind => t.outline?.bind (askedFix? kind) == some .addBraces).toNat +
        seesBare (stillWaiting waits t) ts := by
  unfold seesBare stillWaiting
  cases waits with
  | none => simp
  | some kind =>
    rw [Option.any_some, Option.any_some]
    cases t with
    | leaf token =>
      have hnone : Tree.outline? (.leaf token) = none := rfl
      rw [Tree.outlines, List.filterMap_cons_none hnone, hnone, Tree.isStatement,
        if_neg (by simp), Option.any_some, Tree.outlines]
      simp
    | node k inner =>
      obtain ⟨o, ho, hk⟩ : ∃ o, Tree.outline? (.node k inner) = some o ∧ o.kind = k := ⟨_, rfl, rfl⟩
      rw [Tree.outlines, List.filterMap_cons_some ho, ho, seesBareBody_cons (hwaits kind rfl),
        Option.bind_some, Tree.isStatement, hk]
      cases hs : k.isStatement with
      | true => simp
      | false =>
        have hnot : askedFix? kind o = none := by simp [askedFix?, hk, hs]
        simp [hnot, Tree.outlines]

/-- A body that is repaired becomes wider only by the braces it is given. -/
theorem width_repaired_le {kind : NodeKind} {t new : Tree} (h : repaired? kind t = some new)
    (ht : t.Every Formed) : new.width ≤
      t.width + 4 * (t.outline?.bind (askedFix? kind) == some .addBraces).toNat := by
  obtain ⟨fix, hfix, hnew⟩ := Option.bind_eq_some_iff.1 h
  rw [hfix]
  cases fix with
  | addBraces =>
    cases hnew
    exact Nat.le_of_eq (width_wrapped (Tree.tokens_ne_nil_of_formed ht))
  | removeBraces =>
    obtain ⟨inner, s, rfl, hs, -, -, rfl⟩ := Tree.exists_of_unwrapped? hnew
    have hmem : s ∈ inner := (List.mem_filter.1 (hs ▸ List.mem_singleton_self s)).1
    exact width_unwrapped_le hmem
      (Tree.tokens_ne_nil_of_formed (Tree.every_of_mem (Tree.every_node.1 ht).2 hmem))

/-- As many bare bodies are inside a body before its repair and afterwards. -/
theorem count_repaired {kind : NodeKind} {t new : Tree} (h : repaired? kind t = some new) :
    new.count seesBareBody = t.count seesBareBody := by
  obtain ⟨fix, hfix, hnew⟩ := Option.bind_eq_some_iff.1 h
  cases t with
  | node k inner =>
    have hreplaced : SourceFile.replacement fix ⟨k, inner, 0, []⟩ = .ok new :=
      Node.replacement?_eq_some.1 hnew
    rw [Node.count_replacement seesBareBody_block hreplaced, Node.tree_mk]
  | leaf token => cases hfix

/-- A pass puts in at most the braces of the bodies that have none. -/
theorem width_repairedOnce_le {t : Tree} (ht : t.Every Formed) :
    (repairedOnce t).width + 4 * (repairedOnce t).count seesBareBody ≤
      t.width + 4 * t.count seesBareBody := by
  induction t using Tree.induct with
  | leaf token => simp
  | node kind parts ih =>
    have hparts := (Tree.every_node.1 ht).2
    have hall : ∀ waits : Option NodeKind,
        (∀ kind, waits = some kind → controlKinds.contains kind = true) →
        Tree.widthAll (repairedOnceAll waits parts) +
            4 * (seesBare waits (repairedOnceAll waits parts) +
              Tree.countAll seesBareBody (repairedOnceAll waits parts)) ≤
          Tree.widthAll parts + 4 * (seesBare waits parts + Tree.countAll seesBareBody parts) := by
      refine Tree.along parts (by simp) fun u us hmem hus waits hwaits => ?_
      have hrest := hus (stillWaiting waits u) (by
        unfold stillWaiting
        split
        · intro _ h
          cases h
        · exact hwaits)
      have hu := Tree.every_of_mem hparts hmem
      have hbare := seesBare_cons hwaits u us
      rcases repairedOnceAll_cons waits u us with ⟨k, new, rfl, hnew, heq⟩ | ⟨hleft, heq⟩
      · have hr := repaired_of_eq_some hnew
        have hafter := seesBare_cons hwaits new (repairedOnceAll (stillWaiting (some k) u) us)
        have hnone : ((none : Option Fix) == some .addBraces).toNat = 0 := rfl
        rw [Option.any_some, hr.askedFix?_eq_none, hnone, (hr.stillWaiting_eq _).1] at hafter
        rw [(hr.stillWaiting_eq _).2] at hrest hbare hafter heq
        rw [Option.any_some] at hbare
        have hwidth := width_repaired_le hnew hu
        rw [heq, Tree.widthAll_cons, Tree.widthAll_cons, Tree.countAll_cons, Tree.countAll_cons,
          count_repaired hnew]
        omega
      · have hagain := seesBare_cons hwaits (repairedOnce u)
          (repairedOnceAll (stillWaiting waits u) us)
        rw [outline?_repairedOnce, stillWaiting_repairedOnce] at hagain
        have hfirst := ih u hmem hu
        rw [heq, Tree.widthAll_cons, Tree.widthAll_cons, Tree.countAll_cons, Tree.countAll_cons]
        omega
    rw [repairedOnce_node, Tree.width_node, Tree.width_node, Tree.count_node, Tree.count_node,
      ← seesBare_waiting, ← seesBare_waiting]
    refine hall _ fun k hk => ?_
    obtain ⟨hcontrol, hkind⟩ := Option.ite_none_right_eq_some.1 hk
    exact Option.some.inj hkind ▸ hcontrol

/-! ### No chain -/

section zero

variable {Q P : NodeKind → Tree → Bool}

/-- The chains behind some parts are among those of all parts. -/
theorem nestingAll_append_le (before us : List Tree) (waits : Option NodeKind) :
    nestingAll Q P (before.foldl stillWaiting waits) us ≤ nestingAll Q P waits (before ++ us) := by
  induction before generalizing waits with
  | nil => exact Nat.le_refl _
  | cons t before ih =>
    rw [List.cons_append, nestingAll_cons, List.foldl_cons]
    exact Nat.le_trans (ih _) (Nat.le_max_right _ _)

/-- Without a chain no body is of the form of the outermost ones. -/
theorem any_awaited?_eq_false {t : Tree} (h : nesting Q P t = 0) {q : List Nat} {kind : NodeKind}
    {before after : List Tree} {u : Tree} {pre post : List Token}
    (hholds : Tree.Holds t q (.node kind (before ++ u :: after)) pre post) :
    (awaited? kind before).any (fun kind => Q kind u) = false := by
  generalize hm : Tree.node kind (before ++ u :: after) = m at hholds
  induction hholds with
  | here =>
    cases hm
    have hle := nestingAll_append_le (Q := Q) (P := P) before (u :: after) (waiting kind)
    rw [nesting_node] at h
    rw [h, nestingAll_cons] at hle
    by_contra hbody
    rw [Bool.not_eq_false] at hbody
    rw [← awaited?, if_pos hbody] at hle
    omega
  | @inside k vs ws v m q pre post hin ih =>
    refine ih ?_ hm
    have hle := nestingAll_append_le (Q := Q) (P := P) vs (v :: ws) (waiting k)
    rw [nesting_node] at h
    rw [h, nestingAll_cons] at hle
    omega

/-- Without such a body there is no chain. -/
theorem nesting_eq_zero {t : Tree}
    (h : ∀ q kind before u after pre post,
      Tree.Holds t q (.node kind (before ++ u :: after)) pre post →
      (awaited? kind before).any (fun kind => Q kind u) = false) : nesting Q P t = 0 := by
  induction t using Tree.induct with
  | leaf token => simp
  | node kind parts ih =>
    have hall : ∀ us before : List Tree, before ++ us = parts →
        nestingAll Q P (awaited? kind before) us = 0 := by
      intro us
      induction us with
      | nil => simp
      | cons u us ih' =>
        intro before hparts
        subst hparts
        have hrest := ih' (before ++ [u]) (by simp)
        have hu := ih u (by simp) fun q k vs v ws pre post hholds =>
          h _ k vs v ws _ _ hholds.inside
        rw [awaited?_concat] at hrest
        rw [nestingAll_cons, hrest, hu, h [] kind before u us [] [] .here]
        simp
    rw [nesting_node]
    exact hall parts [] rfl

end zero

end PluginLint.Rules
