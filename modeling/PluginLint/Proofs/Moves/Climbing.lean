import PluginLint.Proofs.LosslessParsing
import PluginLint.Proofs.Moves.Operands

/-!
# Climbing by precedence

An operand is no operator with something to its left, so the only nodes that have to be grouped are
those that the loop over operators wraps around what came before. The invariant of this loop speaks
of the node wrapped last and of the operator that comes next: a right operand ends only in front of
an operator that is looser than it may be, and that is why the next operator may take the whole to
its left.
-/
namespace PluginLint.Grammar

-- An instance is put together along all the steps of a function.
set_option synthInstance.maxSize 20000

variable {n least : Nat} {g : Phrases} {b b' : Builder} {op : BinaryOperator} {x : Tree}

/-! ### Bounds on operators -/

/-- An operator with a left operand on top of the tree binds at least as tightly as `least`. -/
def Bounded (least : Nat) (x : Tree) : Prop :=
  ∀ kind parts, x = .node kind parts → IsOperator kind → HasLeft parts →
    ∃ op, operatorBehind? parts = some op ∧ least ≤ op.precedence

/-- No operator that binds as tightly as `least` comes next. -/
def Stopped (least : Nat) (ts : List Token) : Prop :=
  ∀ op, binaryOperator? ts = some op → op.precedence < least

/-- If the tree is a binary expression, its right operand had to end here. -/
def Settled (x : Tree) (ts : List Token) : Prop :=
  ∀ parts, x = .node .binaryExpression parts → (operands parts).length = 2 →
    ∃ op, operatorBehind? parts = some op ∧ Stopped op.rightLeast ts

theorem IsOperand.bounded (h : IsOperand x) : Bounded least x := by
  rintro kind parts rfl hop hleft
  obtain ⟨kind', parts', heq, h⟩ := h
  cases heq
  exact absurd hleft (h hop).2

theorem IsOperand.settled (h : IsOperand x) {ts : List Token} : Settled x ts := by
  rintro parts rfl -
  obtain ⟨kind', parts', heq, h⟩ := h
  cases heq
  exact absurd rfl (h ⟨.plain, rfl⟩).1

/-- What a phrase of the right side leaves: nothing, or an operand that ends where it has to. -/
def RightOperand (least : Nat) (b' : Builder) (inner : List Tree) : Prop :=
  inner = [] ∨ ∃ r, inner = [r] ∧ r.isNode = true ∧ Bounded least r ∧ Stopped least b'.ahead

theorem operands_cons_map_leaf (hx : x.isNode = true) (spelled : List Token) (inner : List Tree) :
    operands (x :: (spelled.map .leaf ++ inner)) = x :: operands inner := by
  have hnone : operands (spelled.map .leaf) = [] := by
    simp [operands, Tree.isNode]
  rw [operands, List.filter_cons_of_pos hx, List.filter_append]
  exact congrArg (x :: ·) (by simpa [operands] using hnone)

/-- What an operator finds to its left is bound as tightly as the operator binds. -/
theorem bindsLeft_of_settled {ts : List Token} {parts : List Tree}
    (hts : binaryOperator? ts = some op) (hsettled : Settled x ts)
    (hop : operatorBehind? parts = some op) : BindsLeft parts op x := by
  rintro inner rfl htwo
  obtain ⟨q, hq, hstopped⟩ := hsettled inner rfl htwo
  have hlt := hstopped op hts
  obtain ⟨hpos, hone⟩ := precedence_of_binaryOperator? hop
  obtain ⟨hqpos, -⟩ := precedence_of_binaryOperator? hq
  unfold BinaryOperator.rightLeast at hlt
  split at hlt
  · omega
  · rename_i hne
    rw [beq_iff_eq] at hne
    refine ⟨q, hq, by omega, fun hcoalesces => ?_⟩
    have := hone.2 hcoalesces
    omega

/-- What an operator gets to its right is bound as tightly as it asked for. -/
theorem bindsRight_of_bounded {r : Tree} {parts : List Tree} (hbounded : Bounded op.rightLeast r)
    (hop : operatorBehind? parts = some op) : BindsRight parts op r := by
  rintro kind inner rfl hkind hleft
  obtain ⟨q, hq, hle⟩ := hbounded kind inner rfl hkind hleft
  refine ⟨q, hq, ?_⟩
  unfold BinaryOperator.rightLeast at hle
  split at hle
  · rename_i hone
    rw [beq_iff_eq] at hone
    exact .inr ⟨(precedence_of_binaryOperator? hop).2.1 hone, by omega⟩
  · exact .inl hle

/-- The step of the loop: the next operator takes what came before to its left, and what it asked
for to its right. -/
theorem grouped_of_step {ts spelled : List Token} {inner : List Tree} (hx : x.isNode = true)
    (hts : binaryOperator? ts = some op) (hsettled : Settled x ts)
    (hop : operatorBehind? (x :: (spelled.map .leaf ++ inner)) = some op)
    (hlen : spelled.length = op.tokens) (hinner : RightOperand op.rightLeast b' inner) :
    Grouped (x :: (spelled.map .leaf ++ inner)) := by
  have hoperands := operands_cons_map_leaf hx spelled inner
  rcases hinner with rfl | ⟨r, rfl, hr, hbounded, -⟩
  · rw [show operands [] = [] from rfl] at hoperands
    refine ⟨⟨x, _, rfl, hx⟩, hoperands ▸ Nat.le_succ 1, fun left right h => ?_⟩
    rw [hoperands] at h
    cases h
  · rw [show operands [r] = [r] by simp [operands, hr]] at hoperands
    refine ⟨⟨x, _, rfl, hx⟩, hoperands ▸ Nat.le_refl 2, fun left right h => ?_⟩
    rw [hoperands] at h
    cases h
    exact ⟨op, ⟨hop, spelled, hlen, rfl⟩, bindsLeft_of_settled hts hsettled hop,
      bindsRight_of_bounded hbounded hop⟩

/-! ### The right side -/

/-- What the phrases inside a phrase do: they move, and operators in them are grouped. -/
class Climbing (g : Phrases) : Prop extends Moving g where
  sound : Sound g
  climbs : ∀ {least b b'}, Readable b → g (.binary least) b = .ok (true, b') →
    ∃ x, b'.parts = b.parts.push x ∧ x.isNode = true ∧ Bounded least x ∧ Stopped least b'.ahead

theorem Grown.readsLike {new : List Tree} (h : Grown b b' new) :
    ReadsLike b.ahead (Tree.tokensAll new) := by
  obtain ⟨moved, hm, hr, -⟩ := h.moved
  rw [hm]
  generalize Tree.tokensAll new = tokens at hr ⊢
  cases hr with
  | nil => exact .inl rfl
  | cons h _ => exact .inr ⟨h.text, h.leading⟩

theorem yields_bumpMany {k : Nat} (hm : ∀ i < k, startsEnd (b.ahead.drop i) = false) :
    Yields (bumpMany k) b fun _ b' new =>
      ∃ spelled, b.ahead = spelled ++ b'.ahead ∧ spelled.length = k ∧ new = spelled.map .leaf := by
  induction k generalizing b with
  | zero => exact .pure ⟨[], rfl, rfl, rfl⟩
  | succ k ih =>
    refine .bump_bind (hm 0 (by omega)) fun b' t ht => ?_
    have hrest : ∀ i < k, startsEnd (b'.ahead.drop i) = false := fun i hi => by
      have := hm (i + 1) (by omega)
      rwa [ht, List.drop_succ_cons] at this
    refine (ih hrest).imp fun _ b'' new _ h => ?_
    obtain ⟨spelled, hb', hlen, rfl⟩ := h
    exact ⟨t :: spelled, by rw [ht, hb', List.cons_append], by simp [hlen], by simp⟩

/-- A step that begins with something adds something, since what follows never goes back. -/
theorem Yields.something_bind {p : Parse α} {f : α → Parse β} [∀ a, Moves (f a)]
    (hp : Yields p b Something) (h : Yields (p >>= f) b Anything) :
    Yields (p >>= f) b Something := by
  intro hb c b'' hrun
  obtain ⟨new, hg, -⟩ := h hb c b'' hrun
  refine ⟨new, hg, ?_⟩
  rintro rfl
  obtain ⟨a, b₁, hrun, hrun'⟩ := exists_of_bind hrun
  obtain ⟨new₁, hg₁, hne⟩ := hp hb a b₁ hrun
  obtain ⟨moved, hm, hr, -⟩ := hg₁.moved
  obtain ⟨y, ys, rfl⟩ := List.exists_cons_of_ne_nil hne
  have hy : y.tokens ≠ [] := Tree.tokens_ne_nil_of_formed (Tree.everyAll_cons.1 hg₁.formed).1
  have hsuffix : Makes b₁ b'' := Moves.makes (hg₁.readable hb) hrun'
  have hlen := hsuffix.ahead_suffix.length_le
  rw [hg.ahead_eq, hm, List.length_append, hr.length_eq, Tree.tokensAll_cons,
    List.length_append] at hlen
  have := List.length_pos_of_ne_nil hy
  omega

theorem yields_switchArms [Moving g] (hg : Sound g) (hm : More b)
    (h : startsText b.ahead "\x7b" = true) : Yields (switchArms n g) b Something := by
  refine Yields.something_bind ?_ (steady_switchArms hg b)
  exact (yields_expect_of hm h).imp fun _ _ _ _ ⟨t, hnew, _⟩ => by simp [Something, hnew]

/-- The operand that an operator asks for to its right, if there is one. -/
theorem yields_rightOperand [Climbing g] (message : String) :
    Yields (discard (orReport (g (.binary least)) message)) b fun _ b' inner =>
      RightOperand least b' inner := by
  have hfound : Yields (g (.binary least)) b fun found b' new =>
      if found then RightOperand least b' new else new = [] := by
    intro hb found b' hrun
    obtain ⟨new, hg, h⟩ := Climbing.sound.binary least b hb found b' hrun
    refine ⟨new, hg, ?_⟩
    cases found with
    | false => exact h.2
    | true =>
      obtain ⟨x, rfl, -⟩ := h
      obtain ⟨r, hr, hnode, hbounded, hstopped⟩ := Climbing.climbs hb hrun
      obtain rfl : x = r := by simpa [hr] using hg.parts.symm
      exact .inr ⟨x, rfl, hnode, hbounded, hstopped⟩
  have hreported : Yields (orReport (g (.binary least)) message) b fun _ b' inner =>
      RightOperand least b' inner := by
    refine hfound.bind fun found b' new _ h => ?_
    cases found with
    | true => exact .pure (by simpa using h)
    | false =>
      refine (yields_report _).bind fun _ _ _ _ hr => .pure (.inl ?_)
      simpa [hr.2] using h
  exact hreported.discard.imp fun _ _ _ _ ⟨_, h⟩ => h

/-- What stands to the right of an operator; a brace does if the operator needs one. -/
theorem yields_rightSide [Climbing g] (hbrace : op.form.IsBraced → textAt b.ahead 0 = "\x7b") :
    Yields (rightSide n g op) b fun _ b' inner => (op.form.IsBraced → inner ≠ []) ∧
      (op.form = .plain → RightOperand op.rightLeast b' inner) := by
  have hg : Sound g := Climbing.sound
  refine .of_readable fun hr => ?_
  have hmore : op.form.IsBraced → More b := fun h =>
    more_of_textAt_ne hr (by rw [hbrace h]; decide)
  unfold rightSide
  cases hform : op.form with
  | plain =>
    refine (yields_rightOperand _).imp fun _ _ _ _ h => ⟨?_, fun _ => h⟩
    rintro (h | h) <;> cases h
  | switchArms =>
    rw [hform] at hbrace hmore
    have hopening := startsText_iff.2 (hbrace (.inl rfl))
    exact (yields_switchArms hg (hmore (.inl rfl)) hopening).imp fun _ _ _ _ h =>
      ⟨fun _ => h, nofun⟩
  | withValues =>
    rw [hform] at hmore
    exact (yields_initializer hg (hmore (.inr rfl))).something.imp fun _ _ _ _ h =>
      ⟨fun _ => h, nofun⟩
  | _ =>
    have hsteady : Steady (rightSide n g op) := steady_rightSide hg (by rw [hform]; decide)
    unfold rightSide at hsteady
    rw [hform] at hsteady
    refine (hsteady b).imp fun _ _ _ _ _ => ⟨?_, nofun⟩
    rintro (h | h) <;> cases h

/-- The tokens of an operator and what stands to its right. The operator can be read again. -/
theorem yields_operatorRest [Climbing g] (hop : binaryOperator? b.ahead = some op) :
    Yields (bumpMany op.tokens >>= fun _ => rightSide n g op) b fun _ b' new =>
      ∃ (spelled : List Token) (inner : List Tree), new = spelled.map .leaf ++ inner ∧
        spelled.length = op.tokens ∧ binaryOperator? (Tree.tokensAll new) = some op ∧
        (op.form = .plain → RightOperand op.rightLeast b' inner) := by
  refine .of_readable fun hr => ?_
  have hm : ∀ i < op.tokens, startsEnd (b.ahead.drop i) = false := fun i hi =>
    not_startsEnd_of_textAt hr (textAt_of_binaryOperator? hop hi)
  refine (yields_bumpMany hm).bind fun _ b₁ _ _ h => ?_
  obtain ⟨spelled, hahead, hlen, rfl⟩ := h
  rw [hahead] at hop
  have hbrace : op.form.IsBraced → textAt b₁.ahead 0 = "\x7b" := fun h => by
    obtain ⟨hone, htext⟩ := binaryOperator?_braced hop h
    obtain ⟨a, rfl⟩ := List.length_eq_one_iff.1 (hlen.trans hone)
    exact htext
  refine (yields_rightSide hbrace).imp fun _ b' inner hg h => ⟨spelled, inner, rfl, hlen, ?_, h.2⟩
  rw [Tree.tokensAll_append, Tree.tokensAll_map_leaf]
  refine binaryOperator?_again hop hlen hg.readsLike fun hbraced htokens => ?_
  obtain ⟨y, ys, rfl⟩ := List.exists_cons_of_ne_nil (h.1 hbraced)
  have hy : y.tokens ≠ [] := Tree.tokens_ne_nil_of_formed (Tree.everyAll_cons.1 hg.formed).1
  rw [Tree.tokensAll_cons] at htokens
  exact hy (List.append_eq_nil_iff.1 htokens).1

/-! ### The loop over operators -/

theorem BinaryForm.kind_ne_error (form : BinaryForm) : form.kind ≠ .error := by
  cases form <;> decide

theorem BinaryForm.eq_plain (form : BinaryForm) (h : form.kind = .binaryExpression) :
    form = .plain := by
  cases form <;> first
    | rfl
    | cases h

/-- The invariant of the loop, with `parts` in front of the expression. -/
def Climbed (least : Nat) (parts : Array Tree) (b : Builder) : Prop :=
  ∃ x, b.parts = parts.push x ∧ x.isNode = true ∧ Bounded least x ∧ Settled x b.ahead

/-- An operator that binds tightly enough keeps the invariant, with the node that it makes. -/
theorem climbed_wrapLast [Climbing g] {parts : Array Tree} {c c' : Builder} {result : Unit}
    (hc : Readable c) (hI : Climbed least parts c) (hop : binaryOperator? c.ahead = some op)
    (hleast : least ≤ op.precedence)
    (hrun : wrapLast op.form.kind (bumpMany op.tokens >>= fun _ => rightSide n g op) c =
      .ok (result, c')) : Makes c c' ∧ Climbed least parts c' := by
  obtain ⟨x, hparts, hx, hbounded, hsettled⟩ := hI
  have hlast : c.parts.toList = parts.toList ++ [x] := by simp [hparts]
  obtain ⟨d, hinner, rfl⟩ := exists_of_wrapLast hlast hrun
  have hfresh : Readable { c with parts := #[x] } := hc
  obtain ⟨new, hg, spelled, inner, rfl, hlen, hagain, hright⟩ :=
    yields_operatorRest (b := { c with parts := #[x] }) hop hfresh _ _ hinner
  have hd : d.parts.toList = x :: (spelled.map .leaf ++ inner) := by simpa using hg.parts
  have hoperator : operatorBehind? d.parts.toList = some op := by rw [hd]; exact hagain
  have hmakes : Makes { c with parts := #[x] } d := Moves.makes hfresh hinner
  have hk : Closable op.form.kind d.parts.toList d.errors := by
    refine ⟨fun h => absurd h op.form.kind_ne_error, fun h => ?_⟩
    rw [hd]
    exact grouped_of_step hx hop hsettled (hd ▸ hoperator) hlen (hright (op.form.eq_plain h))
  refine ⟨.wrap (by simpa [hparts] using hmakes) hk, ?_⟩
  refine ⟨.node op.form.kind d.parts.toList, by simp [hparts], rfl, ?_, ?_⟩
  · rintro kind inner' heq - -
    cases heq
    exact ⟨op, hoperator, hleast⟩
  · rintro inner' heq htwo
    obtain ⟨hkind, rfl⟩ := Tree.node.inj heq
    rw [hd, operands_cons_map_leaf hx] at htwo
    obtain rfl | ⟨r, rfl, -, -, hstopped⟩ := hright (op.form.eq_plain hkind)
    · simp [operands] at htwo
    · exact ⟨op, hoperator, hstopped⟩

theorem climbed_step [Climbing g] {parts : Array Tree} {c c' : Builder} {again : Bool}
    (hc : Readable c) (hI : Climbed least parts c)
    (hrun : (do
      match binaryOperator? (← ahead) with
      | none => return false
      | some op =>
        if op.precedence < least then return false
        wrapLast op.form.kind do
          bumpMany op.tokens
          rightSide n g op
        return true : Parse Bool) c = .ok (again, c')) :
    Makes c c' ∧ Climbed least parts c' ∧ (again = false → Stopped least c'.ahead) := by
  obtain ⟨ts, c₁, hahead, hrun⟩ := exists_of_bind hrun
  obtain ⟨rfl, rfl⟩ : ts = c.ahead ∧ c₁ = c := by
    cases hahead
    exact ⟨rfl, rfl⟩
  cases hop : binaryOperator? c₁.ahead with
  | none =>
    simp only [hop] at hrun
    obtain ⟨-, rfl⟩ := eq_of_pure hrun
    exact ⟨.refl _, hI, fun _ q hq => by simp [hop] at hq⟩
  | some op =>
    simp only [hop] at hrun
    split at hrun
    · rename_i hlt
      obtain ⟨-, rfl⟩ := eq_of_pure hrun
      refine ⟨.refl _, hI, fun _ q hq => ?_⟩
      obtain rfl : op = q := Option.some.inj (hop.symm.trans hq)
      exact hlt
    · rename_i hle
      obtain ⟨_, c₂, hwrap, hrest⟩ := exists_of_bind hrun
      obtain ⟨rfl, rfl⟩ := eq_of_pure hrest
      obtain ⟨hmakes, hclimbed⟩ := climbed_wrapLast hc hI hop (Nat.le_of_not_lt hle) hwrap
      exact ⟨hmakes, hclimbed, nofun⟩

/-- An expression with operators moves, and operators in it are grouped and bind tightly enough. -/
theorem climbs_binary [Climbing g] {found : Bool} (hb : Readable b)
    (hrun : binary n g least b = .ok (found, b')) :
    Makes b b' ∧ (found = true → ∃ x, b'.parts = b.parts.push x ∧ x.isNode = true ∧
      Bounded least x ∧ Stopped least b'.ahead) := by
  have hg : Sound g := Climbing.sound
  obtain ⟨ok, b₁, hunary, hrest⟩ := exists_of_bind hrun
  have hmakes : Makes b b₁ := Moves.makes hb hunary
  cases ok with
  | false =>
    obtain ⟨rfl, rfl⟩ := eq_of_pure hrest
    exact ⟨hmakes, nofun⟩
  | true =>
    obtain ⟨_, b₂, hloop, hrest⟩ := exists_of_bind hrest
    obtain ⟨rfl, rfl⟩ := eq_of_pure hrest
    have hfirst : Climbed least b.parts b₁ := by
      obtain ⟨_, hg₁, x, rfl, -⟩ := yields_unary hg hb _ _ hunary
      obtain ⟨y, hy, hoperand⟩ := (finds_unary hg).finds hb hunary
      have hparts : b₁.parts = b.parts.push x := by
        apply Array.toList_inj.1
        simpa using hg₁.parts
      obtain rfl : x = y := by simpa [hparts] using hy
      obtain ⟨kind, parts, rfl, -⟩ := id hoperand
      exact ⟨_, hparts, rfl, hoperand.bounded, hoperand.settled⟩
    have hend := repeatUpTo_ends (I := fun c => Makes b₁ c ∧ Climbed least b.parts c)
      (F := fun c => Stopped least c.ahead) ?_ ⟨.refl b₁, hfirst⟩ hloop
    · obtain ⟨⟨hmakes', x, hparts, hx, hbounded, -⟩, hstopped⟩ := hend
      exact ⟨hmakes.trans hmakes', fun _ => ⟨x, hparts, hx, hbounded, hstopped⟩⟩
    · intro c again c' hI hstep
      have hc := hI.1.readable (hmakes.readable hb)
      obtain ⟨h, hclimbed, hstopped⟩ := climbed_step hc hI.2 hstep
      exact ⟨⟨hI.1.trans h, hclimbed⟩, hstopped⟩

instance Moves.binary [Climbing g] : Moves (Grammar.binary n g least) where
  makes hb hrun := (climbs_binary hb hrun).1

end PluginLint.Grammar
