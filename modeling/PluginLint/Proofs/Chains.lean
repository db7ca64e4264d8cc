import PluginLint.Syntax.Chain

/-!
# The spine of a chain

From an expression a chain goes to the left: from a call to what it calls, from a member to the
object it is taken from. The calls on the way are the calls of the chain; they can also be asked for
one at a time.
-/
namespace PluginLint

namespace Node

/-! ### The way to the left -/

/-- The expressions passed on the way to the left. It stops where there is nothing to go to, and at
a call that calls nothing or calls through `?.`, which is not passed. -/
inductive Spine : Node → List Node → Prop
  | call {e c : Node} {s : List Node} (hkind : e.kind = .invocationExpression)
    (hcallee : e.callee? = some c) (hc : c.kind ≠ .conditionalAccessExpression) (h : Spine c s) :
    Spine e (e :: s)
  | calleeMissing {e : Node} (hkind : e.kind = .invocationExpression) (hcallee : e.callee? = none) :
    Spine e []
  | conditional {e c : Node} (hkind : e.kind = .invocationExpression) (hcallee : e.callee? = some c)
    (hc : c.kind = .conditionalAccessExpression) : Spine e []
  | member {e r : Node} {s : List Node} (hkind : e.kind = .simpleMemberAccessExpression)
    (hreceiver : e.receiver? = some r) (h : Spine r s) : Spine e (e :: s)
  | receiverMissing {e : Node} (hkind : e.kind = .simpleMemberAccessExpression)
    (hreceiver : e.receiver? = none) : Spine e [e]
  | other {e : Node} (hcall : e.kind ≠ .invocationExpression)
    (hmember : e.kind ≠ .simpleMemberAccessExpression) : Spine e [e]

section

variable {e : Node} {s s' : List Node}

theorem Spine.unique (h : Spine e s) (h' : Spine e s') : s' = s := by
  induction h generalizing s' with
  | call hkind hcallee hc h ih =>
    cases h' with
    | call _ hcallee' _ h' =>
      obtain rfl := Option.some.inj (hcallee.symm.trans hcallee')
      rw [ih h']
    | _ => simp_all
  | member hkind hreceiver h ih =>
    cases h' with
    | member _ hreceiver' h' =>
      obtain rfl := Option.some.inj (hreceiver.symm.trans hreceiver')
      rw [ih h']
    | _ => simp_all
  | _ => cases h' <;> simp_all

/-- The calls of the chain are those on the way to the left. -/
theorem exists_spine (e : Node) : ∃ s, Spine e s ∧ s.length ≤ e.size ∧
      e.chainLinks = s.filter fun c => c.kind = .invocationExpression := by
  have hpos (n : Node) : 1 ≤ n.size := by rw [size_eq]; omega
  -- The chain and the way to the left go through the same nodes, one rule for each of its cases.
  fun_induction chainLinks e with
  | case1 e hkind c hcallee hc => exact ⟨[], .conditional hkind hcallee hc, by simp⟩
  | case2 e hkind c hcallee hc ih =>
    obtain ⟨s, h, hlength, hlinks⟩ := ih
    have := size_callee hcallee
    refine ⟨e :: s, .call hkind hcallee hc h, by rw [List.length_cons]; omega, ?_⟩
    rw [List.filter_cons_of_pos (by simpa using hkind), hlinks]
  | case3 e hkind hcallee => exact ⟨[], .calleeMissing hkind hcallee, by simp⟩
  | case4 e hcall hkind r hreceiver ih =>
    obtain ⟨s, h, hlength, hlinks⟩ := ih
    have := size_receiver hreceiver
    refine ⟨e :: s, .member hkind hreceiver h, by rw [List.length_cons]; omega, ?_⟩
    rw [List.filter_cons_of_neg (by simpa using hcall), hlinks]
  | case5 e hcall hkind hreceiver =>
    exact ⟨[e], .receiverMissing hkind hreceiver, hpos e, by simp [hcall]⟩
  | case6 e hcall hmember => exact ⟨[e], .other hcall hmember, hpos e, by simp [hcall]⟩

theorem Spine.chainLinks_eq (h : Spine e s) :
    e.chainLinks = s.filter fun c => c.kind = .invocationExpression := by
  obtain ⟨s', h', -, hlinks⟩ := exists_spine e
  rwa [h.unique h'] at hlinks

/-- Nothing is passed behind `?.`. -/
theorem Spine.eq_nil_of_conditional (h : Spine e s) {before after : List Node} {c : Node}
    (hs : s = before ++ c :: after) (hc : c.kind = .conditionalAccessExpression) : after = [] := by
  induction h generalizing before with
  | calleeMissing | conditional => simp at hs
  | receiverMissing | other =>
    cases before <;> simp_all
  | call hkind | member hkind =>
    cases before <;> simp_all

/-! ### Names -/

theorem tokens_place_append_node (path : List Nat) (start i : Nat) (parts : List Tree)
    (kind : NodeKind) (inner : List Tree) :
    (place path start i (parts ++ [.node kind inner])).filterMap Element.token? =
      (place path start i parts).filterMap Element.token? := by
  induction parts generalizing start i with
  | nil => simp [place, Element.token?]
  | cons t parts ih => cases t <;> simp [place, List.filterMap_cons, Element.token?, ih]

/-- A name with type arguments behind it is the same name. -/
theorem simpleName?_generic (parts inner : List Tree) (kind : NodeKind) (start : Nat)
    (path : List Nat) :
    (⟨.genericName, parts ++ [.node kind inner], start, path⟩ : Node).simpleName? =
      (⟨.identifierName, parts, start, path⟩ : Node).simpleName? := by
  simp only [simpleName?, NodeKind.isSimpleName, if_true, identifier?, childTokens, elements,
    tokens_place_append_node]

/-- The name is what the call calls, or is taken there from an object. The type arguments of the
name, which are below it, do not count. -/
inductive CallsName (call : Node) : String → Prop
  | name {c : Node} {t : PlacedToken} (hcallee : call.callee? = some c)
    (hc : c.kind.isSimpleName = true) (ht : c.identifier? = some t) : CallsName call t.text
  | ofMember {c name : Node} {t : PlacedToken} (hcallee : call.callee? = some c)
    (hc : c.kind.isSimpleName = false) (hname : c.memberName? = some name)
    (ht : name.identifier? = some t) : CallsName call t.text

theorem isSimpleName_of_memberName? {c name : Node} (h : c.memberName? = some name) :
    name.kind.isSimpleName = true := by
  unfold memberName? at h
  split at h
  · exact List.find?_some (p := fun c : Node => c.kind.isSimpleName) h
  · cases h

theorem simpleName?_eq_some_iff {name : Node} {a : String} (h : name.kind.isSimpleName = true) :
    name.simpleName? = some a ↔ ∃ t, name.identifier? = some t ∧ t.text = a := by
  rw [simpleName?, if_pos h, Option.map_eq_some_iff]

theorem invokedName?_eq_some_iff {call : Node} {a : String} :
    call.invokedName? = some a ↔ call.CallsName a := by
  constructor
  · intro h
    simp only [invokedName?, Option.bind_eq_bind, Option.bind_eq_some_iff] at h
    obtain ⟨c, hcallee, h⟩ := h
    split at h
    · rename_i hc
      obtain ⟨t, ht, rfl⟩ := (simpleName?_eq_some_iff hc).1 h
      exact .name hcallee hc ht
    · rename_i hc
      obtain ⟨name, hname, h⟩ := Option.bind_eq_some_iff.1 h
      obtain ⟨t, ht, rfl⟩ := (simpleName?_eq_some_iff (isSimpleName_of_memberName? hname)).1 h
      exact .ofMember hcallee (Bool.eq_false_iff.2 hc) hname ht
  · intro h
    cases h with
    | name hcallee hc ht =>
      simp [invokedName?, hcallee, hc, (simpleName?_eq_some_iff hc).2 ⟨_, ht, rfl⟩]
    | ofMember hcallee hc hname ht =>
      have hkind := isSimpleName_of_memberName? hname
      simp [invokedName?, hcallee, hc, hname, (simpleName?_eq_some_iff hkind).2 ⟨_, ht, rfl⟩]

theorem CallsName.kind_eq {call : Node} {a : String} (h : call.CallsName a) :
    call.kind = .invocationExpression := by
  obtain ⟨c, hcallee⟩ : ∃ c, call.callee? = some c := by
    cases h with
    | name hcallee | ofMember hcallee => exact ⟨_, hcallee⟩
  rw [callee?] at hcallee
  split at hcallee
  · assumption
  · cases hcallee

/-! ### The nearest call of a name -/

/-- The first call of the name among some expressions. -/
def Nearest (s : List Node) (a : String) (call : Node) : Prop :=
  ∃ before after, s = before ++ call :: after ∧ call.CallsName a ∧ ∀ c ∈ before, ¬ c.CallsName a

/-- Looking among the calls is looking everywhere, since only calls call a name. -/
theorem kind_and_invokedName?_iff {c : Node} {a : String} :
    (c.kind = .invocationExpression ∧ c.invokedName? = some a) ↔ c.CallsName a := by
  rw [invokedName?_eq_some_iff]
  exact ⟨And.right, fun h => ⟨h.kind_eq, h⟩⟩

theorem find?_calls_eq_some_iff {a : String} {call : Node} :
    (s.filter fun c => c.kind = .invocationExpression).find? (fun c => c.invokedName? == some a) =
      some call ↔ Nearest s a call := by
  simp only [List.find?_filter, List.find?_eq_some_iff_append, Bool.not_eq_true',
    decide_eq_false_iff_not, decide_eq_true_eq, beq_iff_eq, kind_and_invokedName?_iff]
  constructor
  · rintro ⟨hcall, before, after, hs, hbefore⟩
    exact ⟨before, after, hs, hcall, hbefore⟩
  · rintro ⟨before, after, hs, hcall, hbefore⟩
    exact ⟨hcall, before, after, hs, hbefore⟩

theorem find?_calls_eq_none_iff {a : String} :
    (s.filter fun c => c.kind = .invocationExpression).find? (fun c => c.invokedName? == some a) =
      none ↔ ∀ c ∈ s, ¬ c.CallsName a := by
  simp only [List.find?_filter, List.find?_eq_none, decide_eq_true_eq, beq_iff_eq,
    kind_and_invokedName?_iff]

end

/-! ### Calls asked for one at a time -/

/-- Gives the next call of a chain, and where to go on. Nothing is left behind the last call. -/
def nextLink : Option Node → Option Node × Option Node
  | none => (none, none)
  | some n =>
    if n.kind = .invocationExpression then
      match n.callee? with
      | some c => if c.kind = .conditionalAccessExpression then (none, none) else (some n, some c)
      | none => (none, none)
    else if n.kind = .simpleMemberAccessExpression then
      match _h : n.receiver? with
      | some r => nextLink (some r)
      | none => nextLink none
    else (none, none)
termination_by n => (n.map size).getD 0
decreasing_by
  · exact size_receiver _h
  · rw [Option.map_some, Option.getD_some, size_eq]
    exact Nat.succ_pos _

/-- The calls that are still to come. -/
def linksLeft (n : Option Node) : List Node := (n.map chainLinks).getD []

/-- A request takes the first of the calls that are still to come. -/
theorem nextLink_eq (n : Option Node) :
    (nextLink n).1 = (linksLeft n).head? ∧ linksLeft (nextLink n).2 = (linksLeft n).tail := by
  fun_induction nextLink n with
  | case1 => exact ⟨rfl, rfl⟩
  | case2 n hkind c hcallee hc =>
    have hlinks := (Spine.conditional hkind hcallee hc).chainLinks_eq
    simp [linksLeft, hlinks]
  | case3 n hkind c hcallee hc =>
    obtain ⟨s, h, -⟩ := exists_spine c
    have hlinks := (Spine.call hkind hcallee hc h).chainLinks_eq
    rw [List.filter_cons_of_pos (by simpa using hkind), ← h.chainLinks_eq] at hlinks
    simp [linksLeft, hlinks]
  | case4 n hkind hcallee =>
    have hlinks := (Spine.calleeMissing hkind hcallee).chainLinks_eq
    simp [linksLeft, hlinks]
  | case5 n hcall hkind r hreceiver ih =>
    obtain ⟨s, h, -⟩ := exists_spine r
    have hlinks := (Spine.member hkind hreceiver h).chainLinks_eq
    rw [List.filter_cons_of_neg (by simpa using hcall), ← h.chainLinks_eq] at hlinks
    simpa [linksLeft, hlinks] using ih
  | case6 n hcall hkind hreceiver ih =>
    have hlinks := (Spine.receiverMissing hkind hreceiver).chainLinks_eq
    simpa [linksLeft, hlinks, hcall] using ih
  | case7 n hcall hmember =>
    have hlinks := (Spine.other hcall hmember).chainLinks_eq
    simp [linksLeft, hlinks, hcall]

/-- The requests give the calls of the chain in order, and nothing ever after. -/
theorem nextLink_repeat (e : Node) (i : Nat) :
    (nextLink (Nat.repeat (fun n => (nextLink n).2) i (some e))).1 = e.chainLinks[i]? := by
  have hleft : linksLeft (Nat.repeat (fun n => (nextLink n).2) i (some e)) =
      e.chainLinks.drop i := by
    induction i with
    | zero => rfl
    | succ i ih => rw [Nat.repeat, (nextLink_eq _).2, ih, List.tail_drop]
  rw [(nextLink_eq _).1, hleft, List.head?_drop]

/-! ### The nearest call -/

/-- From every expression there is one way to the left, and it ends. Nothing on it is behind a
conditional access. The chain is the calls on the way; asked for one at a time they come in order, and
nothing after them. The anchor of a name is the argument list of the first of them that calls the
name; there is none if none calls it, or if that one has none. -/
theorem findAnchor?_of_spine (e : Node) :
    ∃ s, Spine e s ∧ (∀ s', Spine e s' → s' = s) ∧ s.length ≤ e.size ∧
      (∀ before c after, s = before ++ c :: after → c.kind = .conditionalAccessExpression →
        after = []) ∧
      e.chainLinks = (s.filter fun c => c.kind = .invocationExpression) ∧
      (∀ i, (nextLink (Nat.repeat (fun n => (nextLink n).2) i (some e))).1 =
        (s.filter fun c => c.kind = .invocationExpression)[i]?) ∧
      ∀ a : String,
        (∀ list, e.findAnchor? a = some list ↔
          ∃ call, Nearest s a call ∧ call.argumentList? = some list) ∧
        (e.findAnchor? a = none ↔
          (∀ c ∈ s, ¬ c.CallsName a) ∨ ∃ call, Nearest s a call ∧ call.argumentList? = none) := by
  obtain ⟨s, h, hlength, hlinks⟩ := exists_spine e
  refine ⟨s, h, fun s' h' => h.unique h', hlength,
    fun before c after hs hc => h.eq_nil_of_conditional hs hc, hlinks,
    fun i => hlinks ▸ nextLink_repeat e i, fun a => ⟨fun list => ?_, ?_⟩⟩
  · rw [findAnchor?, hlinks, Option.bind_eq_some_iff]
    simp only [find?_calls_eq_some_iff]
  · rw [findAnchor?, hlinks, Option.bind_eq_none_iff, ← find?_calls_eq_none_iff]
    simp only [← find?_calls_eq_some_iff]
    cases (s.filter fun c => c.kind = .invocationExpression).find?
      (fun c => c.invokedName? == some a) <;> simp

end Node

end PluginLint
