import PluginLint.Rules.Rule
import PluginLint.Text.Blank
import PluginLint.Text.Quoted

/-!
# Catalogs of rules

The rules of a run, in a fixed order. No two of them have the same code. Which rules look at a kind
of node is read off a table that is made once, with the catalog.
-/
namespace PluginLint

/-- Why there is no such catalog. -/
inductive CatalogError where
  | duplicateCode (code : String)
  | unknownRule (selector : String)
  deriving DecidableEq, Repr

namespace CatalogError

def name : CatalogError → String
  | .duplicateCode _ => "DuplicateCode"
  | .unknownRule _ => "UnknownRule"

def message : CatalogError → String
  | .duplicateCode code => "duplicate rule code: " ++ code
  | .unknownRule selector => "unknown rule: " ++ selector

end CatalogError

/-- The positions of the rules that look at each kind of node. -/
abbrev Routes := List (NodeKind × List Nat)

namespace Routes

/-- The positions under a kind. -/
def get (t : Routes) (kind : NodeKind) : List Nat := (t.lookup kind).getD []

/-- Adds a position under a kind, behind those that are there. -/
def add (kind : NodeKind) (i : Nat) : Routes → Routes
  | [] => [(kind, [i])]
  | (k, positions) :: rest =>
    if kind = k then (k, positions ++ [i]) :: rest else (k, positions) :: add kind i rest

/-- Adds a rule under its kinds; a kind that the rule names twice counts once. -/
def addRule (t : Routes) (r : Rule) (i : Nat) : Routes :=
  r.triggers.eraseDups.foldl (fun t kind => t.add kind i) t

/-- The table for rules in order. -/
def ofRules (rules : List Rule) : Routes :=
  rules.zipIdx.foldl (fun t (r, i) => t.addRule r i) []

@[simp] theorem get_nil (kind : NodeKind) : get [] kind = [] := rfl

theorem get_add (kind : NodeKind) (i : Nat) (t : Routes) (k : NodeKind) :
    (t.add kind i).get k = if k = kind then t.get k ++ [i] else t.get k := by
  induction t with
  | nil =>
    by_cases hk : k = kind
    · simp [add, get, hk]
    · simp [add, get, List.lookup_cons, hk, beq_false_of_ne hk]
  | cons entry t ih =>
    obtain ⟨kind', positions⟩ := entry
    by_cases hkind : kind = kind'
    · subst hkind
      by_cases hk : k = kind
      · simp [add, get, hk]
      · simp [add, get, List.lookup_cons, hk, beq_false_of_ne hk]
    · by_cases hk : k = kind'
      · subst hk
        simp [add, get, hkind, Ne.symm hkind]
      · simp only [get, add, if_neg hkind, List.lookup_cons, beq_false_of_ne hk] at ih ⊢
        exact ih

end Routes

/-- The rules of a run, with the table that is made of them. -/
structure Catalog where
  rules : List Rule
  nodup : (rules.map Rule.code).Nodup
  routes : Routes := .ofRules rules
  routed : routes = .ofRules rules := by rfl

namespace Catalog

/-- The first code that occurred before. -/
def firstRepeated? (seen : List String) : List String → Option String
  | [] => none
  | c :: cs => if seen.contains c then some c else firstRepeated? (c :: seen) cs

theorem nodup_of_firstRepeated? {seen codes : List String} (h : firstRepeated? seen codes = none) :
    codes.Nodup ∧ ∀ c ∈ codes, c ∉ seen := by
  induction codes generalizing seen with
  | nil => simp
  | cons c cs ih =>
    simp only [firstRepeated?] at h
    split at h
    · cases h
    · rename_i hc
      obtain ⟨hn, hs⟩ := ih h
      refine ⟨List.nodup_cons.2 ⟨fun hm => hs c hm (by simp), hn⟩, ?_⟩
      intro d hd
      rcases List.mem_cons.1 hd with rfl | hd
      · simpa using hc
      · exact fun hm => hs d hd (by simp [hm])

/-- The catalog of a list of rules. -/
def ofRules (rules : List Rule) : Except CatalogError Catalog :=
  match h : firstRepeated? [] (rules.map Rule.code) with
  | some code => .error (.duplicateCode code)
  | none => .ok { rules, nodup := (nodup_of_firstRepeated? h).1 }

def size (c : Catalog) : Nat := c.rules.length

def codes (c : Catalog) : List String := c.rules.map Rule.code

/-- The positions of the rules that look at nodes of a kind. -/
def indicesFor (c : Catalog) (kind : NodeKind) : List Nat := c.routes.get kind

/-- The rules that look at nodes of a kind, in order. -/
def rulesFor (c : Catalog) (kind : NodeKind) : List Rule :=
  (c.indicesFor kind).filterMap fun i => c.rules[i]?

/-- A selector is a code in upper or lower case, or a name. -/
def selects (selector : String) (r : Rule) : Bool :=
  Text.eqIgnoreCase r.code selector || r.name == selector

/-- The first rule that a selector selects. -/
def get? (c : Catalog) (selector : String) : Option Rule := c.rules.find? (selects selector)

/-- The codes of the rules that the selectors select, which have to select one each. -/
def wantedCodes (c : Catalog) : List String → Except CatalogError (List String)
  | [] => .ok []
  | s :: selectors => do
    let selector := Text.trim s
    match c.get? selector with
    | some r => return r.code :: (← c.wantedCodes selectors)
    | none => throw (.unknownRule selector)

/-- The rules that a test accepts. -/
def restrict (c : Catalog) (p : Rule → Bool) : Catalog :=
  { rules := c.rules.filter p, nodup := (List.filter_sublist.map Rule.code).nodup c.nodup }

/-- The selected rules, in their order, as a catalog of their own. -/
def select (c : Catalog) (selectors : List String) : Except CatalogError Catalog := do
  let wanted ← c.wantedCodes selectors
  ofRules (c.rules.filter fun r => wanted.contains r.code)

/-- The catalog for people to look at. -/
def describe (c : Catalog) : String :=
  "RuleCatalog \x7b codes: [" ++ Text.join ", " (c.codes.map Text.quoted) ++ "] \x7d"

end Catalog

end PluginLint
