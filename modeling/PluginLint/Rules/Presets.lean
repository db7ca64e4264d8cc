import PluginLint.Rules.Catalog
import PluginLint.Rules.Classes
import PluginLint.Rules.ControlFlow
import PluginLint.Rules.PluginSteps
import PluginLint.Rules.TargetNames
import PluginLint.Rules.Values

/-!
# Ready-made catalogs
-/
namespace PluginLint

/-- All rules, in the order of their codes. -/
def Rules.all : List Rule :=
  [bracesForControlFlow, enumAssignment, objectInitialization, noBracesForControlFlow,
   duplicateConstructorParameterType, pluginDocumentation, entityContains,
   filteredAttributesOnCreate, preImageOnCreate, postImageOnDelete, getTargetNaming,
   mergedTargetNaming]

namespace Catalog

theorem nodup_codes_all : (Rules.all.map Rule.code).Nodup := by decide +kernel

/-- The catalog of all rules. -/
def all : Catalog := { rules := Rules.all, nodup := nodup_codes_all }

/-- The catalog of the rules that have a fix. -/
def fixable : Catalog := all.restrict fun r => r.fix?.isSome

end Catalog

end PluginLint
