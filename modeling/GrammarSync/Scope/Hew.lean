/-
# The table of the Hew grammar

The scopes of `source.hew` and the sections of its grammar.
-/
import GrammarSync.Scope.Table

namespace GrammarSync
namespace ScopeTable

/-- The scopes of the Hew grammar. -/
def hewRules : List Rule := [
  ⟨"keyword.control.hew", .keyword, ["control_flow"],
    ["select", "join", "after", "from", "await", "scope", "cooperate"], [], none⟩,
  ⟨"keyword.declaration.hew", .keyword, ["declarations"], [], [], none⟩,
  ⟨"keyword.actor.hew", .keyword, [], ["actor", "receive", "init", "spawn", "move"], [], none⟩,
  ⟨"keyword.supervisor.hew", .keyword, [],
    ["supervisor", "child", "restart", "budget", "strategy"], [], none⟩,
  ⟨"constant.language.strategy.hew", .keyword, [],
    ["permanent", "transient", "temporary", "one_for_one", "one_for_all", "rest_for_one"],
    [], none⟩,
  ⟨"keyword.wire.hew", .keyword, ["wire"], [], [], none⟩,
  ⟨"keyword.other.hew", .keyword, ["other"], ["isolated"], [], none⟩,
  ⟨"keyword.operator.logical.hew", .keyword, [], ["and", "or"], [], none⟩,
  ⟨"constant.language.boolean.hew", .keyword, [], ["true", "false"], [], none⟩,
  ⟨"keyword.reserved.hew", .keyword, ["reserved_unused"], [], [],
    some "Reserved keywords (not yet used in the language)"⟩,
  ⟨"storage.type.numeric.hew", .typeName, ["integer", "float"], [], [], none⟩,
  ⟨"storage.type.primitive.hew", .typeName, ["primitive"], [], [], none⟩,
  ⟨"storage.type.generic.hew", .typeName, ["collections", "other"],
    ["Option", "Result", "Ok", "Err", "Some", "Arc", "Rc", "Weak"], [], none⟩,
  ⟨"storage.type.concurrency.hew", .typeName, ["concurrency"], [], [], none⟩,
  ⟨"storage.type.trait.hew", .typeName, [], ["Send", "Frozen", "Copy"], [], none⟩,
  ⟨"variable.language.contextual.hew", .contextual, [], [], ["self", "description"],
    some "Contextual identifiers (special meaning in specific contexts)"⟩]

/-- The sections of the Hew grammar. -/
def hewRoutes : List Route := [
  ⟨"keyword.", "keywords", none⟩,
  ⟨"constant.language.", "keywords", none⟩,
  ⟨"storage.type.", "types", none⟩,
  ⟨"variable.language.", "variables", some "variable.other.hew"⟩]

/-- The table of the Hew grammar. -/
def hew : ScopeTable :=
  ⟨hewRules, hewRoutes⟩

end ScopeTable
end GrammarSync
