import GuidedChart.Grammar.Builder
import GuidedChart.Grammar.Statement

/-!
# Reading a grammar

The statements of a text are carried out in order: the semantic function is resolved, then the rule
is added. The first error in the order of the text is the answer, be it in how a statement is
written or in what it means.
-/

namespace GuidedChart

def GrammarBuilder.addStatement (registry : Registry) (builder : GrammarBuilder)
    (statement : Statement) : Except Error GrammarBuilder := do
  let semantics ← (registry.resolve statement.function statement.args).mapError Error.config
  let (builder, _) ←
    (builder.addRule statement.lhs statement.rhs statement.floating semantics).mapError
      Error.grammar
  return builder

/-- The grammar of a text, with semantic functions from a registry. -/
def Grammar.read (registry : Registry) (text : String) : Except Error Grammar := do
  let (statements, broken?) := Statement.readAll text
  let builder ← statements.foldlM (GrammarBuilder.addStatement registry) GrammarBuilder.empty
  match broken? with
  | some error => .error (.grammar error)
  | none => builder.build.mapError Error.grammar

def Grammar.ofText (text : String) : Except Error Grammar :=
  Grammar.read Registry.standard text

end GuidedChart
