import SeqSlice.Fact.Coding
import SeqSlice.Solver.Tabulation

/-! The JSON form of a solution: the facts of each visited statement, with zero
apart, and the size of the tables. -/

set_option autoImplicit false
namespace SeqSlice

def Tabulation.toJson {D : Type} [DecidableEq D] (table : Tabulation D) (zero : D)
    (writeFacts : List D → Json) : Json := .object [
  ("facts", .ofList (fun point =>
    let facts := table.factsAt point
    .list [.ofNat point, .bool (facts.contains zero), writeFacts (facts.filter (· != zero))])
    (ascending table.visited)),
  ("path_edges", .ofNat table.edges.length),
  ("iterations", .ofNat table.edges.length),
  ("summary_edges", .ofNat table.summaries.length)]

end SeqSlice
