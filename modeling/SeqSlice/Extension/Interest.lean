import SeqSlice.Supergraph.Basic
import SeqSlice.Tag.Table

/-! Which methods are of interest to a match: those entered through a call that
may go to several methods, or from a branch, directly or through their callers.

Answers are kept. While a method is being asked about it counts as of no
interest, and an answer that was found under this assumption is kept as well. -/

set_option autoImplicit false
namespace SeqSlice.Interest

abbrev Answers := List (MethodId × Bool)

variable (graph : Supergraph) (tags : TagTable) (config : Config)

/-- A dispatching call that enters more than one method, initializers apart. -/
def isPolymorphic (call : PointId) : Bool :=
  (graph.program.callSite? call).any (·.invoke.isDispatching) &&
    decide (1 < ((graph.callees call).filter fun method =>
      !config.isStaticInitializer (graph.program.methodName method)).length)

def anyCaller (ask : Answers → MethodId → Bool × Answers) (answers : Answers) :
    List PointId → Bool × Answers
  | [] => (false, answers)
  | caller :: rest =>
      if graph.isCall caller then
        if tags.pointHas caller .branch then (true, answers)
        else
          match ask answers (graph.methodOf caller) with
          | (true, answers) => (true, answers)
          | (false, answers) => anyCaller ask answers rest
      else anyCaller ask answers rest

/-- The number bounds the length of the chain of callers. Methods behind a
recursive call are of no interest. -/
def askMethod : Nat → Answers → MethodId → Bool × Answers
  | 0, answers, _ => (false, answers)
  | depth + 1, answers, method =>
      match answers.lookup method with
      | some known => (known, answers)
      | none =>
          -- No, for whoever comes back to the method before it is answered.
          let pending := (method, false) :: answers
          if tags.methodHas method .interCycle then (false, pending)
          else
            let callers := graph.callers method
            if callers.any (isPolymorphic graph config) then (true, (method, true) :: pending)
            else
              let (result, later) := anyCaller graph tags (askMethod depth) pending callers
              (result, (method, result) :: later)

/-- A chain of callers that are not answered yet repeats no method. -/
def ofMethod (answers : Answers) (method : MethodId) : Bool × Answers :=
  askMethod graph tags config (graph.program.methods.length + 1) answers method

def ofPoint (answers : Answers) (point : PointId) : Bool × Answers :=
  if tags.pointHas point .branch then (true, answers)
  else ofMethod graph tags config answers (graph.methodOf point)

end SeqSlice.Interest
