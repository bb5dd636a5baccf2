import SeqSlice.Graph.Basic
import SeqSlice.Program.Basic

/-! The call graph of the methods reached from the entry, and how recursion is
cut out of it. -/

set_option autoImplicit false
namespace SeqSlice

/-- Rows of calls that are not entered: at the statement, none of the methods. -/
structure BlockedCalls where
  rows : List (PointId × List MethodId)
  deriving DecidableEq, Repr, Inhabited

namespace BlockedCalls

def empty : BlockedCalls := ⟨[]⟩

def isEmpty (blocked : BlockedCalls) : Bool := blocked.rows.isEmpty

def contains (blocked : BlockedCalls) (call : PointId) (callee : MethodId) : Bool :=
  blocked.rows.any fun row => row.1 == call && row.2.contains callee

def ofPairs (pairs : List (PointId × MethodId)) : BlockedCalls :=
  ⟨pairs.map fun (call, callee) => (call, [callee])⟩

def calls (blocked : BlockedCalls) : List PointId := (blocked.rows.map (·.1)).eraseDups

def calleesAt (blocked : BlockedCalls) (call : PointId) : List MethodId :=
  ((blocked.rows.filter (·.1 == call)).flatMap (·.2)).eraseDups

end BlockedCalls

structure CallSource where
  entry : MethodId
  methods : List MethodId
  methodOf : PointId → MethodId
  callsWithin : MethodId → List PointId
  callees : PointId → List MethodId
  callers : MethodId → List PointId

namespace CallSource

variable (source : CallSource)

def calledFrom (blocked : BlockedCalls) (method : MethodId) : List MethodId :=
  (source.callsWithin method).flatMap fun call =>
    (source.callees call).filter fun callee => !blocked.contains call callee

def graph (blocked : BlockedCalls) : Digraph :=
  Digraph.explore (source.calledFrom blocked) source.methods [source.entry]

/-- The method at which the next cut is made: the first one on a cycle that a
depth-first walk from the entry meets. -/
def firstRecursive? (graph : Digraph) (components : List (List MethodId)) : Option MethodId :=
  (Graph.visit .stack graph.succs graph.nodes [source.entry]).find? fun method =>
    components.any (·.contains method)

def listedCalls : List (PointId × MethodId) :=
  source.methods.flatMap fun method => (source.callers method).map fun call => (call, method)

/-- The calls to that method from within its component that are still open. -/
def nextCut (cut : List (PointId × MethodId)) : List (PointId × MethodId) :=
  let blocked := BlockedCalls.ofPairs cut
  let graph := source.graph blocked
  let components := graph.cyclicComponents
  match source.firstRecursive? graph components with
  | none => []
  | some method =>
      let component := (components.find? (·.contains method)).getD []
      source.listedCalls.filter fun (call, callee) =>
        callee == method && component.contains (source.methodOf call) &&
          (source.callees call).contains callee && !cut.contains (call, callee)

theorem countP_lt_countP {α : Type} {weak strong : α → Bool} {values : List α} {value : α}
    (implied : ∀ other ∈ values, strong other = true → weak other = true)
    (member : value ∈ values) (holds : weak value = true) (fails : ¬ strong value = true) :
    values.countP strong < values.countP weak := by
  induction values with
  | nil => simp at member
  | cons first rest ih =>
      have others : rest.countP strong ≤ rest.countP weak :=
        List.countP_mono_left fun other inside =>
          implied other (List.mem_cons_of_mem _ inside)
      rw [List.countP_cons, List.countP_cons]
      rcases List.mem_cons.mp member with same | inside
      · subst same
        rw [if_pos holds, if_neg fails]
        omega
      · have smaller := ih (fun other found => implied other (List.mem_cons_of_mem _ found)) inside
        have head := implied first List.mem_cons_self
        by_cases strongFirst : strong first = true
        · rw [if_pos strongFirst, if_pos (head strongFirst)]
          omega
        · rw [if_neg strongFirst]
          split <;> omega

theorem mem_nextCut {cut : List (PointId × MethodId)} {pair : PointId × MethodId}
    (member : pair ∈ source.nextCut cut) : pair ∈ source.listedCalls ∧ pair ∉ cut := by
  rw [nextCut] at member
  split at member
  · simp at member
  · obtain ⟨listed, remaining⟩ := List.mem_filter.mp member
    exact ⟨listed, by simpa using (Bool.and_eq_true_iff.mp remaining).2⟩

def cutFrom (cut : List (PointId × MethodId)) : List (PointId × MethodId) :=
  match _found : source.nextCut cut with
  | [] => cut
  | first :: rest => cutFrom (cut ++ first :: rest)
-- Each round cuts listed calls that were open until then.
termination_by (source.listedCalls.filter fun pair => !cut.contains pair).length
decreasing_by
  obtain ⟨listed, absent⟩ := source.mem_nextCut (_found ▸ List.mem_cons_self : first ∈ _)
  rw [← List.countP_eq_length_filter, ← List.countP_eq_length_filter]
  refine countP_lt_countP ?_ listed (by simpa using absent) (by simp)
  intro pair _ inside
  simp only [List.contains_eq_mem, List.mem_append, Bool.not_eq_true', decide_eq_false_iff_not,
    not_or] at inside ⊢
  exact inside.1

/-- The calls to block so that no method calls itself, directly or not. -/
def recursionBlocks : BlockedCalls := .ofPairs (source.cutFrom [])

end CallSource
end SeqSlice
