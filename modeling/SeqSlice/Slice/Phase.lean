/-! The phases of a run. -/

set_option autoImplicit false
namespace SeqSlice

inductive Phase where
  | built
  | bottomUpRunning
  | bottomUpDone
  | topDownRunning
  | done
  deriving DecidableEq, Repr, Inhabited

structure PhaseError where
  expected : Phase
  found : Phase
  deriving DecidableEq, Repr, Inhabited

namespace Phase

def name : Phase → String
  | .built => "Built"
  | .bottomUpRunning => "BottomUpRunning"
  | .bottomUpDone => "BottomUpDone"
  | .topDownRunning => "TopDownRunning"
  | .done => "Done"

def next? : Phase → Option Phase
  | .built => some .bottomUpRunning
  | .bottomUpRunning => some .bottomUpDone
  | .bottomUpDone => some .topDownRunning
  | .topDownRunning => some .done
  | .done => none

def ensure (phase expected : Phase) : Except PhaseError Unit :=
  if phase = expected then .ok () else .error ⟨expected, phase⟩

end Phase

def PhaseError.message (error : PhaseError) : String :=
  s!"Invalid tailoring state: expected {error.expected.name}, found {error.found.name}"

end SeqSlice
