import SeqSlice.Config.Basic
import SeqSlice.Descriptor.Basic
import SeqSlice.Extension.Creation
import SeqSlice.Program.Coding
import SeqSlice.Slice.Phase

/-! Why a run fails. -/

set_option autoImplicit false
namespace SeqSlice

inductive Error where
  | criteria (error : CriteriaError)
  | config (error : ConfigError)
  | noConstructor (site : SiteId) (point : PointId)
  | defect (defect : Defect)
  | noEntryBody (name : String)
  | phase (error : PhaseError)
  | io
  | json
  | unknown (id : UnknownId)
  deriving DecidableEq, Repr, Inhabited

namespace Error

def message : Error → String
  | .criteria error => "Criteria error: " ++ error.message
  | .config error => "Configuration error: " ++ error.message
  | .noConstructor site point =>
      "Extension error: " ++ (ExtensionError.noConstructor site point).message
  | .defect cause => "Program error: " ++ cause.message
  | .noEntryBody name => s!"Program error: entry method {name} has no body"
  | .phase error => error.message
  | .io => "IO error"
  | .json => "JSON error"
  | .unknown id => id.message

def ofExtension : ExtensionError → Error
  | .noConstructor site point => .noConstructor site point
  | .unknown id => .unknown id

def ofLoad : LoadError → Error
  | .json => .json
  | .defect cause => .defect cause

end Error
end SeqSlice
