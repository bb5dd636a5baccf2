import SeqSlice.Fact.Coding
import SeqSlice.Slice.Run

/-! The JSON form of a slice. -/

set_option autoImplicit false
namespace SeqSlice

def Slice.toJson (slice : Slice) : Json := .object [
  ("tail", .ofNat slice.tail),
  ("criteria", .ofList .ofIds slice.criteria),
  ("empty", .bool slice.isEmpty),
  ("count", .ofNat slice.size),
  ("methods", .ofList (fun entry => .list [.ofNat entry.1, .ofIds entry.2]) slice.methods)]

end SeqSlice
