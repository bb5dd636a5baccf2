import SeqSlice.Fact.Coding
import SeqSlice.Program.Query
import SeqSlice.Tag.Table

/-! The JSON form of a tag table. -/

set_option autoImplicit false
namespace SeqSlice

def Tag.ofName? (name : String) : Option Tag := Tag.all.find? (·.name == name)

def TagSet.toJson (tags : TagSet) : Json := .ofList (fun tag => .text tag.name) tags.toList

def allocationToJson (entry : PointId × Option PointId) : Json :=
  .list [.ofNat entry.1, .ofOption .ofNat entry.2]

def TagTable.toJson (table : TagTable) (program : Program) : Json := .object [
  ("points", .ofList (fun point => .list [.ofNat point, (table.pointTags point).toJson])
    (program.pointIds.filter table.isPointTagged)),
  ("methods", .ofList (fun method => .list [.ofNat method, (table.methodTags method).toJson])
    (program.methodIds.filter table.isMethodTagged)),
  ("constructors", .ofList allocationToJson (table.allocationsAmong program.pointIds))]

end SeqSlice
