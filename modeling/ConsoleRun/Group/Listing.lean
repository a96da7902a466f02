import ConsoleRun.Group
import ConsoleRun.Json.Writer

-- Groups as exchanged data, and the list of them that people read.

namespace ConsoleRun

def FieldKind.toJson (kind : FieldKind) : Json :=
  .ofMembers [("type", .ofText kind.wireName.toList)]

def Separator.wireName : Separator → String
  | .space => "space"
  | .newline => "newline"

namespace InputGroup

-- A group without a prompt has no member for one.
def toJson (group : InputGroup) : Json :=
  let texts := fun (list : List Text) => Json.array (list.map .ofText)
  .ofMembers ([("id", .ofText group.id), ("lang", .ofText group.lang.wireName.toList),
      ("rawCall", .ofText group.rawCall), ("spec", .ofText group.spec),
      ("vars", texts group.vars), ("fields", .array (group.fields.map FieldKind.toJson))] ++
    (group.prompt.toList.map fun prompt => ("prompt", .ofText prompt)) ++
    [("separator", .ofText group.separator.wireName.toList), ("wholeLine", .bool group.wholeLine),
      ("offset", .ofNat group.offset)])

def listing (groups : List InputGroup) : Text := Json.laidOut 0 (.array (groups.map toJson))

end InputGroup
end ConsoleRun
