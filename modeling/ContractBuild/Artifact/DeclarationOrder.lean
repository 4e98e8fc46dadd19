import ContractBuild.Response

/-! The order of interface entries: functions follow in the order of their declaration, behind
all other entries. A syntax tree is legacy (`children`, `attributes`) or compact (`nodes`). -/

namespace ContractBuild.DeclarationOrder

/-- Where the parts of a node stand in one form of the syntax tree. -/
structure Form where
  children : Json → Option (List Json)
  kind : Json → Option String
  name : Json → Option String

def legacy : Form where
  children node := node.get? "children" >>= Json.items?
  kind node := node.text? "name"
  name node := node.get? "attributes" >>= Json.text? "name"

def compact : Form where
  children node := node.get? "nodes" >>= Json.items?
  kind node := node.text? "nodeType"
  name node := node.text? "name"

def Form.functionNames (form : Form) (tree : Json) (contract : String) : Option (List String) := do
  let found ← (← form.children tree).find? fun node =>
    form.kind node = some "ContractDefinition" ∧ form.name node = some contract
  let functions := (← form.children found).filter fun node =>
    form.kind node = some "FunctionDefinition"
  return functions.filterMap form.name

abbrev Positions := SortedMap String Nat

/-- Of declarations with one name the last counts. -/
def positions (names : List String) : Positions := .ofList names.zipIdx

def Form.positions (form : Form) (tree : Json) (contract : String) : Option Positions :=
  (form.functionNames tree contract).map DeclarationOrder.positions

def positionOf (index : Positions) (entry : Json) : Option Nat := entry.text? "name" >>= index.find?

/-- Entries without a position stay in front and the others follow by position. -/
def orderBy (index : Positions) (abi : List Json) : List Json :=
  abi.filter (fun entry => (positionOf index entry).isNone) ++
    (abi.filter fun entry => (positionOf index entry).isSome).mergeSort fun a b =>
      (positionOf index a).getD 0 ≤ (positionOf index b).getD 0

def chosen (contract : String) (legacyTree tree : Option Json) : Option Positions :=
  match nonEmptyObject legacyTree, nonEmptyObject tree with
  | some found, _ => legacy.positions found contract
  | none, some found => compact.positions found contract
  | none, none => none

def order (contract : String) (legacyTree tree : Option Json) (abi : List Json) : List Json :=
  match chosen contract legacyTree tree with
  | some index => orderBy index abi
  | none => abi

end ContractBuild.DeclarationOrder
