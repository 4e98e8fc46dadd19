import ContractBuild.Proofs.Artifact.DeclarationOrder
import Mathlib.Data.List.Forall2

/-!
# The two forms of a syntax tree

A compiler may give the tree of a file in two forms. Where they say the same, node by node, they
declare the same functions, so it does not matter which of them is there and which of them counts.
Nodes may lack their parts, their kind or their name, or have something else in their place.
-/

namespace ContractBuild.DeclarationOrder

/-- A compact node and a legacy node that say the same. -/
inductive Corresponds : Json → Json → Prop
  | leaf {node node' : Json} (kind : node.text? "nodeType" = node'.text? "name")
      (name : node.text? "name" = (node'.get? "attributes" >>= Json.text? "name"))
      (none : node.get? "nodes" >>= Json.items? = none)
      (none' : node'.get? "children" >>= Json.items? = .none) : Corresponds node node'
  | parent {node node' : Json} {nodes children : List Json}
      (kind : node.text? "nodeType" = node'.text? "name")
      (name : node.text? "name" = (node'.get? "attributes" >>= Json.text? "name"))
      (parts : node.get? "nodes" = some (.array nodes))
      (parts' : node'.get? "children" = some (.array children))
      (pairs : List.Forall₂ Corresponds nodes children) : Corresponds node node'

theorem Corresponds.kind {node node' : Json} (same : Corresponds node node') :
    compact.kind node = legacy.kind node' := by
  cases same with
  | leaf kind | parent kind => exact kind

theorem Corresponds.name {node node' : Json} (same : Corresponds node node') :
    compact.name node = legacy.name node' := by
  cases same with
  | leaf _ name | parent _ name => exact name

theorem functionsAmong_of_corresponds {nodes children : List Json}
    (pairs : List.Forall₂ Corresponds nodes children) :
    compact.functionsAmong nodes = legacy.functionsAmong children := by
  unfold Form.functionsAmong
  induction pairs with
  | nil => rfl
  | @cons node node' nodes children same _ ih =>
    rw [List.filter_cons, List.filter_cons, same.kind]
    split
    · rw [List.filterMap_cons, List.filterMap_cons, same.name, ih]
    · exact ih

theorem Corresponds.functions {node node' : Json} (same : Corresponds node node') :
    (compact.children node).map compact.functionsAmong =
      (legacy.children node').map legacy.functionsAmong := by
  cases same with
  | leaf _ _ none none' =>
    rw [show compact.children node = .none from none, show legacy.children node' = .none from none']
    rfl
  | @parent _ _ nodes children _ _ parts parts' pairs =>
    have top : compact.children node = some nodes := by
      simp only [compact, parts]
      rfl
    have top' : legacy.children node' = some children := by
      simp only [legacy, parts']
      rfl
    rw [top, top', Option.map_some, Option.map_some, functionsAmong_of_corresponds pairs]

theorem find?_of_corresponds (contract : String) {nodes children : List Json}
    (pairs : List.Forall₂ Corresponds nodes children) :
    Option.Rel Corresponds (nodes.find? fun node => compact.Defines contract node)
      (children.find? fun node => legacy.Defines contract node) := by
  induction pairs with
  | nil => exact .none
  | @cons node node' nodes children same _ ih =>
    have defines : compact.Defines contract node ↔ legacy.Defines contract node' := by
      rw [Form.Defines, Form.Defines, same.kind, same.name]
    by_cases here : legacy.Defines contract node'
    · rw [List.find?_cons_of_pos (by simpa using defines.2 here),
        List.find?_cons_of_pos (by simpa using here)]
      exact .some same
    · rw [List.find?_cons_of_neg (by simpa [defines] using here),
        List.find?_cons_of_neg (by simpa using here)]
      exact ih

theorem functionNames_of_corresponds (contract : String) {compactTree legacyTree : Json}
    {nodes children : List Json} (top : compact.children compactTree = some nodes)
    (top' : legacy.children legacyTree = some children)
    (pairs : List.Forall₂ Corresponds nodes children) :
    compact.functionNames compactTree contract = legacy.functionNames legacyTree contract := by
  rw [Form.functionNames_eq, Form.functionNames_eq, top, top', Option.getD_some, Option.getD_some]
  have found := find?_of_corresponds contract pairs
  generalize (nodes.find? fun node => compact.Defines contract node) = node at found
  generalize (children.find? fun node => legacy.Defines contract node) = node' at found
  cases found with
  | none => rfl
  | some same => exact same.functions

theorem ne_empty_of_get? {tree x : Json} {key : String} (has : tree.get? key = some x) :
    tree ≠ .object [] := by
  rintro rfl
  cases has

/-- Trees in the two forms whose nodes say the same have the same positions of functions, and lead
to the same order of entries: each of them alone, both together, and the compact one beside a
legacy tree without members. -/
theorem forms_agree {compactTree legacyTree : Json} {nodes children : List Json}
    (top : compactTree.get? "nodes" = some (.array nodes))
    (top' : legacyTree.get? "children" = some (.array children))
    (pairs : List.Forall₂ Corresponds nodes children) (contract : String) (abi : List Json) :
    legacy.positions legacyTree contract = compact.positions compactTree contract ∧
    order contract none (some compactTree) abi = order contract (some legacyTree) none abi ∧
    order contract (some legacyTree) (some compactTree) abi =
      order contract (some legacyTree) none abi ∧
    order contract (some (.object [])) (some compactTree) abi =
      order contract (some legacyTree) none abi := by
  have top_compact : compact.children compactTree = some nodes := by
    simp only [compact, top]
    rfl
  have top_legacy : legacy.children legacyTree = some children := by
    simp only [legacy, top']
    rfl
  have same : legacy.positions legacyTree contract = compact.positions compactTree contract := by
    rw [Form.positions, Form.positions,
      functionNames_of_corresponds contract top_compact top_legacy pairs]
  have made := nonEmptyObject_of_ne (ne_empty_of_get? top)
  have made' := nonEmptyObject_of_ne (ne_empty_of_get? top')
  have unmade : nonEmptyObject (some (.object [])) = none :=
    nonEmptyObject_eq_none_iff.2 (.inr rfl)
  have absent : nonEmptyObject none = none := nonEmptyObject_eq_none_iff.2 (.inl rfl)
  refine ⟨same, ?_, ?_, ?_⟩
  · simp only [order, chosen, made, made', absent, same]
  · simp only [order, chosen, made', absent]
  · simp only [order, chosen, made, made', unmade, absent, same]

def compactNodes : List Json :=
  [.object [("nodeType", .string "PragmaDirective")],
   .object [("nodeType", .string "ContractDefinition"), ("name", .string "Token"), ("nodes", .array
     [.object [("nodeType", .string "FunctionDefinition"), ("name", .string "mint")],
      .object [("nodeType", .string "FunctionDefinition"), ("name", .null)],
      .object [("nodeType", .string "VariableDeclaration"), ("name", .string "burn")],
      .object [("nodeType", .string "FunctionDefinition"), ("name", .string "approve")]])],
   .object [("nodeType", .string "ContractDefinition"), ("name", .string "Token"),
     ("nodes", .object [])]]

def legacyNodes : List Json :=
  let named (name : String) : String × Json := ("attributes", .object [("name", .string name)])
  [.object [("name", .string "PragmaDirective"), ("attributes", .object [("literals", .array [])])],
   .object [("name", .string "ContractDefinition"), named "Token", ("children", .array
     [.object [("name", .string "FunctionDefinition"), named "mint"],
      .object [("name", .string "FunctionDefinition")],
      .object [("name", .string "VariableDeclaration"), named "burn"],
      .object [("name", .string "FunctionDefinition"), named "approve"]])],
   .object [("name", .string "ContractDefinition"), named "Token"]]

theorem compactNodes_correspond : List.Forall₂ Corresponds compactNodes legacyNodes :=
  .cons (.leaf rfl rfl rfl rfl) <|
  .cons (.parent rfl rfl rfl rfl <|
    .cons (.leaf rfl rfl rfl rfl) <| .cons (.leaf rfl rfl rfl rfl) <|
    .cons (.leaf rfl rfl rfl rfl) <| .cons (.leaf rfl rfl rfl rfl) .nil) <|
  .cons (.leaf rfl rfl rfl rfl) .nil

theorem forms_agree_namesakes :
    let compactTree := Json.object [("nodes", .array compactNodes)]
    let legacyTree := Json.object [("children", .array legacyNodes)]
    let abi := [entryOf "approve" [], entryOf "burn" [], entryOf "mint" []]
    List.Forall₂ Corresponds compactNodes legacyNodes ∧
      legacy.positions legacyTree "Token" = compact.positions compactTree "Token" ∧
      order "Token" none (some compactTree) abi = order "Token" (some legacyTree) none abi ∧
      order "Token" (some legacyTree) none abi =
        [entryOf "burn" [], entryOf "mint" [], entryOf "approve" []] := by
  intro compactTree legacyTree abi
  have top : compactTree.get? "nodes" = some (.array compactNodes) := rfl
  have top' : legacyTree.get? "children" = some (.array legacyNodes) := rfl
  obtain ⟨same, alone, -, -⟩ := forms_agree top top' compactNodes_correspond "Token" abi
  have declares : Declared "Token" (some legacyTree) none ["mint", "approve"] :=
    .legacy rfl (by decide +kernel) (Form.declares_iff.2 (by decide +kernel))
  exact ⟨compactNodes_correspond, same, alone,
    (order_eq_grouped declares).trans (by decide +kernel)⟩

end ContractBuild.DeclarationOrder
