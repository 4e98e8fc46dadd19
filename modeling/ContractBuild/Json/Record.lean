import ContractBuild.Json.Reader

/-! Reading records. A record is written as an object, or as an array of its fields in order.
In an object unknown fields are skipped, no field comes twice, and fields that are missing are
looked for at the end, in their order. In an array trailing fields with a default may be left
off. -/

namespace ContractBuild.Json

structure Fields (α : Type) : Type 1 where
  Draft : Type
  start : Draft
  take : String → Option (Nat → Tree → Draft → Except Problem Draft)
  finish : Draft → Except Problem α
  size : Nat
  /-- Takes the fields by their positions; `lack` is the problem of an array that ends before the
  field of this number. -/
  position (lack : Nat → Problem) : Nat → Items → Except Problem (α × Items)

namespace Fields

variable {α β : Type}

def pure (x : α) : Fields α where
  Draft := Unit
  start := ()
  take _ := none
  finish _ := .ok x
  size := 0
  position _ _ items := .ok (x, items)

def map (f : α → β) (fields : Fields α) : Fields β where
  Draft := fields.Draft
  start := fields.start
  take := fields.take
  finish draft := (fields.finish draft).map f
  size := fields.size
  position lack depth items := (fields.position lack depth items).map fun (x, rest) => (f x, rest)

def seq (left : Fields (α → β)) (right : Fields α) : Fields β where
  Draft := left.Draft × right.Draft
  start := (left.start, right.start)
  take name := match left.take name with
    | some step => some fun depth t draft => (step depth t draft.1).map (·, draft.2)
    | none => (right.take name).map fun step depth t draft =>
      (step depth t draft.2).map (draft.1, ·)
  finish draft := do
    let f ← left.finish draft.1
    return f (← right.finish draft.2)
  size := left.size + right.size
  position lack depth items := do
    let (f, items) ← left.position lack depth items
    let (x, items) ← right.position (fun i => lack (left.size + i)) depth items
    return (f x, items)

instance : Applicative Fields where
  pure := pure
  map := map
  seq left right := seq left (right ())

/-- A field of this name; `absent` is what it is if it is missing in an object, and `short` its
value, if it has one, in an array that ends before it. -/
def field (name : String) (r : Reader α) (absent : Except Problem α) (short : Option α) :
    Fields α where
  Draft := Option α
  start := none
  take given := if given = name then
      some fun depth t draft => match draft with
        | some _ => .error (.duplicateField name)
        | none => (r depth t).map some
    else none
  finish draft := match draft with
    | some x => .ok x
    | none => absent
  size := 1
  position lack depth items := match items with
    | .more head rest => (r depth head).map (·, rest)
    | .done => short.elim (.error (lack 0)) fun x => .ok (x, .done)
    | .stopped f => .error f.problem

def required (name : String) (r : Reader α) : Fields α :=
  field name r (.error (.missingField name)) none

def defaulted (name : String) (r : Reader α) (default : α) : Fields α :=
  field name r (.ok default) (some default)

def optional (name : String) (r : Reader α) : Fields (Option α) :=
  defaulted name r.option none

def nullable (name : String) (r : Reader α) : Fields (Option α) :=
  field name r.option (.ok none) none

def others (r : Reader α) : Fields (SortedMap String α) where
  Draft := SortedMap String α
  start := .empty
  take name := some fun depth t draft => (r depth t).map (draft.insert name)
  finish draft := .ok draft
  size := 0
  position lack _ _ := .error (lack 0)

def gather (fields : Fields α) (depth : Nat) (draft : fields.Draft) :
    Members → Except Problem fields.Draft
  | .done => .ok draft
  | .stopped f => .error f.problem
  | .more key value rest => do
    match fields.take (← key.text) with
    | some step => gather fields depth (← step depth value draft) rest
    | none =>
      value.skip
      gather fields depth draft rest

end Fields

namespace Reader

variable {α : Type}

def structName (name : String) : String := "struct " ++ name

def structElements (name : String) (size : Nat) : String :=
  structName name ++ s!" with {size} " ++ if size = 1 then "element" else "elements"

def surplus : Items → Except Problem Unit
  | .done => .ok ()
  | .stopped (.ended part) => .error (.truncated part)
  | .more (.broken .closedBeforeValue) _ => .error (.malformed .trailingComma)
  | _ => .error (.malformed .trailingCharacters)

def record (name : String) (fields : Fields α) : Reader α := fun depth t => match t with
  | .object members => do
    fields.finish (← fields.gather (← enter depth) fields.start members)
  | .array items => do
    let lack (i : Nat) := Problem.wrongLength i (structElements name fields.size)
    let (x, rest) ← fields.position lack (← enter depth) items
    surplus rest
    return x
  | t => .error (t.mismatch (structName name))

/-- A record that takes every field, and so has no form as an array. -/
def openRecord (name : String) (fields : Fields α) : Reader α := fun depth t => match t with
  | .object members => do
    fields.finish (← fields.gather (← enter depth) fields.start members)
  | t => .error (t.mismatch (structName name))

end Reader
end ContractBuild.Json
