import ObjectGraph.Catalog

/-!
# Registration of types

Registering a declaration flattens it on top of the layout of its base. Members are taken in the
order of their declaration, and the first violated condition ends the registration without a trace
in the catalog. What happened is reported as a list of log records in any case.
-/

namespace ObjectGraph

variable {Rule : Type}

inductive RegistrationError where
  | duplicateType (name : String)
  | unknownType (name : String)
  | invalidBase (name : String) (base : String)
  | duplicateMember (typeName : String) (member : String)
  | expectedValueType (typeName : String) (member : String) (found : String)
  | invalidDefault (typeName : String) (member : String) (expected : SlotType)
  | sharedDefault (typeName : String) (member : String)
  deriving DecidableEq, Repr

def RegistrationError.message : RegistrationError → String
  | duplicateType name => s!"type `{name}` is already registered"
  | unknownType name => s!"type `{name}` is not registered"
  | invalidBase name base =>
      s!"`{name}` cannot derive from `{base}`: value types take no part in inheritance"
  | duplicateMember typeName member =>
      s!"member `{member}` is declared more than once on `{typeName}`"
  | expectedValueType typeName member found =>
      s!"field `{typeName}.{member}` holds a struct, but `{found}` is a reference type"
  | invalidDefault typeName member expected =>
      s!"default value of `{typeName}.{member}` does not fit its type `{expected.describe}`"
  | sharedDefault typeName member =>
      s!"default value of `{typeName}.{member}` holds an object or list, every instance would share it"

/-- What the registration of a type reports. -/
inductive LogRecord where
  | hidden (typeName : String) (member : String) (declaredBy : String)
  | registered (typeName : String) (semantics : Semantics) (members : Nat) (fields : Nat)
  deriving DecidableEq, Repr

namespace LogRecord

def level : LogRecord → String
  | hidden .. => "TRACE"
  | registered .. => "DEBUG"

def message : LogRecord → String
  | hidden typeName member declaredBy =>
      s!"`{typeName}.{member}` hides the member inherited from `{declaredBy}`"
  | registered typeName semantics members fields =>
      s!"registered type `{typeName}` ({semantics.describe}, {members} members, {fields} fields)"

end LogRecord

/-- The value that a field without explicit initial value starts with. A struct type has to be
registered in the same registry, as a value type. -/
def Catalog.plainDefault (catalog : Catalog Rule) (label typeName : String)
    (member : Member Rule) : Except RegistrationError Value :=
  match member.type with
  | .any | .object _ | .list _ => .ok .null
  | .bool => .ok (.bool false)
  | .int => .ok (.int 0)
  | .float => .ok (.float 0.0)
  | .text => .ok (.text "")
  | .struct name =>
      match (catalog.registry label).get? name with
      | none => .error (.unknownType name)
      | some layout =>
          match layout.semantics with
          | .reference => .error (.expectedValueType typeName member.name name)
          | .value => .ok (.struct ⟨label, name⟩ layout.defaults)

/-- The value that a field starts with. An explicit value has to fit the field, and it must not hold
anything shared, because all instances would share it. -/
def Catalog.initialValue (catalog : Catalog Rule) (label typeName : String)
    (member : Member Rule) : Except RegistrationError Value :=
  match member.initial? with
  | none => catalog.plainDefault label typeName member
  | some value =>
      if !member.type.accepts catalog value then
        .error (.invalidDefault typeName member.name member.type)
      else if value.holdsReference then
        .error (.sharedDefault typeName member.name)
      else
        .ok value

/-- A layout under construction, with the names declared so far and the records written so far. -/
structure Draft (Rule : Type) where
  layout : Layout Rule
  declared : List String
  log : List LogRecord

namespace Draft

def addedDefaults (catalog : Catalog Rule) (label typeName : String) (member : Member Rule) :
    Except RegistrationError (List Value) :=
  if member.isField then
    (catalog.initialValue label typeName member).map ([·])
  else
    .ok []

def addMember (catalog : Catalog Rule) (label : String) (draft : Draft Rule)
    (member : Member Rule) : Except RegistrationError (Draft Rule) := do
  let layout := draft.layout
  if draft.declared.contains member.name then
    throw (.duplicateMember layout.name member.name)
  let defaults ← addedDefaults catalog label layout.name member
  let hidden := match layout.member? member.name with
    | some inherited => [.hidden layout.name member.name inherited.declaredBy]
    | none => []
  return ⟨layout.addMember member defaults, draft.declared ++ [member.name], draft.log ++ hidden⟩

/-- Takes declared members up to the first one that is refused. -/
def addMembers (catalog : Catalog Rule) (label : String) :
    Draft Rule → List (Member Rule) → Draft Rule × Option RegistrationError
  | draft, [] => (draft, none)
  | draft, member :: members =>
      match draft.addMember catalog label member with
      | .error error => (draft, some error)
      | .ok extended => addMembers catalog label extended members

end Draft

/-- The layout on top of which the members of a declaration are placed. Only reference types take
part in inheritance. -/
def Catalog.foundation (catalog : Catalog Rule) (label : String) (declaration : TypeDecl Rule) :
    Except RegistrationError (Layout Rule) :=
  match declaration.base? with
  | none => .ok (.bare declaration.name declaration.semantics)
  | some baseName =>
      match (catalog.registry label).get? baseName with
      | none => .error (.unknownType baseName)
      | some base =>
          if declaration.semantics = .value ∨ base.semantics = .value then
            .error (.invalidBase declaration.name baseName)
          else
            .ok (base.derive declaration.name declaration.semantics)

structure Registration (Rule : Type) where
  outcome : Except RegistrationError (Layout Rule)
  log : List LogRecord
  catalog : Catalog Rule

/-- Registers a type in the registry with a label. A refused declaration leaves the catalog as it
is. -/
def Catalog.register (catalog : Catalog Rule) (label : String) (declaration : TypeDecl Rule) :
    Registration Rule :=
  if (catalog.registry label).contains declaration.name then
    ⟨.error (.duplicateType declaration.name), [], catalog⟩
  else
    match catalog.foundation label declaration with
    | .error error => ⟨.error error, [], catalog⟩
    | .ok foundation =>
        match Draft.addMembers catalog label ⟨foundation, [], []⟩ declaration.members with
        | (draft, some error) => ⟨.error error, draft.log, catalog⟩
        | (draft, none) =>
            let layout := draft.layout
            ⟨.ok layout,
              draft.log ++
                [.registered layout.name layout.semantics layout.members.length layout.fieldCount],
              catalog.addLayout label layout⟩

def Catalog.instantiate? (catalog : Catalog Rule) (type : TypeId) (heap : Heap) :
    Except RegistrationError (Value × Heap) :=
  match catalog.layout? type with
  | none => .error (.unknownType type.name)
  | some _ => .ok (catalog.instantiate type heap)

end ObjectGraph
