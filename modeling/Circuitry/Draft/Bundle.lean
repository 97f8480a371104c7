/-
  Aggregates of signals.

  An aggregate is a shape of signals.  Declaring one declares its leaves, each named for its path;
  connecting two connects their leaves in order.  In both, everything is checked before anything is
  appended.

  A selection between two aggregates is one command: its result is a node of aggregate type, and the
  leaves of the new aggregate are field nodes of that node.
-/
import Circuitry.Draft.Operations

namespace Circuitry.Draft

/-- A ground value or an aggregate. -/
abbrev Bundle := Shape Signal

namespace Bundle

/-- The kind and width of every leaf. -/
def types (b : Bundle) : Shape (Kind × Width) := Shape.map (fun s => (s.kind, s.width)) b

def ty (b : Bundle) : Ty := b.types.toTy

/-- Whether two leaves are the same signal. -/
def sameSignal (a b : Signal) : Bool := a.serial == b.serial

end Bundle

/-! ## Templates -/

/-- A new template of a kind and width. -/
def freshSignal (w : Session) (type : Kind × Width) : Signal × Session :=
  let (s, signals) := w.signals.create type.1 type.2 none
  (s, { w with signals })

/-- A new template for every leaf of a shape. -/
def templates (types : Shape (Kind × Width)) : Build Bundle :=
  modifyGet fun w => types.mapAccum freshSignal w

/-- A new template for every leaf of some fields. -/
def templateFields (types : Shape.Fields (Kind × Width)) : Build (Shape.Fields Signal) :=
  modifyGet fun w => Shape.mapAccumFields freshSignal w types

/-- Unbound copies of all leaves, in the same shape. -/
def fresh (b : Bundle) : Build Bundle := templates b.types

/-! ## Declarations -/

/-- Checks that leaves are templates, and none of them occurs twice. -/
def checkTemplates (role : Role) : (seen : List Signal) → List Signal → Build Unit
  | _, [] => return ()
  | seen, s :: rest => do
    checkTemplate s role
    if seen.any (Bundle.sameSignal s) then throw (.alreadyBound role role)
    checkTemplates role (s :: seen) rest

/-- Declares leaves under names that begin with `name`. -/
def declareLeaves (r : Declared) (name : String) : List (String × Signal) → Build Unit
  | [] => return ()
  | (path, s) :: rest => do
    declare r (name ++ "_" ++ path) s
    declareLeaves r name rest

/-- Declares every leaf of an aggregate. -/
def declareFields (r : Declared) (name : String) (fields : Shape.Fields Signal) : Build Unit := do
  let leaves := Shape.fieldPaths "" fields
  checkTemplates r.role [] (leaves.map (·.2))
  declareLeaves r name leaves

/-! ## Agreement of two aggregates -/

/-- The first place in which two lists of leaves have different widths. -/
def widthIssue? : List (String × Signal) → List (String × Signal) → Option WidthIssue
  | (path, a) :: as, (_, b) :: bs =>
    if a.width = b.width then widthIssue? as bs else some (.leafWidths path a.width b.width)
  | _, _ => none

/-- Two aggregates must have equally many leaves, of the same widths. -/
def checkShape (context : String) (a b : Shape.Fields Signal) : Build Unit := do
  let left := Shape.fieldPaths "" a
  let right := Shape.fieldPaths "" b
  if left.length ≠ right.length then
    throw (.widthMismatch context (.leafCounts left.length right.length))
  match widthIssue? left right with
  | some issue => throw (.widthMismatch context issue)
  | none => return ()

/-! ## Connections -/

/-- Checks that each target can be driven by its source. -/
def checkConnections : List (Signal × Signal) → Build Unit
  | [] => return ()
  | (target, source) :: rest => do
    if target.kind ≠ source.kind then throw (.typeMismatch "connect" target.ty source.ty)
    let _ ← assignable target
    let _ ← operand source
    checkConnections rest

/-- Connects each target with its source. -/
def connectAll : List (Signal × Signal) → Build Unit
  | [] => return ()
  | (target, source) :: rest => do
    connect target source
    connectAll rest

/-- Connects two aggregates leaf by leaf. -/
def connectFields (target source : Shape.Fields Signal) : Build Unit := do
  checkShape "connect" target source
  let pairs := (Shape.fieldLeaves target).zip (Shape.fieldLeaves source)
  checkConnections pairs
  connectAll pairs

/-! ## Selections -/

/-- The kinds of a selection leaf by leaf. -/
def mergeAll : List (Signal × Signal) → Build (List Kind)
  | [] => return []
  | (a, b) :: rest =>
    match mergeKinds? a.kind b.kind with
    | none => throw (.typeMismatch "mux" a.ty b.ty)
    | some kind => do return kind :: (← mergeAll rest)

/-- The type of a leaf with the next of some kinds, or its own. -/
def retype (kinds : List Kind) (s : Signal) : (Kind × Width) × List Kind :=
  match kinds with
  | [] => ((s.kind, Signals.groundWidth s.kind s.width), [])
  | k :: rest => ((k, Signals.groundWidth k s.width), rest)

/-- Makes leaves into the fields of an aggregate node, counting from `index`. -/
def bindFields (parent : NodeId) : (index : Nat) → List Signal → Build Unit
  | _, [] => return ()
  | index, s :: rest => do
    let id ← allocate s.ty .result none (.field parent (UInt32.ofNat index))
    bind s .result id
    bindFields parent (index + 1) rest

/-- `t` where `cond` holds, else `f`, for two aggregates that agree.  The result has the shape of
    `t`. -/
def muxFields (cond : Signal) (t f : Shape.Fields Signal) : Build (Shape.Fields Signal) := do
  checkShape "mux" t f
  let kinds ← mergeAll ((Shape.fieldLeaves t).zip (Shape.fieldLeaves f))
  let condition ← operand cond
  let whenTrue ← operands (Shape.fieldLeaves t)
  let whenFalse ← operands (Shape.fieldLeaves f)
  let (types, _) := Shape.mapAccumFields retype kinds t
  let parent ← allocate (.aggregate (Shape.fieldsToTy types)) .result none .defined
  emit (.defPrim parent .mux [condition, .aggregate whenTrue, .aggregate whenFalse])
  let fields ← templateFields types
  bindFields parent 0 (Shape.fieldLeaves fields)
  return fields

/-- A selection between two values of any shape. -/
def muxBundle (cond : Signal) (t f : Bundle) : Build Bundle := do
  match t, f with
  | .leaf a, .leaf b => return .leaf (← mux cond a b)
  | .group a, .group b => return .group (← muxFields cond a b)
  | _, _ => throw (.typeMismatch "mux" t.ty f.ty)

end Circuitry.Draft
