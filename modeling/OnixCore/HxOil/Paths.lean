import OnixCore.HxOil.Session

/-!
# The paths an apply changes

`executePlan` hands the system whole paths: the root of a scope joined with the name of an entry,
where joining follows the system's rules and an absolute name takes the root's place. `callPaths`
lists the paths of the calls an apply makes, and `recordPlans` is the run of `executePlans` with
the paths put on record.
-/

namespace OnixCore.HxOil

variable {γ E : Type}

/-- A path with another one put after it: an absolute one replaces it. -/
def joinPath (base path : String) : String :=
  if path.toList.head? = some '/' then path
  else if base = "" ∨ base.toList.getLast? = some '/' then base ++ path
  else base ++ "/" ++ path

/-- The directory a scope stands for. -/
def EntryScope.scopeRoot (root : String) : EntryScope → String
  | .root => root
  | .subdir path => joinPath root path

def Operation.names : Operation → List String
  | .create path _ => [path]
  | .rename source target _ => [source, target]
  | .delete path _ => [path]

/-- The paths an operation deletes, renames or creates. -/
def Operation.paths (scopeRoot : String) (op : Operation) : List String :=
  op.names.map (joinPath scopeRoot)

/-- The paths of the calls that execute the plans, in order. -/
def plansPaths (root : String) (plans : List (EntryScope × Plan)) : List String :=
  plans.flatMap fun p => p.2.phases.flatMap (·.paths (p.1.scopeRoot root))

variable [Content γ] (links : Links γ E)

/-- The paths an accepted apply deletes, renames and creates; a call that fails is the last. -/
def callPaths (session : Session) (w : World γ E) : List String :=
  match preflight links session w with
  | .ok accepted => plansPaths session.sidecar.rootPath accepted.2
  | .error _ => []

variable (fresh : EntryKind → Stat) (root : String)

/-- A call that also puts its paths on record. -/
def recorded (scope : EntryScope) (s : World γ E × List String) (op : Operation) :
    Except IoError (World γ E × List String) :=
  (World.perform links fresh scope s.1 op).map fun w => (w, s.2 ++ op.paths (scope.scopeRoot root))

/-- `executePlans` with the record of what took effect. -/
def recordPlans : List (EntryScope × Plan) → World γ E × List String → World γ E × List String
  | [], s => s
  | p :: rest, s =>
    match executePlan (recorded links fresh root p.1) p.2 s with
    | (s', .ok ()) => recordPlans rest s'
    | (s', .error _) => s'

end OnixCore.HxOil
