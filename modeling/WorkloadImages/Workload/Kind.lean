import WorkloadImages.Json.Pointer

/-!
# Workload kinds

Where the documents of each kind keep their pod spec, and the lists of containers in it.

## Main definitions

* `podSpecPath`: the path to the pod spec, empty for a kind that has none
* `ContainerList`: the lists of containers
-/

namespace WorkloadImages

namespace Workload

/-- The supported kinds, in order of their names, with the path to the pod spec. -/
def podSpecPaths : List (String × List String) :=
  [("CronJob", ["spec", "jobTemplate", "spec", "template", "spec"]),
    ("DaemonSet", ["spec", "template", "spec"]),
    ("Deployment", ["spec", "template", "spec"]),
    ("Job", ["spec", "template", "spec"]),
    ("Pod", ["spec"]),
    ("StatefulSet", ["spec", "template", "spec"])]

/-- The path of fields from a document of a kind to its pod spec; empty for a kind without one. -/
def podSpecPath (kind : String) : List String := (Fields.get? kind podSpecPaths).getD []

/-- The supported kinds, in order. -/
def supportedKinds : List String := podSpecPaths.map (·.1)

/-- The kind that a document says it is of. -/
def kindOf? (document : Json) : Option String :=
  match document.field? "kind" with
  | some kind => kind.asString?
  | none => none

/-- The kind that a document says it is of, empty when it says none. -/
def kindOf (document : Json) : String := (kindOf? document).getD ""

end Workload

/-- A list of containers in a pod spec. -/
inductive ContainerList where
  /-- The containers that run first. -/
  | init
  /-- The containers that run. -/
  | main
  /-- The containers added while the others run. -/
  | ephemeral
  deriving Repr, DecidableEq

namespace ContainerList

/-- The lists in the order in which they are read. -/
def all : List ContainerList := [init, main, ephemeral]

/-- The lists in the order in which their images are written in full. -/
def patchOrder : List ContainerList := [main, init, ephemeral]

/-- The field of a pod spec that holds the list. -/
def field : ContainerList → String
  | init => "initContainers"
  | main => "containers"
  | ephemeral => "ephemeralContainers"

end ContainerList

end WorkloadImages
