import Manifest.Selection

/-! A name rule says which fields hold names of resources of a type; variable rules say in which
fields variables are expanded.  The builtin rules cover the users of ConfigMaps and Secrets among
the common workload kinds. -/

namespace Manifest.Reference

/-- Fields that hold the name of a resource of the type. -/
structure NameRule where
  type : ResourceType
  fields : List FieldSpec
  deriving DecidableEq

structure Rules where
  names : List NameRule := []
  expanded : List FieldSpec := []
  deriving DecidableEq

def addNew {α : Type} [DecidableEq α] (xs : List α) (x : α) : List α :=
  if x ∈ xs then xs else xs ++ [x]

def addRule (rule : NameRule) : List NameRule → List NameRule
  | [] => [rule]
  | r :: rs =>
    if r.type = rule.type then { r with fields := rule.fields.foldl addNew r.fields } :: rs
    else r :: addRule rule rs

namespace Rules

def merge (rules new : Rules) : Rules where
  names := new.names.foldl (fun acc r => addRule r acc) rules.names
  expanded := new.expanded.foldl addNew rules.expanded

def podPaths : List (String × String) :=
  [("Pod", "spec"), ("Deployment", "spec/template/spec"), ("StatefulSet", "spec/template/spec"),
    ("DaemonSet", "spec/template/spec"), ("ReplicaSet", "spec/template/spec"),
    ("Job", "spec/template/spec"), ("CronJob", "spec/jobTemplate/spec/template/spec")]

def containerLists : List String := ["containers", "initContainers"]

def spec (kind path : String) : FieldSpec := { type := { kind }, path }

def podFields (outside inContainers : List String) : List FieldSpec :=
  podPaths.flatMap fun (kind, pod) =>
    (outside ++ containerLists.flatMap fun list => inContainers.map fun f => list ++ "/" ++ f).map
      fun f => spec kind (pod ++ "/" ++ f)

def builtin : Rules where
  names :=
    [{ type := { version := "v1", kind := "ConfigMap" }
       fields := podFields ["volumes/configMap/name", "volumes/projected/sources/configMap/name"]
         ["env/valueFrom/configMapKeyRef/name", "envFrom/configMapRef/name"] },
     { type := { version := "v1", kind := "Secret" }
       fields := podFields
           ["volumes/secret/secretName", "volumes/projected/sources/secret/name",
             "imagePullSecrets/name"]
           ["env/valueFrom/secretKeyRef/name", "envFrom/secretRef/name"]
         ++ [spec "Ingress" "spec/tls/secretName", spec "ServiceAccount" "secrets/name",
           spec "ServiceAccount" "imagePullSecrets/name"] }]
  expanded := podFields [] ["args", "command", "env/value"]

end Rules

end Manifest.Reference
