import Manifest.Text.Printable

/-! A resource is identified by its group, version, kind, namespace and name.  The first three are
its type; `apiVersion` texts join group and version by the last slash. -/

namespace Manifest

structure ResourceType where
  group : String := ""
  version : String := ""
  kind : String := ""
  deriving DecidableEq

namespace ResourceType

/-- Cuts an `apiVersion` at its last slash.  Without one it is the version of the core group. -/
def ofApiVersion (apiVersion kind : String) : ResourceType :=
  let reversed := apiVersion.toList.reverse
  match reversed.span (· ≠ '/') with
  | (version, _ :: group) =>
    ⟨String.ofList group.reverse, String.ofList version.reverse, kind⟩
  | (_, []) => ⟨"", apiVersion, kind⟩

def apiVersion (t : ResourceType) : String :=
  if t.group = "" then t.version else t.group ++ "/" ++ t.version

def selectedBy (t filter : ResourceType) : Bool :=
  (filter.group = "" || filter.group = t.group)
    && (filter.version = "" || filter.version = t.version)
    && (filter.kind = "" || filter.kind = t.kind)

end ResourceType

structure Identity where
  type : ResourceType := {}
  ns : String := ""
  name : String := ""
  deriving DecidableEq

namespace Identity

def withName (id : Identity) (name : String) : Identity := { id with name }

/-- The empty namespace is the namespace `default`. -/
def canonicalNamespace (ns : String) : String := if ns = "" then "default" else ns

def inNamespace (id : Identity) (ns : String) : Bool :=
  canonicalNamespace id.ns = canonicalNamespace ns

def display (id : Identity) : String :=
  let group := if id.type.group = "" then "[noGrp]" else id.type.group
  let ns := if id.ns = "" then "[noNs]" else id.ns
  id.type.kind ++ "." ++ id.type.version ++ "." ++ group ++ "/" ++ id.name ++ "." ++ ns

def describe (id : Identity) : String :=
  "ResId \x7b gvk: Gvk \x7b group: " ++ Text.quoted id.type.group ++ ", version: "
    ++ Text.quoted id.type.version ++ ", kind: " ++ Text.quoted id.type.kind
    ++ " \x7d, namespace: " ++ Text.quoted id.ns ++ ", name: " ++ Text.quoted id.name ++ " \x7d"

def compare (a b : Identity) : Ordering :=
  (Ord.compare a.type.group b.type.group).then <|
  (Ord.compare a.type.version b.type.version).then <|
  (Ord.compare a.type.kind b.type.kind).then <|
  (Ord.compare a.ns b.ns).then <|
  Ord.compare a.name b.name

end Identity

end Manifest
