import Manifest.Error
import Manifest.Tree.Position

/-! A document is a tree that carries its own identity: `apiVersion`, `kind`, `metadata.namespace`
and `metadata.name`.  Renaming it means writing its name, and its former identities are kept so that
references to them can be found. -/

namespace Manifest

structure Document where
  tree : Tree
  previous : List Identity := []
  deriving DecidableEq

/-- What keeps a tree from being a document; the first that applies. -/
def Tree.identityFault? (t : Tree) : Option String :=
  match t with
  | .map es =>
    if (((Entries.find? "kind" es).bind Tree.string?).getD "") = "" then some "missing kind"
    else
      match Entries.find? "apiVersion" es with
      | none | some (.text _) => nameFault?
      | some other => some ("apiVersion must be a string, found " ++ other.shape)
  | t => some ("expected an object, found " ++ t.shape)
where
  nameFault? : Option String :=
    if (((t.field? "metadata").map (Tree.fieldText "name")).getD "") = "" then
      some "missing metadata.name"
    else none

namespace Document

def ofTree (t : Tree) : Except Error Document :=
  match t.identityFault? with
  | some fault => .error (.invalidDocument fault)
  | none => .ok { tree := t }

def skeleton (type : ResourceType) (name : String) : Document where
  tree := .map [("apiVersion", .text type.apiVersion), ("kind", .text type.kind),
    ("metadata", .map [("name", .text name)])]

def replaceTree (d : Document) (t : Tree) : Except Error Document :=
  match t.identityFault? with
  | some fault => .error (.invalidDocument fault)
  | none => .ok { d with tree := t }

def apiVersion (d : Document) : String := d.tree.fieldText "apiVersion"

def kind (d : Document) : String := d.tree.fieldText "kind"

def type (d : Document) : ResourceType := .ofApiVersion d.apiVersion d.kind

def metadata? (key : String) (d : Document) : Option Tree :=
  (d.tree.field? "metadata").bind (Tree.field? key)

def name (d : Document) : String := ((d.metadata? "name").bind Tree.string?).getD ""

def ns (d : Document) : String := ((d.metadata? "namespace").bind Tree.string?).getD ""

def id (d : Document) : Identity := ⟨d.type, d.ns, d.name⟩

def firstId (d : Document) : Identity := d.previous.head?.getD d.id

def hasName (name : String) (d : Document) : Bool :=
  d.name = name || d.previous.any fun id => id.name = name

def labels? (d : Document) : Option (Entries Tree) := (d.metadata? "labels").bind Tree.entries?

def annotations? (d : Document) : Option (Entries Tree) :=
  (d.metadata? "annotations").bind Tree.entries?

def setMetadata (key : String) (value : Tree) (d : Document) : Document :=
  { d with tree := d.tree.modify (fun
      | .map es => .map (Entries.insert key value es)
      | t => t) [.key "metadata"] }

def setName (name : String) (d : Document) : Document := d.setMetadata "name" (.text name)

def setNamespace (ns : String) (d : Document) : Document := d.setMetadata "namespace" (.text ns)

def remember (d : Document) : Document := { d with previous := d.previous ++ [d.id] }

def rename (name : String) (d : Document) : Document := d.remember.setName name

end Document

end Manifest
