import PluginRegistry.Object

/-!
# What the host decides

The host says which namespace a contributor has, who owns that namespace, how texts are
localized, and what state of the host a cache belongs to. A contributor without a namespace is
anonymous and its declarations are ignored.
-/

namespace PluginRegistry

/-- The namespaces of contributors, and the fingerprint of the host's state. -/
structure NamespaceTable where
  entries : List (ContributorId × String) := []
  fingerprint : UInt64 := 0
  deriving DecidableEq, Repr

namespace NamespaceTable

def find? (t : NamespaceTable) (c : ContributorId) : Option String := t.entries.lookup c

/-- Gives a contributor a namespace, in place of one it had. -/
def register (t : NamespaceTable) (c : ContributorId) (ns : String) : NamespaceTable :=
  { t with entries := (c, ns) :: t.entries.filter (·.1 ≠ c) }

/-- Takes a contributor's namespace away and says which it was. -/
def unregister (t : NamespaceTable) (c : ContributorId) : Option String × NamespaceTable :=
  (t.find? c, { t with entries := t.entries.filter (·.1 ≠ c) })

end NamespaceTable

/-- What a registry asks its host. -/
structure Strategy where
  namespaces : NamespaceTable
  /-- The owner of the namespace a contributor contributes to. -/
  ownerOf : ContributorId → ContributorId := fun c => c
  /-- A label or property value in the language of the host. -/
  localize : String → String := fun s => s

end PluginRegistry
