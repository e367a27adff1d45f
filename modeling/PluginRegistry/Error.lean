import PluginRegistry.Object

/-!
# Why a registry refuses

The refusals of the registry and of its handles, with their wording in `RegistryError.message`.
-/

namespace PluginRegistry

/-- The operations that ask for an access token. -/
inductive Operation
  | stop
  | addFromSource
  | createExtensionPoint
  | createExtension
  deriving DecidableEq, Repr

def Operation.text : Operation → String
  | .stop => "stop"
  | .addFromSource => "add_from_source"
  | .createExtensionPoint => "create_extension_point"
  | .createExtension => "create_extension"

/-- Why an operation or the use of a handle is refused. -/
inductive RegistryError
  /-- The operation needs the owner's token. -/
  | unauthorized (operation : Operation)
  /-- No live object of this kind has this id. -/
  | notFound (id : ObjectId) (kind : ObjectKind)
  /-- A handle's object is gone. -/
  | invalidObject (id : ObjectId)
  /-- The objects of a change event were let go. -/
  | deltaClosed
  | missingArgument (argument : String)
  | stopped
  deriving DecidableEq, Repr

def RegistryError.code : RegistryError → String
  | .unauthorized _ => "Unauthorized"
  | .notFound _ _ => "NotFound"
  | .invalidObject _ => "InvalidObject"
  | .deltaClosed => "DeltaClosed"
  | .missingArgument _ => "MissingArgument"
  | .stopped => "Stopped"

def RegistryError.message : RegistryError → String
  | .unauthorized operation =>
    "unauthorized access to ExtensionRegistry::" ++ operation.text ++
      "; check that the proper access token is supplied"
  | .notFound id kind => kind.text ++ " " ++ id.text ++ " not found"
  | .invalidObject id => "registry object " ++ id.text ++ " is no longer valid"
  | .deltaClosed => "delta object manager is closed"
  | .missingArgument argument => "missing argument: " ++ argument
  | .stopped => "registry is stopped"

end PluginRegistry
