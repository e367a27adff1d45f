import PluginRegistry.Cache.Location

/-!
# Settings

The options that are fixed when a registry is opened. Every option has a default, so a document
names only those it changes; it names each at most once, and no others. The format of documents is
not dealt with here: a `DocumentReader` reads them.
-/

namespace PluginRegistry

/-- The options of a registry. -/
structure Settings where
  /-- Where the cache is read from and written to. -/
  cacheDirectory : Option Path := none
  /-- Where a cache is read from if there is none in the first directory. -/
  alternativeDirectory : Option Path := none
  readOnly : Bool := false
  /-- Whether the cache is read when the registry is opened. -/
  useCache : Bool := true
  /-- Whether anyone may add to the registry, or only the holder of its token. -/
  modifiable : Bool := true
  /-- Whether cache accesses are logged. -/
  debug : Bool := false
  /-- Whether a built-in listener logs every change. -/
  debugEvents : Bool := false
  deriving DecidableEq, Repr

/-- Why there are no settings. -/
inductive SettingsError
  /-- The document breaks a rule of its format or names an option that does not exist. -/
  | malformed
  /-- The document cannot be read or is not text. -/
  | unreadable
  deriving DecidableEq, Repr

def SettingsError.code : SettingsError → String
  | .malformed => "Config"
  | .unreadable => "Io"

namespace Settings

/-- What a key of a document is given. -/
inductive Value
  | text (s : String)
  | flag (b : Bool)
  /-- Anything else, which is good for no option. -/
  | other
  deriving DecidableEq, Repr

/-- Reads the keys of a document and their values, if the document keeps the rules of its format. -/
abbrev DocumentReader := String → Option (List (String × Value))

def set? (s : Settings) : String → Value → Option Settings
  | "cache_dir", .text value => some { s with cacheDirectory := some (.ofText value) }
  | "alternative_cache_dir", .text value =>
    some { s with alternativeDirectory := some (.ofText value) }
  | "cache_read_only", .flag value => some { s with readOnly := value }
  | "use_cache", .flag value => some { s with useCache := value }
  | "modifiable", .flag value => some { s with modifiable := value }
  | "debug", .flag value => some { s with debug := value }
  | "debug_events", .flag value => some { s with debugEvents := value }
  | _, _ => none

def setAll? (s : Settings) : List (String × Value) → Option Settings
  | [] => some s
  | (key, value) :: rest => do
    let s ← s.set? key value
    s.setAll? rest

def ofText (read : DocumentReader) (document : String) : Except SettingsError Settings :=
  match read document with
  | none => .error .malformed
  | some entries =>
    if (entries.map (·.1)).Nodup then
      match ({} : Settings).setAll? entries with
      | some settings => .ok settings
      | none => .error .malformed
    else .error .malformed

/-- The settings in a file with this content; `none` if there is no file. -/
def ofFile (read : DocumentReader) (content : Option Bytes) : Except SettingsError Settings :=
  match content with
  | none => .error .unreadable
  | some bytes =>
    match String.fromUTF8? ⟨bytes.toArray⟩ with
    | some s => ofText read s
    | none => .error .unreadable

/-- Where the cache is, if a directory is named at all. -/
def location? (s : Settings) : Option Cache.Location :=
  if s.cacheDirectory.isNone && s.alternativeDirectory.isNone then none
  else some {
    primary := s.cacheDirectory
    alternative := s.alternativeDirectory
    readOnly := s.readOnly }

end Settings

end PluginRegistry
