import PluginRegistry.Files.Name

/-!
# The sections of a cache

A cache is five data sections and a manifest. Each section has a name for messages, a file name on
disk and a four-byte tag for its header.
-/

namespace PluginRegistry.Cache

/-- One part of a cache, kept in a file of its own. -/
inductive Section
  | table
  | main
  | extra
  | contributions
  | orphans
  | manifest
  deriving DecidableEq, Repr

namespace Section

/-- The sections of one generation, in the order they are written. -/
def data : List Section := [.table, .main, .extra, .contributions, .orphans]

def name : Section → String
  | .table => "table"
  | .main => "main"
  | .extra => "extra"
  | .contributions => "contributions"
  | .orphans => "orphans"
  | .manifest => "manifest"

def fileName : Section → String
  | .table => "table.bin"
  | .main => "main.bin"
  | .extra => "extra.bin"
  | .contributions => "contributions.bin"
  | .orphans => "orphans.bin"
  | .manifest => "registry.manifest"

def entry (s : Section) : FileName := s.fileName

/-- The tag in the header: four capitals. -/
def tag : Section → Bytes
  | .table => [0x54, 0x41, 0x42, 0x4c]
  | .main => [0x4d, 0x41, 0x49, 0x4e]
  | .extra => [0x58, 0x54, 0x52, 0x41]
  | .contributions => [0x43, 0x4f, 0x4e, 0x54]
  | .orphans => [0x4f, 0x52, 0x50, 0x48]
  | .manifest => [0x4d, 0x4e, 0x46, 0x54]

theorem length_tag (s : Section) : s.tag.length = 4 := by cases s <;> rfl

theorem tag_inj {s t : Section} (h : s.tag = t.tag) : s = t := by
  cases s <;> cases t <;> first | rfl | exact absurd h (by decide)

theorem fileName_inj {s t : Section} (h : s.fileName = t.fileName) : s = t := by
  cases s <;> cases t <;> first | rfl | exact absurd h (by decide)

theorem entry_inj {s t : Section} (h : s.entry = t.entry) : s = t :=
  fileName_inj (FileName.ofText_inj.1 h)

end Section

end PluginRegistry.Cache
