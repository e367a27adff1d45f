import PluginRegistry.Cache.Error
import PluginRegistry.Wire.Value

/-!
# Section headers

Every section starts with the same eight bytes, the version of the format in four bytes and the
section's tag. `wrap` puts the header on, `unwrap` checks it and takes it off; `unwrap_wrap` says
that one undoes the other.
-/

namespace PluginRegistry.Cache

/-- The eight bytes in front of every section. -/
def magic : Bytes := [0x50, 0x4c, 0x58, 0x53, 0x52, 0x47, 0x43, 0x48]

def formatVersion : UInt32 := 1

/-- The bytes of a header: eight, four for the version, four for the tag. -/
def headerSize : Nat := 16

/-- The body of a section behind its header. -/
def wrap (s : Section) (body : Bytes) : Bytes :=
  magic ++ Wire.littleEndian 4 formatVersion.toNat ++ s.tag ++ body

/-- The body of a section whose header is right. -/
def unwrap (s : Section) (bytes : Bytes) : Except Error Bytes :=
  let found := (Wire.ofLittleEndian ((bytes.drop 8).take 4)).toUInt32
  if bytes.length < headerSize || bytes.take 8 ≠ magic then .error (.badHeader s)
  else if found ≠ formatVersion then .error (.versionMismatch s found)
  else if (bytes.drop 12).take 4 ≠ s.tag then .error (.badHeader s)
  else .ok (bytes.drop headerSize)

theorem unwrap_wrap (s : Section) (body : Bytes) : unwrap s (wrap s body) = .ok body := by
  cases s <;> simp [unwrap, wrap, magic, formatVersion, headerSize, Section.tag,
    Wire.littleEndian, Wire.ofLittleEndian]

end PluginRegistry.Cache
