import PluginRegistry.Wire.Reader

/-!
# Digests

A digest is 32 bytes. The cache takes the function that computes it as a parameter, so nothing
about the cache rests on which function that is.
-/

namespace PluginRegistry

/-- The 32 bytes that stand for a longer byte string. -/
structure Digest where
  bytes : Bytes
  length_bytes : bytes.length = 32
  deriving DecidableEq, Repr

abbrev DigestFunction := Bytes → Digest

end PluginRegistry
