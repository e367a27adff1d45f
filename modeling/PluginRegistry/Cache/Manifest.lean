import PluginRegistry.Cache.Image
import PluginRegistry.Digest.Basic

/-!
# Manifests

The manifest of a cache names the live generation and has, for each of its sections, the file, the
length and the digest. A section that does not match its entry is not read.
-/

namespace PluginRegistry.Cache

/-- Length and digest of one section. -/
structure SectionDigest where
  file : String
  length : UInt64
  digest : Digest
  deriving DecidableEq, Repr

/-- The record of the live generation. -/
structure Manifest where
  generation : UInt64
  fingerprint : UInt64
  sections : List SectionDigest
  deriving DecidableEq, Repr

def SectionDigest.write (d : SectionDigest) : Bytes :=
  Wire.text d.file ++ Wire.u64 d.length ++ d.digest.bytes

def SectionDigest.read : Wire.Reader SectionDigest := do
  let file ← Wire.Reader.text
  let length ← Wire.Reader.u64
  let bytes ← Wire.Reader.take 32
  if h : bytes.length = 32 then pure { file, length, digest := ⟨bytes, h⟩ }
  else throw .endOfInput

namespace Manifest

def entry (digest : DigestFunction) (s : Section) (bytes : Bytes) : SectionDigest where
  file := s.fileName
  length := bytes.length.toUInt64
  digest := digest bytes

/-- The manifest that makes an image live. -/
def ofImage (digest : DigestFunction) (generation : UInt64) (image : Image) : Manifest where
  generation := generation
  fingerprint := image.fingerprint
  sections := image.sections.map fun (s, bytes) => entry digest s bytes

/-- The first entry for a section. -/
def digestOf? (m : Manifest) (s : Section) : Option SectionDigest :=
  m.sections.find? (·.file = s.fileName)

/-- Accepts the bytes of a section if they match its entry. -/
def verify (digest : DigestFunction) (m : Manifest) (s : Section) (bytes : Bytes) :
    Except Error Unit :=
  match m.digestOf? s with
  | none => .error (.corrupt .manifest (.noDigest s))
  | some d =>
    if d.length = bytes.length.toUInt64 ∧ d.digest = digest bytes then .ok ()
    else .error (.checksumMismatch s)

def encode (m : Manifest) : Bytes :=
  wrap .manifest (Wire.u64 m.generation ++ Wire.u64 m.fingerprint ++
    Wire.list SectionDigest.write m.sections)

def read : Wire.Reader Manifest := do
  let generation ← Wire.Reader.u64
  let fingerprint ← Wire.Reader.u64
  let sections ← Wire.Reader.list SectionDigest.read
  pure { generation, fingerprint, sections }

def decode (bytes : Bytes) : Except Error Manifest := do
  Image.readBody .manifest read (← unwrap .manifest bytes)

end Manifest

end PluginRegistry.Cache
