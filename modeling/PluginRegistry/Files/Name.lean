import PluginRegistry.Wire.Reader

/-!
# Names of files

The name of an entry in a directory is a string of bytes. Most names are text, and a text is used
as the name it spells; but a directory may hold names that no text spells, and `FileName.text?` has
no answer for these. `FileName.shown` is for messages only: different names may be shown alike.
-/

namespace PluginRegistry

/-- The name of an entry in a directory. -/
structure FileName where
  bytes : Bytes
  deriving DecidableEq, Repr, Inhabited

namespace FileName

/-- The name that a text spells. -/
def ofText (s : String) : FileName := ⟨s.toByteArray.data.toList⟩

instance : Coe String FileName := ⟨ofText⟩

def text? (name : FileName) : Option String :=
  if h : ByteArray.IsValidUTF8 ⟨name.bytes.toArray⟩ then some (.ofByteArray _ h) else none

def size (name : FileName) : Nat := name.bytes.length

theorem text?_ofText (s : String) : (ofText s).text? = some s := by
  have h : ByteArray.IsValidUTF8 ⟨(ofText s).bytes.toArray⟩ := s.isValidUTF8
  rw [text?, dif_pos h]
  rfl

@[simp]
theorem ofText_inj {s t : String} : ofText s = ofText t ↔ s = t := by
  constructor
  · intro h
    have := text?_ofText s
    rw [h, text?_ofText] at this
    exact (Option.some.inj this).symm
  · exact congrArg ofText

theorem bytes_append (s t : String) :
    (ofText (s ++ t)).bytes = (ofText s).bytes ++ (ofText t).bytes := by
  simp [ofText]

theorem size_ofText (s : String) : (ofText s).size = s.utf8ByteSize := by
  show s.toByteArray.data.toList.length = s.toByteArray.data.size
  simp

/-! ## Names in messages -/

/-- A character of which some bytes are there: how many are to come, between which values the next
one lies, and the number they make so far. -/
structure Partial where
  owed : Nat
  least : UInt8
  greatest : UInt8
  code : Nat
  deriving Repr

/-- What stands in a message for bytes that are no character. -/
def replacement : Char := '\ufffd'

/-- What a first byte gives: a character, a part of one, or nothing that is either. -/
def begin (b : UInt8) : List Char × Option Partial :=
  let n := b.toNat
  if n < 0x80 then ([Char.ofNat n], none)
  else if n < 0xc2 then ([replacement], none)
  else if n < 0xe0 then ([], some ⟨1, 0x80, 0xbf, n - 0xc0⟩)
  else if n = 0xe0 then ([], some ⟨2, 0xa0, 0xbf, 0⟩)
  else if n = 0xed then ([], some ⟨2, 0x80, 0x9f, 0xd⟩)
  else if n < 0xf0 then ([], some ⟨2, 0x80, 0xbf, n - 0xe0⟩)
  else if n = 0xf0 then ([], some ⟨3, 0x90, 0xbf, 0⟩)
  else if n < 0xf4 then ([], some ⟨3, 0x80, 0xbf, n - 0xf0⟩)
  else if n = 0xf4 then ([], some ⟨3, 0x80, 0x8f, 4⟩)
  else ([replacement], none)

/-- The characters in bytes. A byte that cannot go on with what was begun begins anew. -/
def characters : Option Partial → Bytes → List Char
  | none, [] => []
  | some _, [] => [replacement]
  | none, b :: bs => (begin b).1 ++ characters (begin b).2 bs
  | some p, b :: bs =>
    if p.least ≤ b ∧ b ≤ p.greatest then
      let code := 64 * p.code + (b.toNat - 0x80)
      if p.owed = 1 then Char.ofNat code :: characters none bs
      else characters (some ⟨p.owed - 1, 0x80, 0xbf, code⟩) bs
    else replacement :: (begin b).1 ++ characters (begin b).2 bs

/-- A name as it stands in a message. -/
def shown (name : FileName) : String := name.text?.getD (String.ofList (characters none name.bytes))

example : characters none [0x61, 0xff, 0xe2, 0x82, 0x62, 0xf0, 0x9f, 0x8c, 0x88] =
    ['a', replacement, replacement, 'b', '🌈'] := by
  decide

end FileName

end PluginRegistry
