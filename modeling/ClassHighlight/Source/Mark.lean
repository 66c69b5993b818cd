import ClassHighlight.Source.Quote

/-!
# Marks

A scanner over a document looks at one byte at a time, and at little of what came before: the byte
just before, whether it is escaped, and whether only blanks precede it on its line. A `Mark` holds
a byte together with these facts, so that every scanner is a recursion over the marks that are
left and needs no second look at what it has passed.
-/

namespace ClassHighlight

/-- One byte of a document, with what is to be known of the bytes before it. -/
structure Mark where
  /-- The offset of the byte. -/
  offset : Nat
  /-- The byte itself. -/
  byte : UInt8
  /-- The byte before it, if any. -/
  previous : Option UInt8
  /-- Whether an odd number of backslashes stands directly before it. -/
  escaped : Bool
  /-- Whether only spaces and tabs stand before it on its line. -/
  leadsLine : Bool
deriving DecidableEq, Repr, Inhabited

namespace Mark

/-- The mark of the byte that follows a mark. -/
def next (m : Mark) (b : UInt8) : Mark where
  offset := m.offset + 1
  byte := b
  previous := some m.byte
  escaped := escapesNext m.escaped m.byte
  leadsLine := m.byte == '\n'.toUInt8 ||
    (m.leadsLine && (m.byte == ' '.toUInt8 || m.byte == '\t'.toUInt8))

/-- The marks of the bytes that follow a mark. -/
def following (m : Mark) : List UInt8 → List Mark
  | [] => []
  | b :: rest => m.next b :: following (m.next b) rest

/-- The marks of a byte sequence. -/
def ofBytes : List UInt8 → List Mark
  | [] => []
  | b :: rest => ⟨0, b, none, false, true⟩ :: following ⟨0, b, none, false, true⟩ rest

/-- The quote that a mark opens when no quoted region is open. -/
def opens? (m : Mark) : Option Quote :=
  if m.escaped then none else Quote.ofByte? m.byte

/-- Whether a mark closes a quoted region. -/
def closes (m : Mark) (q : Quote) : Bool :=
  m.byte == q.byte && !m.escaped

/-- The bytes of a list of marks. -/
def bytes (ms : List Mark) : List UInt8 :=
  ms.map Mark.byte

/-- Whether the marks start with the given bytes. -/
def startsWith (pattern : List UInt8) (ms : List Mark) : Bool :=
  bytes (ms.take pattern.length) == pattern

@[simp] theorem length_following (m : Mark) (bs : List UInt8) :
    (following m bs).length = bs.length := by
  induction bs generalizing m with
  | nil => rfl
  | cons b bs ih => simp [following, ih]

/-- There is one mark for each byte. -/
@[simp] theorem length_ofBytes (bs : List UInt8) : (ofBytes bs).length = bs.length := by
  cases bs <;> simp [ofBytes]

end Mark

end ClassHighlight
