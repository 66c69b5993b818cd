import ClassHighlight.Text.Hexadecimal

/-!
# TOML strings

A string is written in one of four forms: with quotation marks or with apostrophes, on one line or
on several. Between quotation marks a backslash escapes; between apostrophes everything stands for
itself. Writing prefers a form without escapes; reading accepts all four.
-/

namespace ClassHighlight

namespace Toml

/-- A way of writing a string. -/
inductive StringForm where
  /-- On one line, in quotation marks. -/
  | basic
  /-- On one line, in apostrophes. -/
  | literal
  /-- On several lines, in three quotation marks. -/
  | basicLines
  /-- On several lines, in three apostrophes. -/
  | literalLines
deriving DecidableEq, Repr

/-- Whether a character is a control that only an escape can stand for. -/
def isControl (c : Char) : Bool :=
  (c.toNat < 0x20 && c != '\t' && c != '\n') || c == '\x7f'

/-- Whether a character may stand for itself on one line: it is no control but the tab. -/
def isInline (c : Char) : Bool :=
  !isControl c && c != '\n'

/-! ## Writing -/

/-- The length of the longest run of a character, when `current` of them stand before the text and
the longest run so far has length `longest`. -/
def longestRunFrom (q : Char) (current longest : Nat) : Text → Nat
  | [] => longest
  | c :: rest =>
    if c == q then longestRunFrom q (current + 1) (max longest (current + 1)) rest
    else longestRunFrom q 0 longest rest

/-- The length of the longest run of a character in a text. -/
def longestRun (q : Char) (t : Text) : Nat := longestRunFrom q 0 0 t

/-- The form in which a text is written: the first of the four that needs no escapes, or one in
quotation marks. -/
def StringForm.choose (t : Text) : StringForm :=
  let control := t.any isControl
  let backslash := t.contains '\\'
  let newline := t.contains '\n'
  if !control && !backslash && longestRun '\x22' t == 0 && !newline then .basic
  else if !control && longestRun '\x27' t == 0 && !newline then .literal
  else if !control && !backslash && longestRun '\x22' t ≤ 2 then .basicLines
  else if !control && longestRun '\x27' t ≤ 2 then .literalLines
  else if newline then .basicLines
  else .basic

/-- A character between quotation marks, other than a quotation mark. -/
def escapeChar (lines : Bool) (c : Char) : Text :=
  if c == '\x08' then ['\\', 'b']
  else if c == '\t' then ['\\', 't']
  else if c == '\n' then if lines then ['\n'] else ['\\', 'n']
  else if c == '\x0c' then ['\\', 'f']
  else if c == '\r' then ['\\', 'r']
  else if c == '\\' then ['\\', '\\']
  else if isControl c then ['\\', 'u', '0', '0'] ++ Text.hexByte c.toUInt8
  else [c]

/-- A text between quotation marks, after `marks` unescaped ones; on several lines two in a row may
stand unescaped, on one line none. -/
def escape (lines : Bool) (marks : Nat) : Text → Text
  | [] => []
  | c :: rest =>
    if c == '\x22' then
      if marks < (if lines then 2 else 0) then '\x22' :: escape lines (marks + 1) rest
      else '\\' :: '\x22' :: escape lines 0 rest
    else escapeChar lines c ++ escape lines 0 rest

/-- Three of a character. -/
def triple (q : Char) : Text := [q, q, q]

/-- Writes a text in a form. In the forms for several lines, a text that has a line feed starts on
a line of its own. -/
def StringForm.write (form : StringForm) (t : Text) : Text :=
  let first := if t.contains '\n' then ['\n'] else []
  match form with
  | .basic => '\x22' :: escape false 0 t ++ ['\x22']
  | .literal => '\x27' :: t ++ ['\x27']
  | .basicLines => triple '\x22' ++ first ++ escape true 0 t ++ triple '\x22'
  | .literalLines => triple '\x27' ++ first ++ t ++ triple '\x27'

/-- Writes a string. -/
def writeString (t : Text) : Text :=
  (StringForm.choose t).write t

/-! ## Reading -/

/-- The character whose code point is written at the start of a text with `n` hexadecimal digits,
and what follows. -/
def readCodePoint? (n : Nat) (t : Text) : Option (Char × Text) :=
  ((t.take n).mapM Text.hexValue?).bind fun digits =>
    let code := Text.ofDigitValues 16 digits
    if digits.length = n ∧ code.isValidChar then some (Char.ofNat code, t.drop n) else none

/-- The character that an escape stands for, after its backslash, and what follows. -/
def readEscape? : Text → Option (Char × Text)
  | [] => none
  | c :: rest =>
    if c == 'b' then some ('\x08', rest)
    else if c == 't' then some ('\t', rest)
    else if c == 'n' then some ('\n', rest)
    else if c == 'f' then some ('\x0c', rest)
    else if c == 'r' then some ('\r', rest)
    else if c == '\x22' then some ('\x22', rest)
    else if c == '\\' then some ('\\', rest)
    else if c == 'u' then readCodePoint? 4 rest
    else if c == 'U' then readCodePoint? 8 rest
    else none

theorem length_of_readCodePoint? {n : Nat} {t after : Text} {c : Char}
    (h : readCodePoint? n t = some (c, after)) : after.length ≤ t.length := by
  simp only [readCodePoint?, Option.bind_eq_some_iff] at h
  obtain ⟨digits, _, h⟩ := h
  split at h
  · obtain ⟨_, rfl⟩ : _ ∧ t.drop n = after := by simpa using h
    simp
  · simp at h

/-- An escape takes up at least one character. -/
theorem length_of_readEscape? {t after : Text} {c : Char}
    (h : readEscape? t = some (c, after)) : after.length < t.length := by
  cases t with
  | nil => simp [readEscape?] at h
  | cons d rest =>
    have hrest : after = rest ∨ after.length ≤ rest.length := by
      simp only [readEscape?] at h
      repeat' split at h
      all_goals first
        | exact Or.inr (length_of_readCodePoint? h)
        | simp_all
    rcases hrest with rfl | hle
    · simp
    · simp only [List.length_cons]; omega

/-- The rest of a string on one line in quotation marks, and what follows it. -/
def readBasic? : Text → Option (Text × Text)
  | [] => none
  | c :: rest =>
    if c == '\x22' then some ([], rest)
    else if c == '\\' then
      match _h : readEscape? rest with
      | some (d, after) => (readBasic? after).map fun (t, last) => (d :: t, last)
      | none => none
    else if isInline c then (readBasic? rest).map fun (t, last) => (c :: t, last)
    else none
termination_by t => t.length
decreasing_by
  · have := length_of_readEscape? _h
    simp only [List.length_cons]
    omega
  · simp

/-- The rest of a string on one line in apostrophes, and what follows it. -/
def readLiteral? : Text → Option (Text × Text)
  | [] => none
  | c :: rest =>
    if c == '\x27' then some ([], rest)
    else if isInline c then (readLiteral? rest).map fun (t, last) => (c :: t, last)
    else none

/-- What follows a line break at the start of a text: a line feed, with or without a carriage
return before it. -/
def afterLineBreak? : Text → Option Text
  | '\n' :: rest => some rest
  | '\r' :: '\n' :: rest => some rest
  | _ => none

theorem length_of_afterLineBreak? {t rest : Text} (h : afterLineBreak? t = some rest) :
    rest.length < t.length := by
  unfold afterLineBreak? at h
  split at h
  · cases h; simp
  · cases h; simp only [List.length_cons]; omega
  · simp at h

/-- A text without the spaces and tabs at its start. -/
def skipBlanks (t : Text) : Text := t.dropWhile fun c => c == ' ' || c == '\t'

/-- A text without the spaces, tabs and line breaks at its start. -/
def skipLines (t : Text) : Text :=
  match _h : afterLineBreak? (skipBlanks t) with
  | some rest => skipLines rest
  | none => skipBlanks t
termination_by t.length
decreasing_by
  have hskip : (skipBlanks t).length ≤ t.length := (List.dropWhile_sublist _).length_le
  have := length_of_afterLineBreak? _h
  omega

theorem length_skipLines_le (t : Text) : (skipLines t).length ≤ t.length := by
  have hskip (t : Text) : (skipBlanks t).length ≤ t.length := (List.dropWhile_sublist _).length_le
  fun_induction skipLines t with
  | case1 t rest h ih =>
    have := length_of_afterLineBreak? h
    have := hskip t
    omega
  | case2 t h => exact hskip t

/-- A run of a character at the start of a text that ends a string on several lines: the number of
characters that belong to the string, which is at most two, and what follows the closing three. A
shorter run ends nothing. -/
def closeTriple? (q : Char) (t : Text) : Option (Nat × Text) :=
  let run := (t.takeWhile (· == q)).length
  if run < 3 then none
  else
    let inside := min (run - 3) 2
    some (inside, t.drop (3 + inside))

/-- The rest of a string on several lines, and what follows it. Between quotation marks, which is
when `escapes` is set, a backslash at the end of a line takes away the line break with all blanks
and line breaks after it. Every line break is read as a line feed. -/
def readLines? (q : Char) (escapes : Bool) (t : Text) : Option (Text × Text) :=
  match closeTriple? q t with
  | some (inside, last) => some (List.replicate inside q, last)
  | none =>
    match _hbreak : afterLineBreak? t with
    | some rest => (readLines? q escapes rest).map fun (t, last) => ('\n' :: t, last)
    | none =>
      match t with
      | [] => none
      | c :: rest =>
        if escapes && c == '\\' then
          match _hescape : readEscape? rest with
          | some (d, after) => (readLines? q escapes after).map fun (t, last) => (d :: t, last)
          | none =>
            if (afterLineBreak? (skipBlanks rest)).isSome then readLines? q escapes (skipLines rest)
            else none
        else if isInline c then (readLines? q escapes rest).map fun (t, last) => (c :: t, last)
        else none
termination_by t.length
decreasing_by
  · exact length_of_afterLineBreak? _hbreak
  · have := length_of_readEscape? _hescape
    simp only [List.length_cons]
    omega
  · have := length_skipLines_le rest
    simp only [List.length_cons]
    omega
  · simp

/-- A text without a line break at its start. -/
def dropLineBreak (t : Text) : Text := (afterLineBreak? t).getD t

/-- The string at the start of a text, in any form, and what follows it. -/
def readString? : Text → Option (Text × Text)
  | '\x22' :: '\x22' :: '\x22' :: rest => readLines? '\x22' true (dropLineBreak rest)
  | '\x27' :: '\x27' :: '\x27' :: rest => readLines? '\x27' false (dropLineBreak rest)
  | '\x22' :: rest => readBasic? rest
  | '\x27' :: rest => readLiteral? rest
  | _ => none

end Toml

end ClassHighlight
