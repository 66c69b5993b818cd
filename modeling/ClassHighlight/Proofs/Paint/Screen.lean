import ClassHighlight.Paint.Terminal

/-!
# Reading escape sequences

A screen shows the characters that it reads with the pen it has. A sequence that selects styles
changes the pen and shows nothing. The sequence that starts a style gives the plain pen this style,
and the one that ends all styles makes the pen plain again, so a run of characters is shown in its
style and leaves the pen as it was.
-/

namespace ClassHighlight

/-- How a screen draws characters. -/
structure Pen where
  /-- Whether they are bold. -/
  isBold : Bool
  /-- Whether they are slanted. -/
  isItalic : Bool
  /-- Their color in red, green and blue, unless it is that of the screen. -/
  color : Option (Nat × Nat × Nat)
deriving DecidableEq, Repr

namespace Pen

/-- The pen of a screen at its start. -/
def plain : Pen := ⟨false, false, none⟩

/-- The pen with one more code. -/
def selectOne (pen : Pen) : Nat → Pen
  | 0 => plain
  | 1 => { pen with isBold := true }
  | 3 => { pen with isItalic := true }
  | _ => pen

/-- The pen after the codes of a sequence, in which a color has five. -/
def select (pen : Pen) : List Nat → Pen
  | [] => pen
  | 38 :: 2 :: r :: g :: b :: rest => select { pen with color := some (r, g, b) } rest
  | code :: rest => select (pen.selectOne code) rest

/-- The pen that draws a style. -/
def ofStyle (s : Style) : Pen :=
  ⟨s.isBold, s.isItalic, some (s.color.r.toNat, s.color.g.toNat, s.color.b.toNat)⟩

/-- The pen that draws what has a style or none. -/
def ofStyle? : Option Style → Pen
  | none => plain
  | some s => ofStyle s

end Pen

/-- What a screen takes the next character for. -/
inductive Reading where
  /-- A character to be shown, or the start of a sequence. -/
  | characters
  /-- The second character of a sequence. -/
  | escape
  /-- A part of a sequence; its codes, and the last one as far as it was read. -/
  | codes (before : List Nat) (code : Nat)
deriving DecidableEq, Repr

/-- A screen that reads characters. -/
structure Screen where
  /-- The characters that are shown, each with the pen it was drawn with. -/
  cells : List (Pen × Char)
  /-- The pen. -/
  pen : Pen
  /-- What comes next. -/
  reading : Reading
deriving DecidableEq, Repr

namespace Screen

/-- A screen at its start. -/
def blank : Screen := ⟨[], .plain, .characters⟩

/-- Reads a character. -/
def feed (s : Screen) (c : Char) : Screen :=
  match s.reading with
  | .characters =>
    if c = '\x1b' then { s with reading := .escape }
    else { s with cells := s.cells ++ [(s.pen, c)] }
  | .escape => { s with reading := if c = '[' then .codes [] 0 else .characters }
  | .codes before code =>
    if c.isDigit then { s with reading := .codes before (10 * code + (c.toNat - '0'.toNat)) }
    else if c = ';' then { s with reading := .codes (before ++ [code]) 0 }
    else if c = 'm' then { s with pen := s.pen.select (before ++ [code]), reading := .characters }
    -- other sequences end with such a character as well, but do not change the pen
    else if '@' ≤ c ∧ c ≤ '~' then { s with reading := .characters }
    else s

/-- Reads a text. -/
def read (s : Screen) (t : Text) : Screen := t.foldl feed s

@[simp] theorem read_nil (s : Screen) : s.read [] = s := rfl

@[simp] theorem read_cons (s : Screen) (c : Char) (t : Text) :
    s.read (c :: t) = (s.feed c).read t := rfl

@[simp] theorem read_append (s : Screen) (t u : Text) : s.read (t ++ u) = (s.read t).read u :=
  List.foldl_append

variable (cells : List (Pen × Char)) (pen : Pen)

/-- Characters outside of sequences are shown. -/
theorem read_characters {t : Text} (h : '\x1b' ∉ t) :
    (⟨cells, pen, .characters⟩ : Screen).read t =
      ⟨cells ++ t.map fun c => (pen, c), pen, .characters⟩ := by
  induction t generalizing cells with
  | nil => rw [read_nil, List.map_nil, List.append_nil]
  | cons c rest ih =>
    rw [List.mem_cons, not_or] at h
    have hfeed : (⟨cells, pen, .characters⟩ : Screen).feed c =
        ⟨cells ++ [(pen, c)], pen, .characters⟩ := if_neg (Ne.symm h.1)
    rw [read_cons, hfeed, ih _ h.2, List.map_cons, List.append_assoc, List.singleton_append]

/-- Digits go on with the code that is being read. -/
theorem read_digits {digits : Text} (h : ∀ c ∈ digits, c.isDigit = true) (before : List Nat)
    (code : Nat) :
    (⟨cells, pen, .codes before code⟩ : Screen).read digits =
      ⟨cells, pen, .codes before (Nat.ofDigitChars 10 digits code)⟩ := by
  induction digits generalizing code with
  | nil => rfl
  | cons c rest ih =>
    have hfeed : (⟨cells, pen, .codes before code⟩ : Screen).feed c =
        ⟨cells, pen, .codes before (10 * code + (c.toNat - '0'.toNat))⟩ :=
      if_pos (h c List.mem_cons_self)
    rw [read_cons, hfeed, ih fun d hd => h d (List.mem_cons_of_mem _ hd)]
    rfl

/-- A number is read back. -/
theorem read_decimal (before : List Nat) (n : Nat) :
    (⟨cells, pen, .codes before 0⟩ : Screen).read (Text.decimal n) =
      ⟨cells, pen, .codes before n⟩ := by
  have hdigits : ∀ c ∈ Text.decimal n, c.isDigit = true := fun c hc =>
    Nat.isDigit_of_mem_toDigits (by decide) (by decide) hc
  rw [read_digits cells pen hdigits, Text.decimal, Nat.ofDigitChars_ten_toDigits]

/-- The rest of a sequence changes the pen by all of its codes. -/
theorem read_codes (before : List Nat) (n : Nat) (ns : List Nat) :
    (⟨cells, pen, .codes before 0⟩ : Screen).read
        ([';'].intercalate ((n :: ns).map Text.decimal) ++ ['m']) =
      ⟨cells, pen.select (before ++ n :: ns), .characters⟩ := by
  induction ns generalizing before n with
  | nil =>
    rw [List.map_cons, List.map_nil, List.intercalate_singleton, read_append, read_decimal]
    rfl
  | cons next rest ih =>
    have hfeed : (⟨cells, pen, .codes before n⟩ : Screen).feed ';' =
        ⟨cells, pen, .codes (before ++ [n]) 0⟩ := rfl
    rw [List.map_cons, List.map_cons, List.intercalate_cons_cons, List.append_assoc,
      List.append_assoc, read_append, read_decimal, List.singleton_append, read_cons, hfeed, ← List.map_cons, ih,
      List.append_assoc, List.singleton_append]

/-- A sequence shows nothing, and changes the pen by its codes. -/
theorem read_escapeSequence (n : Nat) (ns : List Nat) :
    (⟨cells, pen, .characters⟩ : Screen).read
        (Terminal.escapeSequence ((n :: ns).map Text.decimal)) =
      ⟨cells, pen.select (n :: ns), .characters⟩ :=
  read_codes cells pen [] n ns

/-- The sequence that starts a style gives its pen. -/
theorem read_startStyle (style : Style) :
    (⟨cells, .plain, .characters⟩ : Screen).read (Terminal.startStyle style) =
      ⟨cells, .ofStyle style, .characters⟩ := by
  let channels := [style.color.r.toNat, style.color.g.toNat, style.color.b.toNat]
  unfold Terminal.startStyle Pen.ofStyle
  cases style.isBold with
  | false =>
    cases style.isItalic with
    | false => exact read_escapeSequence cells .plain 38 (2 :: channels)
    | true => exact read_escapeSequence cells .plain 3 (38 :: 2 :: channels)
  | true =>
    cases style.isItalic with
    | false => exact read_escapeSequence cells .plain 1 (38 :: 2 :: channels)
    | true => exact read_escapeSequence cells .plain 1 (3 :: 38 :: 2 :: channels)

theorem read_endStyle : (⟨cells, pen, .characters⟩ : Screen).read Terminal.endStyle =
    ⟨cells, .plain, .characters⟩ :=
  read_escapeSequence cells pen 0 []

/-- A run is shown in its style, and leaves the pen plain. -/
theorem read_showRun (style : Option Style) {run : Text} (h : '\x1b' ∉ run) :
    (⟨cells, .plain, .characters⟩ : Screen).read (Terminal.showRun (style, run)) =
      ⟨cells ++ run.map fun c => (.ofStyle? style, c), .plain, .characters⟩ := by
  cases style with
  | none => exact read_characters cells .plain h
  | some style =>
    rw [Terminal.showRun, read_append, read_append, read_startStyle, read_characters cells _ h,
      read_endStyle]
    rfl

/-- Runs are shown one after the other, each in its style. -/
theorem read_runs {rs : List (Option Style × Text)} (h : ∀ r ∈ rs, '\x1b' ∉ r.2) :
    (⟨cells, .plain, .characters⟩ : Screen).read (rs.flatMap Terminal.showRun) =
      ⟨cells ++ rs.flatMap fun r => r.2.map fun c => (.ofStyle? r.1, c), .plain, .characters⟩ := by
  induction rs generalizing cells with
  | nil => simp only [List.flatMap_nil, read_nil, List.append_nil]
  | cons r rest ih =>
    obtain ⟨style, run⟩ := r
    rw [List.flatMap_cons, read_append, read_showRun cells style (h _ List.mem_cons_self),
      ih _ fun r hr => h r (List.mem_cons_of_mem _ hr), List.flatMap_cons, List.append_assoc]

end Screen

end ClassHighlight
