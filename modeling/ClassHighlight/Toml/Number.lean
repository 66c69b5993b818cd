import ClassHighlight.Text.Hexadecimal
import ClassHighlight.Toml.Value

/-!
# TOML numbers, dates and times

What starts with a digit or a sign is a date or a time, a floating-point number, or an integer,
tried in this order. Each function reads from the start of a text and gives what follows.
-/

namespace ClassHighlight

namespace Toml

/-- What follows a given character at the start of a text. -/
def after? (c : Char) : Text → Option Text
  | [] => none
  | d :: rest => if d == c then some rest else none

/-- What follows one of some characters at the start of a text. -/
def afterAny? (cs : List Char) : Text → Option Text
  | [] => none
  | d :: rest => if cs.contains d then some rest else none

/-- The part of a text before what follows in it. -/
def before (t rest : Text) : Text := t.take (t.length - rest.length)

/-! ## Dates and times -/

/-- Exactly `n` decimal digits. -/
def readFixed? (n : Nat) (t : Text) : Option (Nat × Text) :=
  let digits := t.take n
  if digits.length = n ∧ digits.all Char.isDigit then
    some (Nat.ofDigitChars 10 digits 0, t.drop n)
  else
    none

/-- Whether a year has a leap day. -/
def isLeapYear (year : Nat) : Bool :=
  year % 4 == 0 && (year % 100 != 0 || year % 400 == 0)

/-- The number of days of a month, counted from one. -/
def daysInMonth (year month : Nat) : Nat :=
  if month = 2 then if isLeapYear year then 29 else 28
  else if [4, 6, 9, 11].contains month then 30
  else 31

/-- A date: year, month and day. -/
def afterDate? (t : Text) : Option Text := do
  let (year, t) ← readFixed? 4 t
  let (month, t) ← readFixed? 2 (← after? '-' t)
  let (day, t) ← readFixed? 2 (← after? '-' t)
  if 1 ≤ month ∧ month ≤ 12 ∧ 1 ≤ day ∧ day ≤ daysInMonth year month then some t else none

/-- Hours and minutes. -/
def afterMinutes? (t : Text) : Option Text := do
  let (hour, t) ← readFixed? 2 t
  let (minute, t) ← readFixed? 2 (← after? ':' t)
  if hour ≤ 23 ∧ minute ≤ 59 then some t else none

/-- A time of day, which may have a leap second and a fraction. -/
def afterTime? (t : Text) : Option Text := do
  let (second, t) ← readFixed? 2 (← after? ':' (← afterMinutes? t))
  if second ≤ 60 then
    match after? '.' t with
    | none => some t
    | some fraction =>
      if (fraction.head?.any Char.isDigit) then some (fraction.dropWhile Char.isDigit) else none
  else
    none

/-- The distance of a time from universal time, or nothing. -/
def afterOffset? (t : Text) : Option Text :=
  match afterAny? ['Z', 'z'] t, afterAny? ['+', '-'] t with
  | some rest, _ => some rest
  | none, some rest => afterMinutes? rest
  | none, none => some t

/-- A time after a date, or nothing. -/
def afterTimeOfDate? (t : Text) : Option Text :=
  match (afterAny? ['T', 't', ' '] t).bind afterTime? with
  | some rest => afterOffset? rest
  | none => some t

/-- A date, a time, or both. -/
def readMoment? (t : Text) : Option (Value × Text) :=
  match (afterDate? t).bind afterTimeOfDate?, afterTime? t with
  | some rest, _ => some (.moment (before t rest), rest)
  | none, some rest => some (.moment (before t rest), rest)
  | none, none => none

/-! ## Numbers -/

/-- Digits after a first one, each of which may follow an underscore, and what follows them. -/
def moreDigits (isDigit : Char → Bool) : Text → Text × Text
  | '_' :: c :: rest =>
    if isDigit c then
      let (digits, last) := moreDigits isDigit rest
      (c :: digits, last)
    else ([], '_' :: c :: rest)
  | c :: rest =>
    if isDigit c then
      let (digits, last) := moreDigits isDigit rest
      (c :: digits, last)
    else ([], c :: rest)
  | [] => ([], [])

/-- One or more digits with underscores between them. -/
def readDigits? (isDigit : Char → Bool) : Text → Option (Text × Text)
  | [] => none
  | c :: rest =>
    if isDigit c then
      let (digits, last) := moreDigits isDigit rest
      some (c :: digits, last)
    else none

/-- A sign, or nothing: whether it is a minus, and what follows. -/
def readSign (t : Text) : Bool × Text :=
  match t with
  | '+' :: rest => (false, rest)
  | '-' :: rest => (true, rest)
  | _ => (false, t)

/-- Decimal digits of which the first is zero only if it is alone. -/
def readWhole? : Text → Option (Text × Text)
  | '0' :: rest => some (['0'], rest)
  | t => readDigits? Char.isDigit t

/-- Whether a number of 64 bits with a sign can have a value. -/
def fitsInt64 (n : Int) : Bool := -0x8000000000000000 ≤ n && n < 0x8000000000000000

/-- An integer, if it fits into 64 bits. -/
def integerOf? (n : Int) (rest : Text) : Option (Value × Text) :=
  if fitsInt64 n then some (.integer n, rest) else none

/-- An integer in another base than ten, after its mark. -/
def readBased? (base : Nat) (t : Text) : Option (Value × Text) := do
  let (digits, rest) ← readDigits? (fun c => (Text.hexValue? c).any (· < base)) t
  let values ← digits.mapM Text.hexValue?
  integerOf? (Text.ofDigitValues base values) rest

/-- An integer. -/
def readInteger? : Text → Option (Value × Text)
  | '0' :: 'x' :: rest => readBased? 16 rest
  | '0' :: 'o' :: rest => readBased? 8 rest
  | '0' :: 'b' :: rest => readBased? 2 rest
  | t =>
    let (negative, unsigned) := readSign t
    (readWhole? unsigned).bind fun (digits, rest) =>
      let n := Nat.ofDigitChars 10 digits 0
      integerOf? (if negative then -(n : Int) else n) rest

/-- The fraction of a number, or nothing: its digits and what follows. -/
def readFraction? (t : Text) : Option (Text × Text) :=
  (after? '.' t).bind (readDigits? Char.isDigit)

/-- The exponent of a number, or nothing: its value and what follows. -/
def readExponent? (t : Text) : Option (Int × Text) :=
  (afterAny? ['e', 'E'] t).bind fun t =>
    let (negative, unsigned) := readSign t
    (readDigits? Char.isDigit unsigned).map fun (digits, rest) =>
      let n := Nat.ofDigitChars 10 digits 0
      (if negative then -(n : Int) else n, rest)

/-- The least number that is rounded to infinity: halfway from the largest double-precision number
to the power of two after it. -/
def infiniteFrom : Nat := (1 <<< 1024) - (1 <<< 970)

/-- Whether `digits`, taken as a number and multiplied by a power of ten, is rounded to infinity in
double precision. -/
def isInfinite (digits : Text) (exponent : Int) : Bool :=
  let n := Nat.ofDigitChars 10 digits 0
  let magnitude := (Text.byteLength (Nat.toDigits 10 n) : Int) + exponent
  if n = 0 || magnitude < 309 then false
  else if 309 < magnitude then true
  else if 0 ≤ exponent then infiniteFrom ≤ n * Nat.pow 10 exponent.toNat
  else infiniteFrom * Nat.pow 10 (-exponent).toNat ≤ n

/-- A floating-point number with a fraction or an exponent. Only positive numbers are refused for
being too large. -/
def readDecimal? (t : Text) : Option (Value × Text) := do
  let (negative, unsigned) := readSign t
  let (whole, rest) ← readWhole? unsigned
  let (fraction, exponent, rest) ←
    match readFraction? rest with
    | some (fraction, rest) =>
      let (exponent, rest) := (readExponent? rest).getD (0, rest)
      some (fraction, exponent, rest)
    | none => (readExponent? rest).map fun (exponent, rest) => ([], exponent, rest)
  if !negative && isInfinite (whole ++ fraction) (exponent - fraction.length) then none
  else some (.float (before t rest), rest)

/-- What follows a given word at the start of a text. -/
def afterWord? (word t : Text) : Option Text :=
  if t.take word.length = word then some (t.drop word.length) else none

/-- A floating-point number. -/
def readFloat? (t : Text) : Option (Value × Text) :=
  let (_, unsigned) := readSign t
  match afterWord? ['i', 'n', 'f'] unsigned, afterWord? ['n', 'a', 'n'] unsigned with
  | some rest, _ => some (.float (before t rest), rest)
  | none, some rest => some (.float (before t rest), rest)
  | none, none => readDecimal? t

/-- A date, a time or a number. -/
def readNumeric? (t : Text) : Option (Value × Text) :=
  (readMoment? t).or ((readFloat? t).or (readInteger? t))

end Toml

end ClassHighlight
