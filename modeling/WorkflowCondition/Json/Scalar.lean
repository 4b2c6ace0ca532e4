import WorkflowCondition.Numeral.Reading
import WorkflowCondition.Text.Utf8
import WorkflowCondition.Value.Number

/-!
# JSON scalars

Reading of the words, strings and numbers of JSON from the front of a text. Each reader gives what
it read and what is left, or the kind of fault that stopped it. The readers are strict: no control
characters in strings, no half of a surrogate pair, no superfluous zeros, no number out of range.
-/

namespace WorkflowCondition

namespace Json

/-- What can be wrong with a JSON text. -/
inductive Fault where
  /-- No JSON. -/
  | malformed
  /-- The text ends too early. -/
  | truncated
  /-- A value of the wrong type. -/
  | mistyped
deriving DecidableEq, Repr

/-- The four characters that may stand between tokens. -/
def isSpace (c : Char) : Bool :=
  c == ' ' || c == '\t' || c == '\n' || c == '\r'

/-- The text behind the space at its start. -/
def skipSpace (cs : List Char) : List Char :=
  cs.dropWhile isSpace

/-- The fault of a character that should not be there, or of the end in its place. -/
def unexpected : List Char → Fault
  | [] => .truncated
  | _ :: _ => .malformed

/-- What is left behind a word. -/
def readWord : (word : List Char) → List Char → Except Fault (List Char)
  | [], cs => .ok cs
  | _ :: _, [] => .error .truncated
  | w :: word, c :: cs => if w = c then readWord word cs else .error .malformed

/-! ## Strings -/

/-- The value of a hexadecimal digit in upper or lower case. -/
def hexValue? (c : Char) : Option Nat :=
  if c.isDigit then some (c.toNat - '0'.toNat)
  else if 'a' ≤ c ∧ c ≤ 'f' then some (c.toNat - 'a'.toNat + 10)
  else if 'A' ≤ c ∧ c ≤ 'F' then some (c.toNat - 'A'.toNat + 10)
  else none

/-- Four hexadecimal digits. The text ends too early if less than four bytes are left of it. -/
def readHex (cs : List Char) : Except Fault (Nat × List Char) :=
  if utf8Length (cs.take 4) < 4 then .error .truncated
  else
    match (cs.take 4).mapM hexValue? with
    | some [a, b, c, d] => .ok (((a * 16 + b) * 16 + c) * 16 + d, cs.drop 4)
    | _ => .error .malformed

/-- The first half of a pair that stands for a character beyond four hexadecimal digits. -/
def isHighSurrogate (n : Nat) : Bool :=
  0xD800 ≤ n && n < 0xDC00

/-- The second half of such a pair. -/
def isLowSurrogate (n : Nat) : Bool :=
  0xDC00 ≤ n && n < 0xE000

/-- The character of an escape in hexadecimal digits; outside the basic plane it takes two of them.
-/
def readUnicode (cs : List Char) : Except Fault (Char × List Char) := do
  let (high, rest) ← readHex cs
  if isLowSurrogate high then .error .malformed
  else if isHighSurrogate high then
    let rest ← readWord ['\\', 'u'] rest
    let (low, rest) ← readHex rest
    if isLowSurrogate low then
      .ok (.ofNat (0x10000 + (high - 0xD800) * 0x400 + (low - 0xDC00)), rest)
    else .error .malformed
  else .ok (.ofNat high, rest)

/-- The character that an escape stands for; the backslash is read already. -/
def readEscape : List Char → Except Fault (Char × List Char)
  | [] => .error .truncated
  | 'u' :: rest => readUnicode rest
  | '"' :: rest => .ok ('"', rest)
  | '\\' :: rest => .ok ('\\', rest)
  | '/' :: rest => .ok ('/', rest)
  | 'b' :: rest => .ok ('\x08', rest)
  | 'f' :: rest => .ok ('\x0c', rest)
  | 'n' :: rest => .ok ('\n', rest)
  | 'r' :: rest => .ok ('\r', rest)
  | 't' :: rest => .ok ('\t', rest)
  | _ :: _ => .error .malformed

theorem readWord_length {word cs rest : List Char} (h : readWord word cs = .ok rest) :
    rest.length ≤ cs.length := by
  fun_induction readWord word cs with
  | case1 cs => cases h; exact Nat.le_refl _
  | case2 => cases h
  | case3 word c cs ih => exact Nat.le_succ_of_le (ih h)
  | case4 => cases h

theorem readHex_length {cs rest : List Char} {n : Nat} (h : readHex cs = .ok (n, rest)) :
    rest.length ≤ cs.length := by
  unfold readHex at h
  split at h
  · cases h
  · split at h
    · cases h; simp
    · cases h

theorem readUnicode_length {cs rest : List Char} {c : Char} (h : readUnicode cs = .ok (c, rest)) :
    rest.length ≤ cs.length := by
  unfold readUnicode at h
  cases hh : readHex cs with
  | error e => simp [hh, bind, Except.bind] at h
  | ok p =>
    obtain ⟨high, r⟩ := p
    have hr := readHex_length hh
    simp only [hh, bind, Except.bind] at h
    split at h
    · cases h
    · split at h
      · cases hw : readWord ['\\', 'u'] r with
        | error e => simp [hw] at h
        | ok r' =>
          have hw' := readWord_length hw
          simp only [hw] at h
          cases hl : readHex r' with
          | error e => simp [hl] at h
          | ok q =>
            obtain ⟨low, r''⟩ := q
            have hl' := readHex_length hl
            simp only [hl] at h
            split at h
            · simp only [Except.ok.injEq, Prod.mk.injEq] at h
              obtain ⟨_, rfl⟩ := h
              omega
            · cases h
      · simp only [Except.ok.injEq, Prod.mk.injEq] at h
        obtain ⟨_, rfl⟩ := h
        exact hr

theorem readEscape_length {cs rest : List Char} {c : Char} (h : readEscape cs = .ok (c, rest)) :
    rest.length < cs.length := by
  unfold readEscape at h
  split at h
  case h_2 => exact Nat.lt_succ_of_le (readUnicode_length h)
  all_goals
    simp only [Except.ok.injEq, Prod.mk.injEq, reduceCtorEq] at h
    try (obtain ⟨_, rfl⟩ := h; exact Nat.lt_succ_self _)

/-- A string up to and with its closing quote; the opening quote is read already. -/
def readString (cs : List Char) : Except Fault (List Char × List Char) :=
  match cs with
  | [] => .error .truncated
  | c :: rest =>
    if c = '"' then .ok ([], rest)
    else if c = '\\' then
      match _h : readEscape rest with
      | .error fault => .error fault
      | .ok (c, rest) =>
        match readString rest with
        | .error fault => .error fault
        | .ok (s, rest) => .ok (c :: s, rest)
    else if c.toNat < 0x20 then .error .malformed
    else
      match readString rest with
      | .error fault => .error fault
      | .ok (s, rest) => .ok (c :: s, rest)
termination_by cs.length
decreasing_by
  · have := readEscape_length _h
    simp only [List.length_cons]
    omega
  · simp

/-! ## Numbers -/

/-- The parts of a number as written. Without fraction and exponent it is an integer. -/
structure NumberText where
  negative : Bool
  whole : List Char
  fraction : Option (List Char)
  exponent : Option Int

/-- One or more digits. -/
def readDigits (cs : List Char) : Except Fault (List Char × List Char) :=
  match cs.takeWhile Char.isDigit with
  | [] => .error (unexpected cs)
  | digits => .ok (digits, cs.dropWhile Char.isDigit)

/-- The digits before the point. A zero stands alone. -/
def readWhole (cs : List Char) : Except Fault (List Char × List Char) := do
  let (digits, rest) ← readDigits cs
  if digits.head? = some '0' ∧ digits ≠ ['0'] then .error .malformed else .ok (digits, rest)

/-- The digits behind a point. A point needs one at least. -/
def readFraction : List Char → Except Fault (Option (List Char) × List Char)
  | '.' :: rest => do
    let (digits, rest) ← readDigits rest
    .ok (some digits, rest)
  | cs => .ok (none, cs)

/-- The exponent behind `e` or `E`, with a sign or without. It needs a digit at least. -/
def readExponent : List Char → Except Fault (Option Int × List Char)
  | [] => .ok (none, [])
  | c :: rest =>
    if c = 'e' ∨ c = 'E' then do
      let (negative, rest) := splitSign rest
      let (digits, rest) ← readDigits rest
      let n : Int := decimalValue digits
      .ok (some (if negative then -n else n), rest)
    else .ok (none, c :: rest)

/-- The parts of a number as they are written. -/
def readNumberText (cs : List Char) : Except Fault (NumberText × List Char) := do
  let (negative, rest) := match cs with
    | '-' :: rest => (true, rest)
    | cs => (false, cs)
  let (whole, rest) ← readWhole rest
  let (fraction, rest) ← readFraction rest
  let (exponent, rest) ← readExponent rest
  .ok (⟨negative, whole, fraction, exponent⟩, rest)

/-- A significand with the digits taken up one by one as long as it stays below `2 ^ 64`, and the
digits that are left over from then on. -/
def takeDigits (significand : Nat) : List Char → Nat × List Char
  | [] => (significand, [])
  | c :: rest =>
    let next := 10 * significand + (c.toNat - '0'.toNat)
    if next < 0x10000000000000000 then takeDigits next rest else (significand, c :: rest)

/-- The code nearest to ten to the power `n`. -/
def powerCode (n : Nat) : Nat :=
  Binary64.nearestNat (powerOfTen n)

/-- A magnitude divided by `10 ^ n`, in steps of at most `10 ^ 308` that are rounded each. -/
def scaleDown (code : Nat) (n : Nat) : Nat :=
  if n ≤ 308 then Binary64.quotient code (powerCode n)
  else if code = 0 then 0
  else scaleDown (Binary64.quotient code (powerCode 308)) (n - 308)
termination_by n

/-- A magnitude multiplied by `10 ^ n`, out of range from `n = 309` on. -/
def scaleUp (code : Nat) (n : Nat) : Nat :=
  if n ≤ 308 then Binary64.product code (powerCode n)
  else if code = 0 then 0
  else Binary64.infinityCode

namespace NumberText

/-- The magnitude of a number that is no integer of 64 bits. Its significand is rounded, then scaled
by the power of ten and rounded again; digits that exceed the significand count as zeros. -/
def code (t : NumberText) : Nat :=
  let (significand, wholeLeft) := takeDigits 0 t.whole
  let fraction := t.fraction.getD []
  let (significand, fractionLeft) := takeDigits significand fraction
  let exponent : Int :=
    wholeLeft.length - (fraction.length - fractionLeft.length) + t.exponent.getD 0
  let magnitude := Binary64.nearestNat significand
  if 0 ≤ exponent then scaleUp magnitude exponent.toNat else scaleDown magnitude exponent.natAbs

/-- The integer that is written, if it is one; `-0` is not. -/
def integer? (t : NumberText) : Option Int :=
  match t.fraction, t.exponent with
  | none, none =>
    let n := decimalValue t.whole
    if t.negative then (if n = 0 then none else some (-(n : Int))) else some n
  | _, _ => none

/-- The nearest float, if it is finite. -/
def float? (t : NumberText) : Option Number :=
  match Binary64.ofCode t.negative t.code with
  | .finite x => some (.float x)
  | _ => none

/-- The number that is written, unless it is out of range. -/
def number? (t : NumberText) : Option Number :=
  match t.integer? with
  | some n => if h : IsNumberInt n then some (.int n h) else t.float?
  | none => t.float?

end NumberText

/-- A number. One that is out of range is malformed. -/
def readNumber (cs : List Char) : Except Fault (Number × List Char) := do
  let (text, rest) ← readNumberText cs
  match text.number? with
  | some n => .ok (n, rest)
  | none => .error .malformed

end Json

end WorkflowCondition
