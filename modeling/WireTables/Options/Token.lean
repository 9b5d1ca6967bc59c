import WireTables.Layout

/-!
The tokens of a JSON text. Characters are taken one at a time: a word is a run of letters, digits,
signs and points, and is a token only if it is a number or one of the three names.
-/

namespace WireTables.Json

/-- A part of a string: a character as it stands, or a code unit that was written as an escape. -/
inductive StringPart
  | char (value : Char)
  | unit (code : Nat)
  deriving DecidableEq, Repr

inductive Token
  | openObject | closeObject | openArray | closeArray | comma | colon
  | string (parts : List StringPart)
  | number (digits : List Char)
  | bool (value : Bool)
  | null
  deriving DecidableEq, Repr

def isBlank (c : Char) : Bool := c == ' ' || c == '\n' || c == '\t' || c == '\r'

def isWordPart (c : Char) : Bool := c.isAlphanum || c == '-' || c == '+' || c == '.'

def digitsOnly (text : List Char) : Bool := !text.isEmpty && text.all Char.isDigit

def isExponent : List Char → Bool
  | [] => true
  | mark :: text =>
      (mark == 'e' || mark == 'E') &&
        match text with
        | '+' :: digits | '-' :: digits => digitsOnly digits
        | digits => digitsOnly digits

def isFraction : List Char → Bool
  | '.' :: text =>
      digitsOnly (text.takeWhile Char.isDigit) && isExponent (text.dropWhile Char.isDigit)
  | text => isExponent text

def isNumber (text : List Char) : Bool :=
  let unsigned := if text.head? = some '-' then text.tail else text
  let whole := unsigned.takeWhile Char.isDigit
  (whole == ['0'] || (!whole.isEmpty && whole.head? != some '0')) &&
    isFraction (unsigned.dropWhile Char.isDigit)

def wordToken (text : List Char) : Option Token :=
  if text = "true".toList then some (.bool true)
  else if text = "false".toList then some (.bool false)
  else if text = "null".toList then some .null
  else if isNumber text then some (.number text)
  else none

/-- Where reading stands between two characters. What was read of a token is kept last part first.
-/
inductive Mode
  | between
  | word (read : List Char)
  | string (read : List StringPart)
  | escape (read : List StringPart)
  | unit (read : List StringPart) (digits : Nat) (code : Nat)
  deriving DecidableEq, Repr

def start (c : Char) : Option (List Token × Mode) :=
  if isBlank c then some ([], .between)
  else if isWordPart c then some ([], .word [c])
  else match c with
    | '"' => some ([], .string [])
    | '\x7b' => some ([.openObject], .between)
    | '\x7d' => some ([.closeObject], .between)
    | '[' => some ([.openArray], .between)
    | ']' => some ([.closeArray], .between)
    | ',' => some ([.comma], .between)
    | ':' => some ([.colon], .between)
    | _ => none

def escapedChar : Char → Option Char
  | '"' => some '"'
  | '\\' => some '\\'
  | '/' => some '/'
  | 'b' => some '\x08'
  | 'f' => some '\x0c'
  | 'n' => some '\n'
  | 'r' => some '\r'
  | 't' => some '\t'
  | _ => none

def hexValue (c : Char) : Option Nat :=
  if c.isDigit then some (c.toNat - '0'.toNat)
  else if 'a' ≤ c ∧ c ≤ 'f' then some (c.toNat - 'a'.toNat + 10)
  else if 'A' ≤ c ∧ c ≤ 'F' then some (c.toNat - 'A'.toNat + 10)
  else none

def step : Mode → Char → Option (List Token × Mode)
  | .between, c => start c
  | .word read, c =>
      if isWordPart c then some ([], .word (c :: read))
      else do
        let token ← wordToken read.reverse
        let (tokens, mode) ← start c
        pure (token :: tokens, mode)
  | .string read, c =>
      if c = '"' then some ([.string read.reverse], .between)
      else if c = '\\' then some ([], .escape read)
      else if c.toNat < 0x20 then none
      else some ([], .string (.char c :: read))
  | .escape read, c =>
      if c = 'u' then some ([], .unit read 0 0)
      else (escapedChar c).map fun value => ([], .string (.char value :: read))
  | .unit read digits code, c => do
      let value ← hexValue c
      let code := code * 16 + value
      pure ([], if digits = 3 then .string (.unit code :: read) else .unit read (digits + 1) code)

def tokensFrom : Mode → List Char → Option (List Token)
  | .between, [] => some []
  | .word read, [] => (wordToken read.reverse).map ([·])
  | _, [] => none
  | mode, c :: rest => do
      let (tokens, next) ← step mode c
      let more ← tokensFrom next rest
      pure (tokens ++ more)

def tokens (text : String) : Option (List Token) := tokensFrom .between text.toList

/-- The characters of a string. Two code units may stand for one character; a unit of such a pair
cannot stand alone. -/
def characters : List StringPart → Option (List Char)
  | [] => some []
  | .char c :: rest => (characters rest).map (c :: ·)
  | .unit code :: rest =>
      if 0xDC00 ≤ code ∧ code ≤ 0xDFFF then none
      else if 0xD800 ≤ code ∧ code ≤ 0xDBFF then
        match rest with
        | .unit low :: rest =>
            if 0xDC00 ≤ low ∧ low ≤ 0xDFFF then
              (characters rest).map
                (Char.ofNat (0x10000 + (code - 0xD800) * 0x400 + (low - 0xDC00)) :: ·)
            else none
        | _ => none
      else (characters rest).map (Char.ofNat code :: ·)

/-! ### Nesting -/

inductive Expected
  | value
  | valueOrEnd
  | keyOrEnd
  | key
  | colon
  | afterValue
  deriving DecidableEq, Repr

inductive Bracket
  | array
  | object
  deriving DecidableEq, Repr

def advance : Expected → List Bracket → Token → Option (Expected × List Bracket)
  | .valueOrEnd, .array :: brackets, .closeArray => some (.afterValue, brackets)
  | .value, brackets, token | .valueOrEnd, brackets, token =>
      match token with
      | .openObject => some (.keyOrEnd, .object :: brackets)
      | .openArray => some (.valueOrEnd, .array :: brackets)
      | .string _ | .number _ | .bool _ | .null => some (.afterValue, brackets)
      | _ => none
  | .keyOrEnd, .object :: brackets, .closeObject => some (.afterValue, brackets)
  | .keyOrEnd, brackets, .string _ | .key, brackets, .string _ => some (.colon, brackets)
  | .colon, brackets, .colon => some (.value, brackets)
  | .afterValue, .array :: brackets, .comma => some (.value, .array :: brackets)
  | .afterValue, .object :: brackets, .comma => some (.key, .object :: brackets)
  | .afterValue, .array :: brackets, .closeArray => some (.afterValue, brackets)
  | .afterValue, .object :: brackets, .closeObject => some (.afterValue, brackets)
  | _, _, _ => none

def nests : Expected → List Bracket → List Token → Bool
  | expected, brackets, [] => expected == .afterValue && brackets.isEmpty
  | expected, brackets, token :: rest =>
      match advance expected brackets token with
      | some (expected, brackets) => nests expected brackets rest
      | none => false

def isValue (tokens : List Token) : Bool := nests .value [] tokens

def depthAfter (depth : Nat) : Token → Nat
  | .openObject | .openArray => depth + 1
  | .closeObject | .closeArray => depth - 1
  | _ => depth

def splitItems : Nat → List Token → List (List Token)
  | _, [] => [[]]
  | depth, token :: rest =>
      if depth = 0 ∧ token = .comma then [] :: splitItems 0 rest
      else
        match splitItems (depthAfter depth token) rest with
        | [] => [[token]]
        | item :: items => (token :: item) :: items

def items (inside : List Token) : List (List Token) :=
  if inside.isEmpty then [] else splitItems 0 inside

end WireTables.Json
