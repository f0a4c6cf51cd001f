import Ebabf.Py.Dict
import Ebabf.Py.Float

/-!
# The `json` module

`dumps` with `ensure_ascii=False` and `loads` in its strict default, over decoded text. The
recursion of the decoder into nested containers is bounded by the interpreter, so the number
of nested levels it still allows is an argument, and running past it is an error of its own.
-/

namespace Py

/-- What `json.loads` can return. -/
inductive Json
  | null
  | bool (b : Bool)
  | int (n : ℤ)
  | float (x : Float)
  | str (s : Str)
  | arr (items : List Json)
  | obj (members : List (Str × Json))

namespace Json

/-- `isinstance(value, dict)`. -/
def isObject : Json → Bool
  | .obj _ => true
  | _ => false

/-- `type(value).__name__`. -/
def typeName : Json → Str
  | .null => Py.str "NoneType"
  | .bool _ => Py.str "bool"
  | .int _ => Py.str "int"
  | .float _ => Py.str "float"
  | .str _ => Py.str "str"
  | .arr _ => Py.str "list"
  | .obj _ => Py.str "dict"

abbrev ch := CodePoint.ofChar

def hexDigit (n : ℕ) : CodePoint := ch (Nat.digitChar n)

/-- One code point inside a JSON string. -/
def escapeChar (c : CodePoint) : Str :=
  if c = ch '"' then [ch '\\', ch '"']
  else if c = ch '\\' then [ch '\\', ch '\\']
  else if c = ch '\n' then [ch '\\', ch 'n']
  else if c = ch '\r' then [ch '\\', ch 'r']
  else if c = ch '\t' then [ch '\\', ch 't']
  else if c.val = 0x08 then [ch '\\', ch 'b']
  else if c.val = 0x0C then [ch '\\', ch 'f']
  else if c.val < 0x20 then
    [ch '\\', ch 'u', ch '0', ch '0', hexDigit (c.val / 16), hexDigit (c.val % 16)]
  else [c]

def quote (s : Str) : Str := ch '"' :: s.flatMap escapeChar ++ [ch '"']

def intText (n : ℤ) : Str := if n < 0 then ch '-' :: decimal n.natAbs else decimal n.natAbs

/-- Floats print as `repr` does, the three without one as JavaScript spells them. -/
def floatText (x : Float) : Str :=
  if x.isNaN then Py.str "NaN"
  else if x.isInf then (if x < 0 then Py.str "-Infinity" else Py.str "Infinity")
  else floatRepr x

/-- The break after an opening bracket and between items: a line of its own per item when
`indent` is given, nothing (and a space after commas) otherwise. -/
def lineBreak (indent : Option ℕ) (level : ℕ) : Str :=
  match indent with
  | none => []
  | some width => ch '\n' :: List.replicate (width * level) (ch ' ')

def itemSeparator (indent : Option ℕ) (level : ℕ) : Str :=
  match indent with
  | none => Py.str ", "
  | some _ => ch ',' :: lineBreak indent level

mutual

/-- `json.dumps(value, ensure_ascii=False, indent=indent)` at nesting depth `level`. -/
def dumpsAt (indent : Option ℕ) (level : ℕ) : Json → Str
  | .null => Py.str "null"
  | .bool true => Py.str "true"
  | .bool false => Py.str "false"
  | .int n => intText n
  | .float x => floatText x
  | .str s => quote s
  | .arr [] => Py.str "[]"
  | .arr (x :: xs) =>
    ch '[' :: lineBreak indent (level + 1) ++ dumpsAt indent (level + 1) x ++
      dumpsItems indent (level + 1) xs ++ lineBreak indent level ++ [ch ']']
  | .obj [] => [ch '{', ch '}']
  | .obj ((k, v) :: ms) =>
    ch '{' :: lineBreak indent (level + 1) ++ quote k ++ Py.str ": " ++
      dumpsAt indent (level + 1) v ++ dumpsMembers indent (level + 1) ms ++
      lineBreak indent level ++ [ch '}']

def dumpsItems (indent : Option ℕ) (level : ℕ) : List Json → Str
  | [] => []
  | x :: xs => itemSeparator indent level ++ dumpsAt indent level x ++ dumpsItems indent level xs

def dumpsMembers (indent : Option ℕ) (level : ℕ) : List (Str × Json) → Str
  | [] => []
  | (k, v) :: ms =>
    itemSeparator indent level ++ quote k ++ Py.str ": " ++ dumpsAt indent level v ++
      dumpsMembers indent level ms

end

def dumps (indent : Option ℕ) (value : Json) : Str := dumpsAt indent 0 value

/-- `sys.get_int_max_str_digits()`. -/
def maxStrDigits : ℕ := 4300

mutual

/-- No integer in it has more digits than `int.__repr__` prints. -/
def printable : Json → Bool
  | .int n => (decimal n.natAbs).length ≤ maxStrDigits
  | .arr items => printableItems items
  | .obj members => printableMembers members
  | _ => true

def printableItems : List Json → Bool
  | [] => true
  | x :: xs => printable x && printableItems xs

def printableMembers : List (Str × Json) → Bool
  | [] => true
  | (_, v) :: ms => printable v && printableMembers ms

end

inductive DecodeError
  /-- `json.JSONDecodeError`, or the `ValueError` of an integer with too many digits. -/
  | invalid
  /-- Containers nested deeper than the interpreter recurses. -/
  | recursion
  /-- The model's own bound on its recursion; `loads` never reports it. -/
  | outOfFuel
deriving DecidableEq

def isSpace (c : CodePoint) : Bool := c == ch ' ' || c == ch '\t' || c == ch '\n' || c == ch '\r'

def skipSpace (s : Str) : Str := s.dropWhile isSpace

def isDigit (c : CodePoint) : Bool := 0x30 ≤ c.val && c.val ≤ 0x39

def hexValue (c : CodePoint) : Option ℕ :=
  if isDigit c then some (c.val - 0x30)
  else if 0x61 ≤ c.val ∧ c.val ≤ 0x66 then some (c.val - 0x57)
  else if 0x41 ≤ c.val ∧ c.val ≤ 0x46 then some (c.val - 0x37)
  else none

/-- The code unit four hexadecimal digits spell. -/
def hexUnit (a b c d : CodePoint) : Option ℕ := do
  return (((← hexValue a) * 16 + (← hexValue b)) * 16 + (← hexValue c)) * 16 + (← hexValue d)

def unit (n : ℕ) : CodePoint := ⟨n % 0x110000, Nat.mod_lt _ (by decide)⟩

def isHighSurrogate (n : ℕ) : Bool := 0xD800 ≤ n && n < 0xDC00

def isLowSurrogate (n : ℕ) : Bool := 0xDC00 ≤ n && n < 0xE000

def simpleEscape (c : CodePoint) : Option CodePoint :=
  if c = ch '"' ∨ c = ch '\\' ∨ c = ch '/' then some c
  else if c = ch 'b' then some (unit 0x08)
  else if c = ch 'f' then some (unit 0x0C)
  else if c = ch 'n' then some (ch '\n')
  else if c = ch 'r' then some (ch '\r')
  else if c = ch 't' then some (ch '\t')
  else none

/-- The string after an opening quote, and what follows its closing quote. -/
def scanString : Str → Option (Str × Str)
  | [] => none
  | c :: rest =>
    if c = ch '"' then some ([], rest)
    else if c = ch '\\' then
      match rest with
      | [] => none
      | e :: rest =>
        if e = ch 'u' then
          match rest with
          | h₁ :: h₂ :: h₃ :: h₄ :: rest =>
            match hexUnit h₁ h₂ h₃ h₄ with
            | none => none
            | some high =>
              match rest with
              | b :: u :: l₁ :: l₂ :: l₃ :: l₄ :: rest' =>
                match hexUnit l₁ l₂ l₃ l₄ with
                | some low =>
                  -- two adjacent escapes that form a surrogate pair are one code point
                  if b = ch '\\' ∧ u = ch 'u' ∧ isHighSurrogate high ∧ isLowSurrogate low then
                    (scanString rest').map fun p =>
                      (unit (0x10000 + (high - 0xD800) * 0x400 + (low - 0xDC00)) :: p.1, p.2)
                  else
                    (scanString (b :: u :: l₁ :: l₂ :: l₃ :: l₄ :: rest')).map fun p =>
                      (unit high :: p.1, p.2)
                | none =>
                  (scanString (b :: u :: l₁ :: l₂ :: l₃ :: l₄ :: rest')).map fun p =>
                    (unit high :: p.1, p.2)
              | short => (scanString short).map fun p => (unit high :: p.1, p.2)
          | _ => none
        else
          match simpleEscape e with
          | none => none
          | some d => (scanString rest).map fun p => (d :: p.1, p.2)
    else if c.val < 0x20 then none
    else (scanString rest).map fun p => (c :: p.1, p.2)

def digitsValue (ds : Str) : ℕ := ds.foldl (fun n c => 10 * n + (c.val - 0x30)) 0

/-- The fraction digits after a number's integer part, if any. -/
def scanFraction (s : Str) : Str × Str :=
  match s with
  | c :: d :: rest =>
    if c = ch '.' ∧ isDigit d then
      ((d :: rest).takeWhile isDigit, (d :: rest).dropWhile isDigit)
    else ([], s)
  | _ => ([], s)

/-- An exponent's optional sign: whether it is negative, and the rest. -/
def scanSign : Str → Bool × Str
  | [] => (false, [])
  | c :: rest =>
    if c = ch '-' then (true, rest)
    else if c = ch '+' then (false, rest)
    else (false, c :: rest)

/-- A number's exponent, if any. -/
def scanExponent (s : Str) : Option ℤ × Str :=
  match s with
  | [] => (none, [])
  | c :: rest =>
    let sign := scanSign rest
    let ds := sign.2.takeWhile isDigit
    if (c = ch 'e' ∨ c = ch 'E') ∧ ds ≠ [] then
      (some (if sign.1 then -(digitsValue ds : ℤ) else digitsValue ds), sign.2.dropWhile isDigit)
    else (none, s)

/-- The integer part: a single zero, or digits that do not start with one. -/
def scanInteger (s : Str) : Option (Str × Str) :=
  match s with
  | [] => none
  | c :: rest =>
    if c = ch '0' then some ([c], rest)
    else if isDigit c then some (s.takeWhile isDigit, s.dropWhile isDigit)
    else none

def scanNumber (s : Str) : Except DecodeError (Json × Str) :=
  let negative : Bool := s.head? == some (ch '-')
  match scanInteger (if negative then s.drop 1 else s) with
  | none => .error .invalid
  | some (whole, rest) =>
    let (fraction, rest) := scanFraction rest
    let (exponent, rest) := scanExponent rest
    if fraction = [] ∧ exponent = none then
      if maxStrDigits < whole.length then .error .invalid
      else .ok (.int (if negative then -(digitsValue whole : ℤ) else digitsValue whole), rest)
    else
      .ok (.float (floatOfDecimal negative (digitsValue (whole ++ fraction))
        (exponent.getD 0 - fraction.length)), rest)

/-- The constants the decoder knows besides numbers and strings. -/
def constants : List (Str × Json) :=
  [(Py.str "null", .null), (Py.str "true", .bool true), (Py.str "false", .bool false),
   (Py.str "NaN", .float (0.0 / 0.0)), (Py.str "Infinity", .float (1.0 / 0.0)),
   (Py.str "-Infinity", .float (-1.0 / 0.0))]

def scanAtom (s : Str) : Except DecodeError (Json × Str) :=
  match constants.find? fun c => c.1.isPrefixOf s with
  | some (word, value) => .ok (value, s.drop word.length)
  | none => scanNumber s

/-- `d.get(k)`. -/
def get (k : Str) (members : List (Str × Json)) : Json :=
  (members.lookup k).getD .null

mutual

/-- `scan_once`. `depth` is how many more containers the interpreter will recurse into. -/
def parseValue : (fuel depth : ℕ) → Str → Except DecodeError (Json × Str)
  | 0, _, _ => .error .outOfFuel
  | _ + 1, _, [] => .error .invalid
  | fuel + 1, depth, c :: rest =>
    if c = ch '"' then
      match scanString rest with
      | some (t, rest) => .ok (.str t, rest)
      | none => .error .invalid
    else if c = ch '{' then
      match depth with
      | 0 => .error .recursion
      | depth + 1 =>
        match skipSpace rest with
        | [] => .error .invalid
        | d :: rest =>
          if d = ch '}' then .ok (.obj [], rest)
          else (parseMembers fuel depth (d :: rest)).map fun p => (.obj (dictOf p.1), p.2)
    else if c = ch '[' then
      match depth with
      | 0 => .error .recursion
      | depth + 1 =>
        match skipSpace rest with
        | [] => .error .invalid
        | d :: rest =>
          if d = ch ']' then .ok (.arr [], rest)
          else (parseItems fuel depth (d :: rest)).map fun p => (.arr p.1, p.2)
    else scanAtom (c :: rest)

/-- The items of a non-empty array, up to and with its closing bracket. -/
def parseItems : (fuel depth : ℕ) → Str → Except DecodeError (List Json × Str)
  | 0, _, _ => .error .outOfFuel
  | fuel + 1, depth, s =>
    match parseValue fuel depth s with
    | .error e => .error e
    | .ok (v, rest) =>
      match skipSpace rest with
      | [] => .error .invalid
      | c :: rest =>
        if c = ch ']' then .ok ([v], rest)
        else if c = ch ',' then
          (parseItems fuel depth (skipSpace rest)).map fun p => (v :: p.1, p.2)
        else .error .invalid

/-- The members of a non-empty object, up to and with its closing brace. -/
def parseMembers : (fuel depth : ℕ) → Str → Except DecodeError (List (Str × Json) × Str)
  | 0, _, _ => .error .outOfFuel
  | _ + 1, _, [] => .error .invalid
  | fuel + 1, depth, c :: rest =>
    if c = ch '"' then
      match scanString rest with
      | none => .error .invalid
      | some (k, rest) =>
        match skipSpace rest with
        | [] => .error .invalid
        | c :: rest =>
          if c = ch ':' then
            match parseValue fuel depth (skipSpace rest) with
            | .error e => .error e
            | .ok (v, rest) =>
              match skipSpace rest with
              | [] => .error .invalid
              | c :: rest =>
                if c = ch '}' then .ok ([(k, v)], rest)
                else if c = ch ',' then
                  (parseMembers fuel depth (skipSpace rest)).map fun p => ((k, v) :: p.1, p.2)
                else .error .invalid
          else .error .invalid
    else .error .invalid

end

/-- `json.loads(s)` where the interpreter recurses into at most `limit` nested containers. -/
def loads (limit : ℕ) (s : Str) : Except DecodeError Json :=
  if s.head? = some (unit 0xFEFF) then .error .invalid
  else
    let body := skipSpace s
    match parseValue (2 * body.length + 1) limit body with
    | .error e => .error e
    | .ok (v, rest) => if skipSpace rest = [] then .ok v else .error .invalid

end Json
end Py
