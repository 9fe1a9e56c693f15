import TdsAdmin.Lib.Text

/-!
# The JSON texts the scripts write

Flat objects whose values are strings, lists of strings or `null`, printed on one line with no
white space. `escapeChar` is the standard escaping: `"`, `\` and the control characters, and
nothing else.
-/

set_option autoImplicit false

namespace TdsAdmin
namespace Json

inductive Value where
  | null
  | string (s : Text)
  | strings (l : List Text)
  deriving DecidableEq, Repr

/-- An undefined scalar is `null`. -/
def ofScalar : Option Text → Value
  | none => .null
  | some s => .string s

def hexDigit (n : Nat) : Char := if n < 10 then Char.ofNat (48 + n) else Char.ofNat (87 + n)

def escapeChar (c : Char) : Text :=
  if c = '"' then ['\\', '"']
  else if c = '\\' then ['\\', '\\']
  else if c = '\n' then ['\\', 'n']
  else if c = '\r' then ['\\', 'r']
  else if c = '\t' then ['\\', 't']
  else if c = '\x08' then ['\\', 'b']
  else if c = '\x0c' then ['\\', 'f']
  else if c.toNat < 32 then
    ['\\', 'u', '0', '0', hexDigit (c.toNat / 16), hexDigit (c.toNat % 16)]
  else [c]

def escape (s : Text) : Text := s.flatMap escapeChar

def quote (s : Text) : Text := '"' :: (escape s ++ ['"'])

def list (l : List Text) : Text := '[' :: ([','].intercalate (l.map quote) ++ [']'])

def render : Value → Text
  | .null => ['n', 'u', 'l', 'l']
  | .string s => quote s
  | .strings l => list l

/-- The strings a value holds. -/
def Value.texts : Value → List Text
  | .null => []
  | .string s => [s]
  | .strings l => l

def member (f : Text × Value) : Text := quote f.1 ++ ':' :: render f.2

def object (fields : List (Text × Value)) : Text :=
  '{' :: ([','].intercalate (fields.map member) ++ ['}'])

end Json
end TdsAdmin
