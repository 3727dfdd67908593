import SpareNode.Foundation.Utf8Encoding

/-! # JSON texts

The grammar of RFC 8259 on UTF-8 bytes. Each relation reads the beginning of a text: it says what is read, which
value that denotes and what is left of the text. The value of a string is the UTF-8 text of its characters.
-/
namespace SpareNode

inductive Json where
  | null
  | boolean (value : Bool)
  | number (value : ℚ)
  | string (text : Bytes)
  | array (items : List Json)
  | object (members : List (Bytes × Json))

namespace Json

def isSpace (b : Byte) : Bool := b = char ' ' || b = char '\t' || b = char '\n' || b = char '\r'

def Space (s t : Bytes) : Prop := ∃ w : Bytes, w.all isSpace = true ∧ s = w ++ t

/-- The character after a backslash and what the two denote. -/
def shortEscapes : List (Byte × Byte) :=
  [(char '"',char '"'),(char '\\',char '\\'),(char '/',char '/'),(char 'b',8),(char 'f',12),(char 'n',10),
    (char 'r',13),(char 't',9)]

structure HexQuad (quad : Bytes) (value : ℕ) : Prop where
  length : quad.length = 4
  digits : quad.all (isDigit 16) = true
  value : numeral 16 quad = value

/-- One character of a string. What may stand in a string for itself is a parameter. -/
inductive Item (Raw : Bytes → Prop) : Bytes → Bytes → Bytes → Prop
  | raw {piece t : Bytes} (hpiece : Raw piece) : Item Raw (piece ++ t) piece t
  | short {letter b : Byte} {t : Bytes} (hletter : (letter,b) ∈ shortEscapes) :
      Item Raw (char '\\' :: letter :: t) [b] t
  | unit {quad t : Bytes} (v : Utf8.Scalar) (hquad : HexQuad quad v.val) :
      Item Raw (char '\\' :: char 'u' :: (quad ++ t)) (Utf8.encode v) t
  | pair {high low t : Bytes} {x y : ℕ} (v : Utf8.Scalar) (hx : x < 0x400) (hy : y < 0x400)
      (hv : v.val = 0x10000 + x * 0x400 + y) (hhigh : HexQuad high (0xD800 + x)) (hlow : HexQuad low (0xDC00 + y)) :
      Item Raw (char '\\' :: char 'u' :: (high ++ char '\\' :: char 'u' :: (low ++ t))) (Utf8.encode v) t

/-- The rest of a string from inside it, up to its closing quotation mark. -/
inductive Chars (Raw : Bytes → Prop) : Bytes → Bytes → Bytes → Prop
  | close {t : Bytes} : Chars Raw (char '"' :: t) [] t
  | cons {s u t piece text : Bytes} (hitem : Item Raw s piece u) (h : Chars Raw u text t) : Chars Raw s (piece ++ text) t

def Quoted (Raw : Bytes → Prop) (s text t : Bytes) : Prop := ∃ r, s = char '"' :: r ∧ Chars Raw r text t

/-- `unescaped`: every character but the quotation mark, the backslash and the controls. -/
def Unescaped (piece : Bytes) : Prop :=
  ∃ v : Utf8.Scalar, 0x20 ≤ v.val ∧ v.val ≠ (char '"').toNat ∧ v.val ≠ (char '\\').toNat ∧ piece = Utf8.encode v

def isDecimal (b : Byte) : Bool := isDigit 10 b

/-- `int`: no zero stands before other digits. -/
structure IntegerPart (s : Bytes) : Prop where
  nonempty : s ≠ []
  digits : s.all isDecimal = true
  leading : s.head? = some (char '0') → s = [char '0']

inductive FractionPart : Bytes → Prop
  | none : FractionPart []
  | some {digits : Bytes} (hne : digits ≠ []) (hdigits : digits.all isDecimal = true) :
      FractionPart (char '.' :: digits)

inductive ExponentPart : Bytes → Prop
  | none : ExponentPart []
  | some {e : Byte} {sign digits : Bytes} (he : e = char 'e' ∨ e = char 'E')
      (hsign : sign = [] ∨ sign = ascii "+" ∨ sign = ascii "-") (hne : digits ≠ [])
      (hdigits : digits.all isDecimal = true) : ExponentPart (e :: (sign ++ digits))

inductive Number : Bytes → Prop
  | mk {sign integer fraction exponent : Bytes} (hsign : sign = [] ∨ sign = ascii "-") (hinteger : IntegerPart integer)
      (hfraction : FractionPart fraction) (hexponent : ExponentPart exponent) :
      Number (sign ++ (integer ++ (fraction ++ exponent)))

/-- The number that digits with a decimal point and an exponent denote. -/
def unsignedValue (s : Bytes) : ℚ :=
  let integer := s.takeWhile isDecimal
  let rest := s.dropWhile isDecimal
  let fraction := if rest.head? = some (char '.') then (rest.drop 1).takeWhile isDecimal else []
  let exponent := (if rest.head? = some (char '.') then (rest.drop 1).dropWhile isDecimal else rest).drop 1
  let magnitude := numeral 10 (exponent.dropWhile (fun b => !isDecimal b))
  (numeral 10 integer + numeral 10 fraction / 10 ^ fraction.length) *
    (if exponent.head? = some (char '-') then (10 ^ magnitude)⁻¹ else 10 ^ magnitude)

def numberValue (s : Bytes) : ℚ :=
  if s.head? = some (char '-') then -unsignedValue (s.drop 1) else unsignedValue s

/-- One or more items with commas between them. -/
inductive Separated {α : Type} (Item : Bytes → α → Bytes → Prop) : Bytes → List α → Bytes → Prop
  | one {s t : Bytes} {a : α} (h : Item s a t) : Separated Item s [a] t
  | cons {s t u v w : Bytes} {a : α} {l : List α} (h : Item s a t) (hcomma : Space t (char ',' :: u)) (hnext : Space u v)
      (hrest : Separated Item v l w) : Separated Item s (a :: l) w

inductive Enclosed {α : Type} (opening closing : Byte) (Item : Bytes → α → Bytes → Prop) : Bytes → List α → Bytes → Prop
  | empty {s t : Bytes} (h : Space s (closing :: t)) : Enclosed opening closing Item (opening :: s) [] t
  | items {s t u v : Bytes} {l : List α} (hopen : Space s t) (h : Separated Item t l u)
      (hclose : Space u (closing :: v)) : Enclosed opening closing Item (opening :: s) l v

inductive Member {α : Type} (Raw : Bytes → Prop) (Value : Bytes → α → Bytes → Prop) : Bytes → Bytes × α → Bytes → Prop
  | mk {s t u v w name : Bytes} {a : α} (hname : Chars Raw s name t) (hcolon : Space t (char ':' :: u))
      (hnext : Space u v) (h : Value v a w) : Member Raw Value (char '"' :: s) (name,a) w

inductive Denotes : Bytes → Json → Bytes → Prop
  | null {t : Bytes} : Denotes (ascii "null" ++ t) .null t
  | true {t : Bytes} : Denotes (ascii "true" ++ t) (.boolean true) t
  | false {t : Bytes} : Denotes (ascii "false" ++ t) (.boolean false) t
  | number {s t : Bytes} (h : Number s) : Denotes (s ++ t) (.number (numberValue s)) t
  | string {s t text : Bytes} (h : Chars Unescaped s text t) : Denotes (char '"' :: s) (.string text) t
  | array {s t : Bytes} {items : List Json} (h : Enclosed (char '[') (char ']') Denotes s items t) :
      Denotes s (.array items) t
  | object {s t : Bytes} {members : List (Bytes × Json)}
      (h : Enclosed (char '{') (char '}') (Member Unescaped Denotes) s members t) : Denotes s (.object members) t

/-- A whole text is one value with white space around it. -/
def Text (s : Bytes) (value : Json) : Prop := ∃ t u, Space s t ∧ Denotes t value u ∧ Space u []

end Json
end SpareNode
