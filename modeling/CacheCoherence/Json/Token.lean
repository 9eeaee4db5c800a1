import CacheCoherence.Json.Basic
import CacheCoherence.Text.Numeral

/-!
# JSON tokens — from characters to words

A text is cut into punctuation, strings, and words: runs of other characters, each
of which must be a literal or a number. The characters are taken one at a time;
what has been begun is kept in a `Lexer`.
-/

namespace CacheCoherence.Json

/-- The smallest parts of a JSON text. -/
inductive Token where
  | openArray
  | closeArray
  | openObject
  | closeObject
  | comma
  | colon
  | string (s : JsonText)
  /-- A literal or a number. -/
  | scalar (v : Json)

/-! ## Strings -/

/-- A piece of a string: a character, or a UTF-16 code unit given by an escape. -/
inductive Piece where
  | char (c : Char)
  | unit (n : Nat)

/-- The text of the pieces of a string; a code unit of a surrogate pair must be
followed or preceded by its partner. -/
def Piece.texts : List Piece → Option (List Char)
  | [] => some []
  | .char c :: rest => (texts rest).map (c :: ·)
  | .unit n :: rest =>
      if n < 0xd800 ∨ 0xdfff < n then (texts rest).map (Char.ofNat n :: ·)
      else
        match rest with
        | .unit m :: rest =>
            if n < 0xdc00 ∧ 0xdc00 ≤ m ∧ m ≤ 0xdfff then
              (texts rest).map
                (Char.ofNat (0x10000 + (n - 0xd800) * 0x400 + (m - 0xdc00)) :: ·)
            else none
        | _ => none

/-- The character that an escape of one letter stands for. -/
def escaped? : Char → Option Char
  | '"' => some '"'
  | '\\' => some '\\'
  | '/' => some '/'
  | 'b' => some '\x08'
  | 'f' => some '\x0c'
  | 'n' => some '\n'
  | 'r' => some '\r'
  | 't' => some '\t'
  | _ => none

/-! ## Words -/

/-- The digits at the start of a word and what follows them. -/
def digits (cs : List Char) : List Char × List Char := cs.span Char.isDigit

/-- Whether a text is an exponent, or nothing. -/
def isExponent : List Char → Bool
  | [] => true
  | e :: rest =>
      (e == 'e' || e == 'E') &&
        let unsigned := match rest with
          | '+' :: ds | '-' :: ds => ds
          | ds => ds
        !unsigned.isEmpty && unsigned.all Char.isDigit

/-- Whether a text is a fraction, an exponent, both in this order, or nothing. -/
def isFractionExponent : List Char → Bool
  | '.' :: rest =>
      let (ds, rest) := digits rest
      !ds.isEmpty && isExponent rest
  | cs => isExponent cs

/-- The number without a sign that a word denotes. A number of several digits does
not start with a zero. -/
def unsigned? (cs : List Char) : Option Json :=
  let (ds, rest) := digits cs
  if ds.isEmpty || (ds.head? == some '0' && ds.length != 1) || !isFractionExponent rest then none
  else if rest.isEmpty then some (nat (Nat.ofDigitChars 10 ds 0))
  else some otherNumber

/-- The literal or number that a word denotes. -/
def word (cs : List Char) : Option Json :=
  if cs = "null".toList then some null
  else if cs = "true".toList then some (bool true)
  else if cs = "false".toList then some (bool false)
  else
    match cs with
    | '-' :: rest => (unsigned? rest).map fun _ => otherNumber
    | _ => unsigned? cs

/-! ## The lexer -/

/-- What the characters read last belong to. Characters and pieces are kept in
reverse. -/
inductive Mode where
  /-- To nothing that goes on. -/
  | between
  | word (chars : List Char)
  | string (pieces : List Piece)
  /-- To a string, just after a backslash. -/
  | escape (pieces : List Piece)
  /-- To an escape in a string that lacks `left` more hexadecimal digits. -/
  | unit (pieces : List Piece) (value left : Nat)

/-- What has been read of a text: the finished tokens in reverse, and what was
begun. -/
structure Lexer where
  tokens : List Token := []
  mode : Mode := .between

/-- The token of a character that stands for itself. -/
def punctuation? : Char → Option Token
  | '[' => some .openArray
  | ']' => some .closeArray
  | '\x7b' => some .openObject
  | '\x7d' => some .closeObject
  | ',' => some .comma
  | ':' => some .colon
  | _ => none

/-- The characters between tokens. -/
def isSpace (c : Char) : Bool := c == ' ' || c == '\n' || c == '\t' || c == '\r'

namespace Lexer

/-- Ends the word that was begun, if one was. A string or an escape may not end
here. -/
def finishWord (l : Lexer) : Option Lexer :=
  match l.mode with
  | .between => some l
  | .word chars => (Json.word chars.reverse).map fun v => { tokens := .scalar v :: l.tokens }
  | _ => none

/-- Takes a character outside of strings. -/
def outside (l : Lexer) (c : Char) : Option Lexer :=
  if isSpace c then l.finishWord
  else if c = '"' then l.finishWord.map fun l => { l with mode := .string [] }
  else
    match punctuation? c with
    | some t => l.finishWord.map fun l => { l with tokens := t :: l.tokens }
    | none =>
        match l.mode with
        | .word chars => some { l with mode := .word (c :: chars) }
        | _ => some { l with mode := .word [c] }

/-- Takes one character. -/
def push (l : Lexer) (c : Char) : Option Lexer :=
  match l.mode with
  | .string pieces =>
      if c = '"' then
        let text := (Piece.texts pieces.reverse).map String.ofList
        some { tokens := .string text :: l.tokens }
      else if c = '\\' then some { l with mode := .escape pieces }
      else if c < ' ' then none
      else some { l with mode := .string (.char c :: pieces) }
  | .escape pieces =>
      if c = 'u' then some { l with mode := .unit pieces 0 4 }
      else (escaped? c).map fun d => { l with mode := .string (.char d :: pieces) }
  | .unit pieces value left =>
      (Text.digit? 16 c).map fun d =>
        let value := value * 16 + d
        if left ≤ 1 then { l with mode := .string (.unit value :: pieces) }
        else { l with mode := .unit pieces value (left - 1) }
  | .between | .word _ => l.outside c

end Lexer

/-- The tokens of a text. -/
def tokens? (cs : List Char) : Option (List Token) := do
  let l ← cs.foldlM Lexer.push {}
  let l ← l.finishWord
  return l.tokens.reverse

end CacheCoherence.Json
