import Mathlib

/-!
# JSON text

What Python's `json` writes with compact separators, and what it reads. Numbers are integers; a float stands as the literal
that was read, and nothing here writes one. A string may hold a lone surrogate, which an escape can bring into it.
-/

/-- A character of a Python string: any code point. -/
abbrev CodePoint := Fin 0x110000

namespace CodePoint

theorem toNat_lt (c : Char) : c.toNat < 0x110000 := by
  rcases c.valid with h | ⟨_, h⟩
  · exact h.trans (by decide)
  · exact h

def ofChar (c : Char) : CodePoint := ⟨c.toNat, toNat_lt c⟩

def High (c : CodePoint) : Prop := 0xD800 ≤ c.val ∧ c.val < 0xDC00

def Low (c : CodePoint) : Prop := 0xDC00 ≤ c.val ∧ c.val < 0xE000

instance (c : CodePoint) : Decidable c.High := inferInstanceAs (Decidable (_ ∧ _))

instance (c : CodePoint) : Decidable c.Low := inferInstanceAs (Decidable (_ ∧ _))

/-- The code units of UTF-16. -/
def units (c : CodePoint) : List CodePoint :=
  if c.val < 0x10000 then [c]
  else [⟨0xD800 + (c.val - 0x10000) / 0x400, by have := c.isLt; omega⟩, ⟨0xDC00 + (c.val - 0x10000) % 0x400, by omega⟩]

/-- Two surrogates that follow each other are one character. -/
def join : List CodePoint → List CodePoint
  | a :: b :: s =>
      if h : a.High ∧ b.Low then
        ⟨0x10000 + (a.val - 0xD800) * 0x400 + (b.val - 0xDC00), by obtain ⟨⟨_, _⟩, _, _⟩ := h; omega⟩ :: join s
      else a :: join (b :: s)
  | s => s

/-- No surrogates that follow each other: `join` has nothing to do. -/
def Joined (s : List CodePoint) : Prop := s.IsChain fun a b => ¬ (a.High ∧ b.Low)

end CodePoint

/-- A value. The pairs of an object are in the order of the dictionary. -/
inductive Json where
  | null
  | bool (b : Bool)
  | int (i : Int)
  | float (literal : List Char)
  | str (s : List CodePoint)
  | arr (items : List Json)
  | obj (pairs : List (List CodePoint × Json))

namespace Json

/-- `sys.get_int_max_str_digits()`: a longer integer is neither written nor read. -/
def maxDigits : Nat := 4300

/-! ## Writing -/

/-- A backslash, `u` and four digits. -/
def escapeUnit (n : Nat) : List Char :=
  ['\\', 'u', (n / 4096 % 16).digitChar, (n / 256 % 16).digitChar, (n / 16 % 16).digitChar, (n % 16).digitChar]

/-- A character within a string: everything that is not printable ASCII is escaped. -/
def escape (c : CodePoint) : List Char :=
  if c = 0x22 then ['\\', '"']
  else if c = 0x5C then ['\\', '\\']
  else if c = 0x0A then ['\\', 'n']
  else if c = 0x0D then ['\\', 'r']
  else if c = 0x09 then ['\\', 't']
  else if c = 0x0C then ['\\', 'f']
  else if c = 0x08 then ['\\', 'b']
  else if 0x20 ≤ c.val ∧ c.val ≤ 0x7E then [Char.ofNat c.val]
  else c.units.flatMap fun unit => escapeUnit unit.val

def dumpString (s : List CodePoint) : List Char := '"' :: s.flatMap escape ++ ['"']

def dumpInt (i : Int) : List Char := (if i < 0 then ['-'] else []) ++ Nat.toDigits 10 i.natAbs

mutual
/-- `json.dumps(v, separators=(",", ":"))`. -/
def dumps : Json → List Char
  | .null => ['n', 'u', 'l', 'l']
  | .bool true => ['t', 'r', 'u', 'e']
  | .bool false => ['f', 'a', 'l', 's', 'e']
  | .int i => dumpInt i
  | .float literal => literal
  | .str s => dumpString s
  | .arr [] => ['[', ']']
  | .arr (v :: vs) => '[' :: dumps v ++ dumpItems vs
  | .obj [] => ['{', '}']
  | .obj ((k, v) :: ps) => '{' :: dumpString k ++ ':' :: dumps v ++ dumpPairs ps

/-- The rest of an array. -/
def dumpItems : List Json → List Char
  | [] => [']']
  | v :: vs => ',' :: dumps v ++ dumpItems vs

/-- The rest of an object. -/
def dumpPairs : List (List CodePoint × Json) → List Char
  | [] => ['}']
  | (k, v) :: ps => ',' :: dumpString k ++ ':' :: dumps v ++ dumpPairs ps
end

/-! ## Reading -/

/-- Spaces, tabs and line breaks are skipped. -/
def skip (text : List Char) : List Char := text.dropWhile fun c => c = ' ' ∨ c = '\t' ∨ c = '\n' ∨ c = '\r'

def hexValue (c : Char) : Option Nat :=
  if '0' ≤ c ∧ c ≤ '9' then some (c.toNat - 48)
  else if 'a' ≤ c ∧ c ≤ 'f' then some (c.toNat - 87)
  else if 'A' ≤ c ∧ c ≤ 'F' then some (c.toNat - 55)
  else none

/-- The code unit of four digits. -/
def hexUnit (a b c d : Char) : Option CodePoint := do
  let a ← hexValue a
  let b ← hexValue b
  let c ← hexValue c
  let d ← hexValue d
  let n := ((a * 16 + b) * 16 + c) * 16 + d
  if h : n < 0x110000 then some ⟨n, h⟩ else none

/-- The character of an escape of one letter. -/
def shortEscape (c : Char) : Option CodePoint :=
  if c = '"' then some 0x22
  else if c = '\\' then some 0x5C
  else if c = '/' then some 0x2F
  else if c = 'b' then some 0x08
  else if c = 'f' then some 0x0C
  else if c = 'n' then some 0x0A
  else if c = 'r' then some 0x0D
  else if c = 't' then some 0x09
  else none

/-- The code units of a string up to its closing quote, and the text behind that. -/
def scanUnits : List Char → Option (List CodePoint × List Char)
  | [] => none
  | c :: rest =>
      if c = '"' then some ([], rest)
      else if c = '\\' then
        match rest with
        | 'u' :: a :: b :: c :: d :: rest =>
            (hexUnit a b c d).bind fun unit => (scanUnits rest).map fun r => (unit :: r.1, r.2)
        | e :: rest => (shortEscape e).bind fun unit => (scanUnits rest).map fun r => (unit :: r.1, r.2)
        | [] => none
      else if c.toNat < 0x20 then none
      else (scanUnits rest).map fun r => (CodePoint.ofChar c :: r.1, r.2)

/-- `scanstring`, behind the opening quote. -/
def scanString (text : List Char) : Option (List CodePoint × List Char) :=
  (scanUnits text).map fun r => (CodePoint.join r.1, r.2)

/-- The digits of an integer. A leading zero stands alone. -/
def scanDigits : List Char → Option (List Char × List Char)
  | [] => none
  | c :: rest =>
      if c = '0' then some ([c], rest)
      else if c.isDigit then some (c :: rest.takeWhile Char.isDigit, rest.dropWhile Char.isDigit)
      else none

/-- One digit or more. -/
def scanMore (text : List Char) : Option (List Char × List Char) :=
  if text.takeWhile Char.isDigit = [] then none else some (text.takeWhile Char.isDigit, text.dropWhile Char.isDigit)

def scanFraction : List Char → Option (List Char × List Char)
  | '.' :: rest => (scanMore rest).map fun r => ('.' :: r.1, r.2)
  | _ => none

def scanExponent : List Char → Option (List Char × List Char)
  | e :: rest =>
      if e = 'e' ∨ e = 'E' then
        match rest with
        | '+' :: rest => (scanMore rest).map fun r => (e :: '+' :: r.1, r.2)
        | '-' :: rest => (scanMore rest).map fun r => (e :: '-' :: r.1, r.2)
        | rest => (scanMore rest).map fun r => (e :: r.1, r.2)
      else none
  | [] => none

/-- A number behind its sign. -/
def scanUnsigned (negative : Bool) (text : List Char) : Option (Json × List Char) :=
  (scanDigits text).bind fun digits =>
    let fraction := (scanFraction digits.2).getD ([], digits.2)
    let exponent := (scanExponent fraction.2).getD ([], fraction.2)
    if fraction.1 = [] ∧ exponent.1 = [] then
      if maxDigits < digits.1.length then none
      else
        let n : Int := Nat.ofDigitChars 10 digits.1 0
        some (.int (if negative then -n else n), digits.2)
    else some (.float ((if negative then ['-'] else []) ++ digits.1 ++ fraction.1 ++ exponent.1), exponent.2)

def scanNumber : List Char → Option (Json × List Char)
  | '-' :: rest => scanUnsigned true rest
  | text => scanUnsigned false text

/-- A value without brackets. -/
def scanFlat : List Char → Option (Json × List Char)
  | '"' :: rest => (scanString rest).map fun r => (.str r.1, r.2)
  | 'n' :: 'u' :: 'l' :: 'l' :: rest => some (.null, rest)
  | 't' :: 'r' :: 'u' :: 'e' :: rest => some (.bool true, rest)
  | 'f' :: 'a' :: 'l' :: 's' :: 'e' :: rest => some (.bool false, rest)
  | 'N' :: 'a' :: 'N' :: rest => some (.float "NaN".toList, rest)
  | 'I' :: 'n' :: 'f' :: 'i' :: 'n' :: 'i' :: 't' :: 'y' :: rest => some (.float "Infinity".toList, rest)
  | '-' :: 'I' :: 'n' :: 'f' :: 'i' :: 'n' :: 'i' :: 't' :: 'y' :: rest => some (.float "-Infinity".toList, rest)
  | text => scanNumber text

/-- Behind an item comes a comma, and then more, or the closing bracket. -/
def behind {β : Type} (close : Char) (more last : List Char → Option β) (text : List Char) : Option β :=
  match skip text with
  | [] => none
  | c :: rest => if c = ',' then more (skip rest) else if c = close then last rest else none

/-- The items of an array, from the first one on. There are no more of them than `fuel`. -/
def scanItems (scan : List Char → Option (Json × List Char)) : Nat → List Char → Option (List Json × List Char)
  | 0, _ => none
  | fuel + 1, text =>
      (scan text).bind fun v =>
        behind ']' (fun rest => (scanItems scan fuel rest).map fun vs => (v.1 :: vs.1, vs.2))
          (fun rest => some ([v.1], rest)) v.2

/-- The pairs of an object, from the first one on. -/
def scanPairs (scan : List Char → Option (Json × List Char)) :
    Nat → List Char → Option (List (List CodePoint × Json) × List Char)
  | fuel + 1, '"' :: text =>
      (scanString text).bind fun k =>
        match skip k.2 with
        | ':' :: rest =>
            (scan (skip rest)).bind fun v =>
              behind '}' (fun rest => (scanPairs scan fuel rest).map fun ps => ((k.1, v.1) :: ps.1, ps.2))
                (fun rest => some ([(k.1, v.1)], rest)) v.2
        | _ => none
  | _, _ => none

/-- `d[k] = v`. -/
def assign (k : List CodePoint) (v : Json) : List (List CodePoint × Json) → List (List CodePoint × Json)
  | [] => [(k, v)]
  | p :: d => if p.1 = k then (k, v) :: d else p :: assign k v d

/-- The dictionary of the pairs: the last value of a key counts. -/
def dict (pairs : List (List CodePoint × Json)) : List (List CodePoint × Json) :=
  pairs.foldl (fun d p => assign p.1 p.2 d) []

/-- `scan_once`. It raises for brackets that are more than `depth` deep, the limit of the recursion. -/
def scan : Nat → List Char → Option (Json × List Char)
  | depth + 1, '[' :: rest =>
      match skip rest with
      | ']' :: rest => some (.arr [], rest)
      | rest => (scanItems (scan depth) rest.length rest).map fun r => (.arr r.1, r.2)
  | depth + 1, '{' :: rest =>
      match skip rest with
      | '}' :: rest => some (.obj [], rest)
      | rest => (scanPairs (scan depth) rest.length rest).map fun r => (.obj (dict r.1), r.2)
  | _, text => scanFlat text

/-- `json.loads(text)`; `none` when it raises. -/
def loads (depth : Nat) (text : List Char) : Option Json :=
  if text.head? = some '\uFEFF' then none
  else (scan depth (skip text)).bind fun r => if skip r.2 = [] then some r.1 else none

/-- `obj.get(key)` of an object. -/
def get (key : List CodePoint) (pairs : List (List CodePoint × Json)) : Option Json :=
  (pairs.find? fun p => p.1 = key).map Prod.snd

/-! ## Values that can be written -/

mutual
/-- How deep the brackets are. -/
def depth : Json → Nat
  | .arr vs => depthItems vs + 1
  | .obj ps => depthPairs ps + 1
  | _ => 0

def depthItems : List Json → Nat
  | [] => 0
  | v :: vs => max (depth v) (depthItems vs)

def depthPairs : List (List CodePoint × Json) → Nat
  | [] => 0
  | (_, v) :: ps => max (depth v) (depthPairs ps)
end

mutual
/-- No floats, no integer of too many digits, no surrogates that an escape would join, and the keys of a dictionary. -/
def Plain : Json → Prop
  | .null | .bool _ => True
  | .int i => (Nat.toDigits 10 i.natAbs).length ≤ maxDigits
  | .float _ => False
  | .str s => CodePoint.Joined s
  | .arr vs => PlainItems vs
  | .obj ps => (ps.map Prod.fst).Nodup ∧ PlainPairs ps

def PlainItems : List Json → Prop
  | [] => True
  | v :: vs => Plain v ∧ PlainItems vs

def PlainPairs : List (List CodePoint × Json) → Prop
  | [] => True
  | (k, v) :: ps => CodePoint.Joined k ∧ Plain v ∧ PlainPairs ps
end

end Json
