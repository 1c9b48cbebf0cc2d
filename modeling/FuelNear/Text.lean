/-
# Python's text operations, as far as the code uses them

`strip`, `split`, `in`, `upper`, `lower`, `casefold`, `int` and `UUID` on strings. Upper case
and case folding are exact wherever the result is ASCII, which is all that the
comparisons with constants in the code can see: a character whose upper case
is not ASCII is left as it is, and is not ASCII itself. Lower case is that of
every letter, since emails are compared with each other.

Key definitions: `strip`, `words`, `upper`, `lower`, `casefold`, `int?`, `uuid?`.
Key theorems: `strip_strip`, `stripped_ends`.
-/
import FuelNear.Unicode
import Mathlib.Data.List.DropRight
import Mathlib.Tactic

namespace FuelNear
namespace Text

/-- `str.isspace` of one character. -/
def isSpace (c : Char) : Bool :=
  (0x9 ≤ c.toNat && c.toNat ≤ 0xd) || (0x1c ≤ c.toNat && c.toNat ≤ 0x20) || c.toNat == 0x85 ||
    c.toNat == 0xa0 || c.toNat == 0x1680 || (0x2000 ≤ c.toNat && c.toNat ≤ 0x200a) ||
    c.toNat == 0x2028 || c.toNat == 0x2029 || c.toNat == 0x202f || c.toNat == 0x205f || c.toNat == 0x3000

def stripList (l : List Char) : List Char := (l.dropWhile isSpace).rdropWhile isSpace

/-- `s.strip()`. -/
def strip (s : String) : String := String.ofList (stripList s.toList)

/-- `s.strip() or None`. -/
def strip? (s : String) : Option String := if strip s = "" then none else some (strip s)

/-- `s.split()`. -/
def words (s : String) : List String := ((s.toList.splitOnP isSpace).filter (· ≠ [])).map String.ofList

/-- `sub in s`. -/
def hasSubstring (sub s : String) : Bool := sub.toList <:+: s.toList

/-- The upper case of one character, where it is ASCII; the ligatures give more than
one. The code compares upper-cased text with ASCII text only. -/
def upperChar (c : Char) : List Char :=
  match c.toNat with
  | 0xdf => ['S', 'S']
  | 0x131 => ['I']
  | 0x17f => ['S']
  | 0xfb00 => ['F', 'F']
  | 0xfb01 => ['F', 'I']
  | 0xfb02 => ['F', 'L']
  | 0xfb03 => ['F', 'F', 'I']
  | 0xfb04 => ['F', 'F', 'L']
  | 0xfb05 => ['S', 'T']
  | 0xfb06 => ['S', 'T']
  | _ => [c.toUpper]

/-- `s.upper()`. -/
def upper (s : String) : String := String.ofList (s.toList.flatMap upperChar)

/-- A sigma between the characters `before`, the nearest first, and `after`
ends a word: the next character that counts is cased before it, and not after. -/
def finalSigma (before after : List Char) : Bool :=
  (before.dropWhile Unicode.isCaseIgnorable).head?.any Unicode.isCased &&
    !(after.dropWhile Unicode.isCaseIgnorable).head?.any Unicode.isCased

/-- The lower case of one character; U+0130, the dotted capital i, gives two. -/
def lowerChar (before after : List Char) (c : Char) : List Char :=
  if c.toNat = 0x130 then ['i', Char.ofNat 0x307]
  else if c.toNat = 0x3a3 ∧ finalSigma before after then [Char.ofNat 0x3c2]
  else [Unicode.lowerOf c]

def lowerFrom (before : List Char) : List Char → List Char
  | [] => []
  | c :: l => lowerChar before l c ++ lowerFrom (c :: before) l

/-- `s.lower()`. -/
def lower (s : String) : String := String.ofList (lowerFrom [] s.toList)

/-- The case folding of one character, where it is ASCII; casefolded text meets
ASCII text only. -/
def foldChar (c : Char) : List Char :=
  match c.toNat with
  | 0xdf => ['s', 's']
  | 0x17f => ['s']
  | 0x1e9e => ['s', 's']
  | 0x212a => ['k']
  | 0xfb00 => ['f', 'f']
  | 0xfb01 => ['f', 'i']
  | 0xfb02 => ['f', 'l']
  | 0xfb03 => ['f', 'f', 'i']
  | 0xfb04 => ['f', 'f', 'l']
  | 0xfb05 => ['s', 't']
  | 0xfb06 => ['s', 't']
  | _ => [c.toLower]

/-- `s.casefold()`. -/
def casefold (s : String) : String := String.ofList (s.toList.flatMap foldChar)

/-- The code points of the zeros of the decimal digit sets. -/
def zeros : List ℕ :=
  [0x30, 0x660, 0x6f0, 0x7c0, 0x966, 0x9e6, 0xa66, 0xae6, 0xb66, 0xbe6, 0xc66, 0xce6, 0xd66, 0xde6, 0xe50,
    0xed0, 0xf20, 0x1040, 0x1090, 0x17e0, 0x1810, 0x1946, 0x19d0, 0x1a80, 0x1a90, 0x1b50, 0x1bb0, 0x1c40,
    0x1c50, 0xa620, 0xa8d0, 0xa900, 0xa9d0, 0xa9f0, 0xaa50, 0xabf0, 0xff10, 0x104a0, 0x10d30, 0x11066,
    0x110f0, 0x11136, 0x111d0, 0x112f0, 0x11450, 0x114d0, 0x11650, 0x116c0, 0x11730, 0x118e0, 0x11950,
    0x11c50, 0x11d50, 0x11da0, 0x16a60, 0x16ac0, 0x16b50, 0x1d7ce, 0x1d7d8, 0x1d7e2, 0x1d7ec, 0x1d7f6,
    0x1e140, 0x1e2f0, 0x1e950, 0x1fbf0]

def digit? (c : Char) : Option ℕ :=
  (zeros.find? fun z => z ≤ c.toNat && c.toNat < z + 10).map fun z => c.toNat - z

/-- The digits after the first, with single underscores between digits. -/
def digitsFrom (n : ℕ) : List Char → Option ℕ
  | [] => some n
  | '_' :: c :: l => (digit? c).bind fun d => digitsFrom (10 * n + d) l
  | c :: l => (digit? c).bind fun d => digitsFrom (10 * n + d) l

def digits : List Char → Option ℕ
  | [] => none
  | c :: l => (digit? c).bind fun d => digitsFrom d l

/-- `int(s)`; `none` is the `ValueError`, which a literal of more than 4300
digits raises too. -/
def int? (s : String) : Option ℤ :=
  if 4300 < s.toList.countP (fun c => (digit? c).isSome) then none
  else
    match stripList s.toList with
    | '+' :: l => (digits l).map Int.ofNat
    | '-' :: l => (digits l).map fun n => -Int.ofNat n
    | l => (digits l).map Int.ofNat

/-! ### UUIDs -/

def hexDigit? (c : Char) : Option ℕ :=
  if 'a' ≤ c ∧ c ≤ 'f' then some (c.toNat - 87)
  else if 'A' ≤ c ∧ c ≤ 'F' then some (c.toNat - 55)
  else digit? c

def hexDigitsFrom (n : ℕ) : List Char → Option ℕ
  | [] => some n
  | '_' :: c :: l => (hexDigit? c).bind fun d => hexDigitsFrom (16 * n + d) l
  | c :: l => (hexDigit? c).bind fun d => hexDigitsFrom (16 * n + d) l

def hexDigits : List Char → Option ℕ
  | [] => none
  | c :: l => (hexDigit? c).bind fun d => hexDigitsFrom d l

/-- The digits, after the prefix that base 16 may have. -/
def prefixedHexDigits : List Char → Option ℕ
  | '0' :: 'x' :: '_' :: l => hexDigits l
  | '0' :: 'X' :: '_' :: l => hexDigits l
  | '0' :: 'x' :: l => hexDigits l
  | '0' :: 'X' :: l => hexDigits l
  | l => hexDigits l

/-- `int(s, 16)`, where `s` has no minus sign. -/
def hexInt? (l : List Char) : Option ℕ :=
  match stripList l with
  | '+' :: l => prefixedHexDigits l
  | l => prefixedHexDigits l

/-- `s.replace(sub, "")`; the first argument counts the characters of an
occurrence that are still to be dropped. -/
def eraseAll (sub : List Char) : ℕ → List Char → List Char
  | _, [] => []
  | k + 1, _ :: l => eraseAll sub k l
  | 0, c :: l => if sub.isPrefixOf (c :: l) then eraseAll sub (sub.length - 1) l else c :: eraseAll sub 0 l

def isBrace (c : Char) : Bool := c = '\x7b' || c = '\x7d'

/-- `UUID(s)`; `none` is the `ValueError`. -/
def uuid? (s : String) : Option (BitVec 128) :=
  let hex := eraseAll "uuid:".toList 0 (eraseAll "urn:".toList 0 s.toList)
  let hex := eraseAll ['-'] 0 ((hex.dropWhile isBrace).rdropWhile isBrace)
  if hex.length = 32 then (hexInt? hex).map (BitVec.ofNat 128) else none

theorem stripList_stripList (l : List Char) : stripList (stripList l) = stripList l := by
  unfold stripList
  set m := (l.dropWhile isSpace).rdropWhile isSpace with hm
  have hl : m.dropWhile isSpace = m := by
    rw [List.dropWhile_eq_self_iff]
    intro hpos
    have hpre : m <+: l.dropWhile isSpace := List.rdropWhile_prefix _ _
    have hne : l.dropWhile isSpace ≠ [] := fun h0 => by
      rw [h0] at hpre
      have := hpre.length_le
      simp at this
      simp [this] at hpos
    have hl0 : 0 < (l.dropWhile isSpace).length := List.length_pos_iff.mpr hne
    have h0 : m[0] = (l.dropWhile isSpace)[0] := hpre.getElem hpos
    rw [h0]
    simpa using List.dropWhile_get_zero_not isSpace l (List.length_pos_iff.mpr hne)
  rw [hl]
  exact List.rdropWhile_idempotent _ _

theorem strip_strip (s : String) : strip (strip s) = strip s := by
  simp [strip, stripList_stripList]

/-- What strips to itself neither starts nor ends with a space. -/
theorem stripped_ends {s : String} (h : strip s = s) (c : Char) :
    (s.toList.head? = some c → isSpace c = false) ∧ (s.toList.getLast? = some c → isSpace c = false) := by
  have hlist : stripList s.toList = s.toList := by
    have := congrArg String.toList h
    rwa [strip, String.toList_ofList] at this
  generalize s.toList = l at hlist
  have hprefix : l <+: l.dropWhile isSpace := by
    conv_lhs => rw [← hlist]
    exact List.rdropWhile_prefix _ _
  have hdrop : l.dropWhile isSpace = l :=
    (List.dropWhile_suffix isSpace).eq_of_length_le hprefix.length_le
  have hrdrop : l.rdropWhile isSpace = l := by
    rw [stripList, hdrop] at hlist
    exact hlist
  constructor
  · intro hhead
    cases l with
    | nil => exact absurd hhead (by simp)
    | cons d l =>
      obtain rfl : d = c := by simpa using hhead
      have hfirst := List.dropWhile_eq_self_iff.mp hdrop (List.length_pos_iff.mpr (List.cons_ne_nil d l))
      rw [List.getElem_cons_zero] at hfirst
      simpa using hfirst
  · intro hlast
    have hne : l ≠ [] := fun h0 => by simp [h0] at hlast
    rw [List.getLast?_eq_some_getLast hne] at hlast
    have hend := List.rdropWhile_eq_self_iff.mp hrdrop hne
    rw [Option.some.inj hlast] at hend
    simpa using hend

example : strip " MB.FuelNear.plus.monthly\n" = "MB.FuelNear.plus.monthly" := by decide
example : int? " +1_4 " = some 14 := by decide
example : lower "ÉVA ΣΑΣ Σ.IT" = "éva σας σ.it" := by decide +kernel

end Text
end FuelNear
