/-!
# Blank characters and the pieces of a line

Source text is a list of characters. What separates words is the white space of Unicode, no more
and no less: a zero-width space or a byte-order mark is an ordinary character. On top of that
class this module cuts a text into the pieces that statements are made of.

## Main definitions

* `isBlank`: the characters with the property `White_Space`.
* `trim`: a text without the blanks at its ends.
* `splitFirst?`: a text cut at the first character of a class, which is dropped.
* `splitEach`: a text cut at every occurrence of a character.
* `afterStart?`, `beforeEnd?`: a text without a given start or end.

## Main results

* `isBlank_of_isWhitespace`: the ASCII blanks are blank.
-/

namespace TileCore

/-- Source text, character by character. -/
abbrev Text := List Char

namespace Text

/-- The first and last code points of every range of `White_Space`. -/
def blankRanges : List (Nat × Nat) :=
  [(0x09, 0x0D), (0x20, 0x20), (0x85, 0x85), (0xA0, 0xA0), (0x1680, 0x1680), (0x2000, 0x200A),
    (0x2028, 0x2029), (0x202F, 0x202F), (0x205F, 0x205F), (0x3000, 0x3000)]

/-- Whether a character is white space. -/
def isBlank (c : Char) : Bool := blankRanges.any fun r => r.1 ≤ c.toNat && c.toNat ≤ r.2

theorem isBlank_of_isWhitespace {c : Char} (h : c.isWhitespace = true) : isBlank c = true := by
  simp only [Char.isWhitespace, Bool.or_eq_true, decide_eq_true_eq] at h
  rcases h with ((rfl | rfl) | rfl) | rfl <;> decide

/-- A text without leading blanks. -/
def trimLeft (s : Text) : Text := s.dropWhile isBlank

/-- A text without trailing blanks. -/
def trimRight (s : Text) : Text := (s.reverse.dropWhile isBlank).reverse

/-- A text without the blanks at its ends. -/
def trim (s : Text) : Text := trimRight (trimLeft s)

/-- The text before the first character of the class and the text behind that character, if the
text has one. -/
def splitFirst? (p : Char → Bool) (s : Text) : Option (Text × Text) :=
  match s.dropWhile fun c => !p c with
  | [] => none
  | _ :: rest => some (s.takeWhile fun c => !p c, rest)

/-- The pieces between the occurrences of `sep`; a text without one is a single piece. -/
def splitEach (sep : Char) : Text → List Text
  | [] => [[]]
  | c :: s =>
    if c = sep then [] :: splitEach sep s
    else
      match splitEach sep s with
      | [] => [[c]]
      | piece :: pieces => (c :: piece) :: pieces

/-- The text behind `start`, if the text begins with it. -/
def afterStart? (start : Text) (s : Text) : Option Text :=
  if start.isPrefixOf s then some (s.drop start.length) else none

/-- The text before `final`, if the text ends with it. -/
def beforeEnd? (final : Text) (s : Text) : Option Text :=
  if final.isSuffixOf s then some (s.take (s.length - final.length)) else none

end Text

end TileCore
