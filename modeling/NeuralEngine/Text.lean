/-!
# Texts

What is read from texts and written to them. A character is blank if it has the Unicode property
`White_Space`; `trim` drops the blank characters at both ends of a text. Characters beyond ASCII
count: the no-break space, the ideographic space and the line and paragraph separators are blank,
the zero-width space is not. `readNat?` reads an unsigned decimal number: ASCII digits, at least one
of them, with an optional plus sign in front. Leading zeros are read, other signs, blanks and
separators are not. Numbers are written in lower-case hexadecimal, with `0x` in front (`hex`) or
without (`hexDigits`), without leading zeros.
-/

namespace NeuralEngine.Text

/-! ## Blanks -/

/-- The code points with the property `White_Space`, as closed ranges. -/
def blankRanges : List (Nat × Nat) :=
  [(0x09, 0x0d), (0x20, 0x20), (0x85, 0x85), (0xa0, 0xa0), (0x1680, 0x1680), (0x2000, 0x200a),
   (0x2028, 0x2029), (0x202f, 0x202f), (0x205f, 0x205f), (0x3000, 0x3000)]

/-- The character is white space. -/
def isBlank (c : Char) : Bool :=
  blankRanges.any fun r => decide (r.1 ≤ c.toNat) && decide (c.toNat ≤ r.2)

theorem isBlank_iff {c : Char} : isBlank c = true ↔ ∃ r ∈ blankRanges, r.1 ≤ c.toNat ∧ c.toNat ≤ r.2 := by
  simp [isBlank]

/-- The text without the blank characters it starts with. -/
def trimStart (cs : List Char) : List Char :=
  cs.dropWhile isBlank

/-- The text without the blank characters it ends with. -/
def trimEnd (cs : List Char) : List Char :=
  (cs.reverse.dropWhile isBlank).reverse

/-- The text without the blank characters at its two ends. -/
def trim (cs : List Char) : List Char :=
  trimEnd (trimStart cs)

theorem isBlank_of_isWhitespace {c : Char} (h : c.isWhitespace = true) : isBlank c = true := by
  simp only [Char.isWhitespace, Bool.or_eq_true, decide_eq_true_eq] at h
  rcases h with ((rfl | rfl) | rfl) | rfl <;> decide

/-! ## Decimal numbers -/

/-- The number that a list of digits writes, the most significant digit first. -/
def ofDigits (ds : List Char) : Nat :=
  ds.foldl (fun n d => 10 * n + (d.toNat - '0'.toNat)) 0

/-- The number written by the digits, if there is at least one and nothing else. -/
def readDigits? (cs : List Char) : Option Nat :=
  if cs ≠ [] ∧ cs.all Char.isDigit = true then some (ofDigits cs) else none

/-- The number written by the text. -/
def readNat? : List Char → Option Nat
  | '+' :: cs => readDigits? cs
  | cs => readDigits? cs

/-! ## Hexadecimal numbers -/

/-- The lower-case hexadecimal digits of a number. -/
def hexDigits (n : Nat) : String :=
  String.ofList (Nat.toDigits 16 n)

/-- The number in hexadecimal, marked with `0x`. -/
def hex (n : Nat) : String :=
  "0x" ++ hexDigits n

end NeuralEngine.Text
