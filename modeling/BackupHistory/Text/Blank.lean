namespace BackupHistory.Text

/-!
# Blank characters

The characters of the Unicode property `White_Space`, and text without the
blanks at its ends.
-/

/-- Whether a character has the Unicode property `White_Space`. -/
def isBlank (character : Char) : Bool :=
  let code := character.toNat
  (0x09 ≤ code && code ≤ 0x0D) || code == 0x20 || code == 0x85 ||
    code == 0xA0 || code == 0x1680 ||
    (0x2000 ≤ code && code ≤ 0x200A) || code == 0x2028 ||
    code == 0x2029 || code == 0x202F || code == 0x205F || code == 0x3000

/-- Text without the blanks that it starts with. -/
def dropBlanks (text : List Char) : List Char :=
  text.dropWhile isBlank

/-- Whether a text holds nothing but blanks. -/
def isAllBlank (text : List Char) : Bool :=
  text.all isBlank

end BackupHistory.Text
