namespace BackupHistory.Text

/-!
# Lines of a byte stream

A line ends with a line feed, which is not part of it, nor is one carriage
return before the line feed. The last line need not end. Bytes are read as
UTF-8 one line at a time.
-/

/-- Why the text of a file is not at hand. -/
inductive ReadFailure where
  | notFound
  | invalidEncoding
  deriving Repr, DecidableEq

def lineFeed : UInt8 :=
  10

def carriageReturn : UInt8 :=
  13

/-- A line, given latest byte first, without a carriage return at its end. -/
def finishLine (reversed : List UInt8) : List UInt8 :=
  match reversed with
  | [] => []
  | last :: earlier =>
      if last = carriageReturn then
        earlier.reverse
      else
        reversed.reverse

/-- The lines of bytes that go on after the given ones, latest byte first. -/
def linesFrom (reversed : List UInt8) : List UInt8 → List (List UInt8)
  | [] => if reversed.isEmpty then [] else [reversed.reverse]
  | byte :: rest =>
      if byte = lineFeed then
        finishLine reversed :: linesFrom [] rest
      else
        linesFrom (byte :: reversed) rest

def lines (bytes : List UInt8) : List (List UInt8) :=
  linesFrom [] bytes

def decode? (bytes : List UInt8) : Option String :=
  String.fromUTF8? ⟨bytes.toArray⟩

/-- The text of a file that may be missing. -/
def readFile (file : Option (List UInt8)) : Except ReadFailure String :=
  match file with
  | none => .error .notFound
  | some bytes =>
      match decode? bytes with
      | none => .error .invalidEncoding
      | some text => .ok text

end BackupHistory.Text
