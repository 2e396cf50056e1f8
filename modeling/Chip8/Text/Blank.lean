namespace Chip8.Text

-- White space of any script, with the four information separators.
def isBlank (c : Char) : Bool :=
  let n := c.toNat
  (0x09 ≤ n && n ≤ 0x0d) || (0x1c ≤ n && n ≤ 0x20) || n == 0x85 || n == 0xa0 || n == 0x1680 ||
    (0x2000 ≤ n && n ≤ 0x200a) || n == 0x2028 || n == 0x2029 || n == 0x202f || n == 0x205f ||
    n == 0x3000

-- A character that ends a line. A carriage return and the line feed after it end one line only.
def isBoundary (c : Char) : Bool :=
  let n := c.toNat
  (0x0a ≤ n && n ≤ 0x0d) || (0x1c ≤ n && n ≤ 0x1e) || n == 0x85 || n == 0x2028 || n == 0x2029

-- A boundary is blank, so cutting a text into lines first leaves its words as they are.
theorem isBlank_of_isBoundary {c : Char} (h : isBoundary c = true) : isBlank c = true := by
  simp [isBoundary, isBlank] at h ⊢
  omega

-- The lines of a text without their boundaries. A boundary at the end begins no further line.
def lines : List Char → List (List Char)
  | [] => []
  | '\r' :: '\n' :: rest => [] :: lines rest
  | c :: rest =>
    if isBoundary c then [] :: lines rest
    else match lines rest with
      | [] => [[c]]
      | line :: more => (c :: line) :: more

-- The words of a text: its longest runs without a blank.
def words (text : List Char) : List (List Char) :=
  (text.splitOnP isBlank).filter (!·.isEmpty)

-- What is left of a line when a comment, begun by `mark`, is dropped.
def beforeMark (mark : Char) (line : List Char) : List Char :=
  line.takeWhile (· != mark)

end Chip8.Text
