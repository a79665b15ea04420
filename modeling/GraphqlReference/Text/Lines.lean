namespace GraphqlReference.Text

/-- The Unicode property White_Space. It holds neither of the information separators
U+001C to U+001F nor of the zero-width characters U+180E, U+200B and U+FEFF. -/
def isBlank (c : Char) : Bool :=
  let code := c.toNat
  (0x09 ≤ code && code ≤ 0x0D) || code == 0x20 || code == 0x85 || code == 0xA0 ||
    code == 0x1680 || (0x2000 ≤ code && code ≤ 0x200A) || code == 0x2028 || code == 0x2029 ||
    code == 0x202F || code == 0x205F || code == 0x3000

/-- The Unicode general category Cc. -/
def isControl (c : Char) : Bool :=
  let code := c.toNat
  code ≤ 0x1F || (0x7F ≤ code && code ≤ 0x9F)

/-- Everything but the longest blank suffix. -/
def trimEnd : List Char → List Char
  | [] => []
  | c :: rest =>
    match trimEnd rest with
    | [] => if isBlank c then [] else [c]
    | kept => c :: kept

/-- The maximal runs of characters that are not blank. -/
def words : List Char → List (List Char)
  | [] => []
  | c :: rest =>
    if isBlank c then words rest
    else
      match rest with
      | [] => [[c]]
      | next :: _ =>
        if isBlank next then [c] :: words rest
        else
          match words rest with
          | [] => [[c]]
          | word :: more => (c :: word) :: more

/-- The pieces between line feeds; one more piece than there are line feeds. -/
def lineFeedPieces : List Char → List (List Char)
  | [] => [[]]
  | c :: rest =>
    if c = '\n' then [] :: lineFeedPieces rest
    else
      match lineFeedPieces rest with
      | [] => [[c]]
      | piece :: more => (c :: piece) :: more

/-- A piece without the carriage return that may end it. -/
def dropFinalReturn (piece : List Char) : List Char :=
  match piece.getLast? with
  | some '\r' => piece.dropLast
  | _ => piece

/-- Lines ended by LF or CRLF; a carriage return elsewhere belongs to its line, and an empty last
piece is no line. -/
def lines (text : List Char) : List (List Char) :=
  let pieces := lineFeedPieces text
  let ended := pieces.dropLast.map dropFinalReturn
  match pieces.getLast? with
  | none | some [] => ended
  | some last => ended ++ [last]

/-- The pieces between line terminators, which are LF, CRLF and CR. -/
def terminatedPieces : List Char → List (List Char)
  | [] => [[]]
  | '\r' :: '\n' :: rest => [] :: terminatedPieces rest
  | c :: rest =>
    if c = '\n' ∨ c = '\r' then [] :: terminatedPieces rest
    else
      match terminatedPieces rest with
      | [] => [[c]]
      | piece :: more => (c :: piece) :: more

end GraphqlReference.Text
