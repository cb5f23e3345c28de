namespace Abacus.Text

/-- A line feed, a carriage return, or the two together end a line, and nothing else does. -/
def lines : List Char → List (List Char)
  | [] => []
  | '\r' :: '\n' :: rest => [] :: lines rest
  | c :: rest =>
      if c = '\n' ∨ c = '\r' then
        [] :: lines rest
      else
        match lines rest with
        | [] => [[c]]
        | line :: others => (c :: line) :: others

end Abacus.Text
