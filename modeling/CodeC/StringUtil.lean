import CodeC.Library.Loop
import CodeC.Library.Occurrence

/-!
# Strings: `util/string.hpp`

Strings are lists of characters, with lengths and positions that are natural numbers without a
bound.
-/

namespace CodeC.StringUtil
open Library

/-- `str.replace(pos, len, value)` -/
def replace (str : List Char) (pos len : ℕ) (value : List Char) : List Char :=
  str.take pos ++ value ++ str.drop (pos + len)

/-- A round of the loop: `str.find(old_value)` starts at the beginning of the string. -/
def replaceRound (oldValue newValue str : List Char) : Round (List Char) (List Char) :=
  match findFrom str oldValue 0 with
  | some pos => .again (replace str pos oldValue.length newValue)
  | none => .leave str

def replaceAll (fuel : ℕ) (str oldValue newValue : List Char) : Option (List Char) :=
  if oldValue = newValue then some str else loop (replaceRound oldValue newValue) fuel str

/-- What `std::getline` uses of `std::stringstream`: the characters still to be read, and the bits
`eofbit` and `failbit` -/
structure Stream where
  rest : List Char
  eofbit : Bool
  failbit : Bool

/-- The characters up to the delimiter or the end are extracted and appended to the string; the
delimiter is extracted and not appended. -/
def extract (delim : Char) : List Char → List Char → List Char × Stream
  | item, [] => (item, ⟨[], true, false⟩)
  | item, c :: rest =>
    if c = delim then (item, ⟨rest, false, false⟩) else extract delim (item ++ [c]) rest

/-- `std::getline(ss, item, delim)`. On a stream that is not good nothing is extracted. The call
fails when it extracts no character at all. -/
def getline (ss : Stream) (item : List Char) (delim : Char) : List Char × Stream :=
  if ss.eofbit || ss.failbit then (item, { ss with failbit := true })
  else if ss.rest.length = 0 then ([], ⟨[], true, true⟩)
  else extract delim [] ss.rest

/-- The variables of `split` -/
structure Split where
  elems : List (List Char)
  ss : Stream
  item : List Char

/-- A round of the loop of `split` -/
def splitRound (delim : Char) (v : Split) : Round Split (List (List Char)) :=
  let r := getline v.ss v.item delim
  if r.2.failbit then .leave v.elems else .again ⟨v.elems ++ [r.1], r.2, r.1⟩

def split (fuel : ℕ) (s : List Char) (delim : Char) : Option (List (List Char)) :=
  loop (splitRound delim) fuel ⟨[], ⟨s, false, false⟩, []⟩

end CodeC.StringUtil
