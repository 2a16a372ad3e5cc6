import MiyakoLink.Lib.CString

/-!
# Pieces of `sscanf`

`%x` with or without a width, taken off the front of a string. Strings end at their first NUL, so
they are cut there first.
-/

namespace MiyakoLink.Lib

/-- `%x`, or `%08lx` when a width is given: white space, a sign, `0x`, digits. A number that is
too large is read as the largest one, also behind a minus. -/
def scanHex (width : Option Nat) (s : List UInt8) : Option (UInt32 × List UInt8) :=
  let s := s.dropWhile isSpace
  let field := s.take (width.getD s.length)
  let signed := scanSign field
  let body := dropHexPrefix signed.2
  let digits := body.takeWhile isHex
  if digits = [] then none
  else
    let v :=
      if 0xFFFFFFFF < hexValue digits then 0xFFFFFFFF
      else if signed.1 then -UInt32.ofNat (hexValue digits)
      else UInt32.ofNat (hexValue digits)
    some (v, s.drop (field.length - body.length + digits.length))

/-- The characters of a string literal. -/
def ascii (s : String) : List UInt8 := s.toList.map fun c => UInt8.ofNat c.toNat

end MiyakoLink.Lib
