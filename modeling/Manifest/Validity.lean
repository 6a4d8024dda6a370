import Manifest.Text.Split

/-! Names of documents are labels between points: lower case letters, digits and inner hyphens.
Keys of data are letters, digits, hyphens, underscores and points.  Both have at most 253 bytes. -/

namespace Manifest.Validity

def maxBytes : Nat := 253

def isLabelEnd (c : Char) : Bool := c.isLower || c.isDigit

def isLabel (cs : List Char) : Bool :=
  cs.head?.any isLabelEnd && cs.getLast?.any isLabelEnd
    && cs.all fun c => isLabelEnd c || c = '-'

def isName (s : String) : Bool := (Text.splitAll '.' s.toList).all isLabel

def isKeyChar (c : Char) : Bool := c.isAlphanum || c = '-' || c = '_' || c = '.'

def isKey (s : String) : Bool := s ≠ "" && s ≠ "." && s ≠ ".." && s.toList.all isKeyChar

def nameFault? (s : String) : Option String :=
  if maxBytes < s.utf8ByteSize then some ("name '" ++ s ++ "' is longer than 253 characters")
  else if isName s then none
  else some ("name '" ++ s ++ "' must consist of lower case alphanumerics, '-' or '.'")

def keyFault? (s : String) : Option String :=
  if maxBytes < s.utf8ByteSize then some ("key '" ++ s ++ "' is longer than 253 characters")
  else if isKey s then none
  else some ("key '" ++ s ++ "' must consist of alphanumerics, '-', '_' or '.'")

end Manifest.Validity
