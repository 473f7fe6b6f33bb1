import QueryDomain.Text.Basic

/-! Lists of field names, written with commas between them. -/
namespace QueryDomain
namespace FieldList

/-- The names between the commas, trimmed; entries of nothing but blanks are dropped. -/
def names (cs : Text) : List Text :=
  ((cs.splitOnP (· = ',')).map Text.trim).filter (· ≠ [])

def read (text : String) : List String := (names text.toList).map String.ofList

end FieldList
end QueryDomain
