import RequestAudit.Text.Affix
import RequestAudit.Text.Blank

/-!
# Specs of resources and of paths

A spec is compared literally but for the star. In a resource spec the star stands for the whole
spec, for the type before a slash or for the part after one; in a path spec, at the end, for
any continuation.
-/

namespace RequestAudit.Spec

open Text

/-- Whether the spec reads as the type, or as the type, a slash and the part if there is one. -/
def isExact (spec type sub : List Char) : Bool :=
  if sub.isEmpty then spec == type
  else ((after? type spec).bind (after? ['/'])) == some sub

/-- Whether the spec is a star in place of the type, a slash and the part. -/
def isAnyType (spec sub : List Char) : Bool :=
  !sub.isEmpty && after? ['*', '/'] spec == some sub

/-- Whether the spec is the type, a slash and a star in place of a part. -/
def isAnyPart (spec type sub : List Char) : Bool :=
  !sub.isEmpty && before? ['/', '*'] spec == some type

/-- Whether a resource spec covers a type with a part, the empty part meaning the object. -/
def coversResource (spec type sub : String) : Bool :=
  spec == "*" || isExact spec.toList type.toList sub.toList || isAnyType spec.toList sub.toList
    || isAnyPart spec.toList type.toList sub.toList

/-- Whether a path spec covers a path: a spec that ends in a star covers what begins with the
text before its last stars, and any other spec only itself. -/
def coversPath (spec path : String) : Bool :=
  spec == "*" || spec == path
    || (spec.toList.getLast? == some '*'
      && (dropEndWhile (· == '*') spec.toList).isPrefixOf path.toList)

end RequestAudit.Spec
