import CommandLine.Json.Value
import CommandLine.SortedMap
/-!
# CommandLine.Json.Sorted

JSON values with the members of all objects in the order of their keys.
-/

namespace CommandLine.Json.Value

mutual

/-- The value with the members of its objects in the order of their keys. -/
def sorted : Value → Value
  | array items => array (sortedItems items)
  | object members => object (SortedMap.ofList (sortedMembers members)).entries
  | null => null
  | boolean b => boolean b
  | natural n => natural n
  | text s => text s

/-- Every item sorted. -/
def sortedItems : List Value → List Value
  | [] => []
  | item :: items => item.sorted :: sortedItems items

/-- Every value sorted, the members in the order they have. -/
def sortedMembers : List (String × Value) → List (String × Value)
  | [] => []
  | (key, value) :: members => (key, value.sorted) :: sortedMembers members

end

end CommandLine.Json.Value
