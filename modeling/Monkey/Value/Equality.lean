import Monkey.Value

/-!
# Equality of values

Two values are equal when they have the same contents, whichever objects they
are: the same number or text, equal elements in the same order, equal entries
for the same keys. Entries are kept in the order of their keys, so hashes are
compared entry by entry and the order in which they were filled does not
matter.

Functions are equal when their parameters and bodies are the same and they
share one scope. Builtins are equal when they are the same builtin.
-/

namespace Monkey

mutual

/-- **Whether two values have the same contents.** -/
def Value.equal : Value → Value → Bool
  | .int _ a, .int _ b => a == b
  | .bool _ a, .bool _ b => a == b
  | .str _ s, .str _ t => s == t
  | .array _ vs, .array _ ws => equalValues vs ws
  | .hash _ es, .hash _ fs => equalEntries es fs
  | .fn _ f, .fn _ g => f == g
  | .builtin _ b, .builtin _ c => b == c
  | .null _, .null _ => true
  | _, _ => false
termination_by structural v => v

/-- Whether two lists have equal values in the same places. -/
def equalValues : List Value → List Value → Bool
  | [], [] => true
  | v :: vs, w :: ws => v.equal w && equalValues vs ws
  | _, _ => false
termination_by structural vs => vs

/-- Whether two tables have the same keys with equal entries. -/
def equalEntries : List (HashKey × Value × Value) →
    List (HashKey × Value × Value) → Bool
  | [], [] => true
  | (k, key, v) :: es, (k', key', v') :: fs =>
    k == k' && key.equal key' && v.equal v' && equalEntries es fs
  | _, _ => false
termination_by structural es => es

end

end Monkey
