import SchemaLang.Json.Reader

/-!
# Octets of tags

A tag is a run of octets. The characters of its text are octets by themselves, and a
percent sign with two hexadecimal digits writes any octet. An octet that begins a
character of several octets has to be followed by the others at once; whether there is
such a character does not matter.
-/

namespace SchemaLang.Yaml

/-- The number of octets that follow the first one of a character. -/
def octetsBehind? (octet : Nat) : Option Nat :=
  if octet < 128 then some 0
  else if octet / 32 = 6 then some 1
  else if octet / 16 = 14 then some 2
  else if octet / 8 = 30 then some 3
  else none

/-- The number of octets that are still to follow behind one, where some were to. -/
def stillLacking? (lacking octet : Nat) : Option Nat :=
  match lacking with
  | 0 => octetsBehind? octet
  | lacking + 1 => if octet / 64 = 2 then some lacking else none

/-- The octets of a text of ASCII characters, at the beginning of which a number of
octets is to follow for the character before it. -/
def octets? (lacking : Nat) : List Char → Option (List UInt8)
  | [] => if lacking = 0 then some [] else none
  | '%' :: high :: low :: rest => do
    let octet := 16 * (← Json.hexDigit? high) + (← Json.hexDigit? low)
    let others ← octets? (← stillLacking? lacking octet) rest
    some (UInt8.ofNat octet :: others)
  | c :: rest =>
    if c = '%' || lacking != 0 then none
    else (octets? 0 rest).map (UInt8.ofNat c.toNat :: ·)

/-- The octets in front of the first zero, behind which nothing counts. -/
def beforeZero (octets : List UInt8) : List UInt8 :=
  octets.takeWhile (· != 0)

/-- The octets of a text. -/
def octetsOf (text : String) : List UInt8 :=
  text.toUTF8.toList

end SchemaLang.Yaml
