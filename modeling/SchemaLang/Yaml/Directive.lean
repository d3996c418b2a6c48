import SchemaLang.Yaml.Property

/-!
# Directives

What may stand in front of a document: the version of the language that it is written
in, and handles for its tags.
-/

namespace SchemaLang.Yaml

/-- A number of at most nine digits, and the text behind it. -/
def versionNumber? (text : List Spot) : Option (Nat × List Spot) :=
  let digits := text.takeWhile fun s => s.char.isDigit
  if digits.isEmpty || 9 < digits.length then none
  else some (Nat.ofDigitChars 10 (digits.map Spot.char) 0, text.drop digits.length)

/-- The version that a directive asks for, and the text behind it. -/
def versionDirective? (text : List Spot) : Option (Token × List Spot) := do
  let (major, rest) ← versionNumber? text
  if startsAmong ['.'] rest then
    let (minor, rest) ← versionNumber? (rest.drop 1)
    some (.version major minor, rest)
  else none

/-- The handle that a directive introduces with its meaning, and the text behind both. -/
def handleDirective? (text : List Spot) : Option (Token × List Spot) := do
  if startsAmong ['!'] text then
    let (handle, rest) := (handle? (text.drop 1)).getD ("!", text.drop 1)
    let (meaning, after) ← someTagText? isUriChar (rest.dropWhile fun s => isBlank s.char)
    if startsAmong [' ', '\t'] rest && startsBlank after then
      some (.handle handle meaning, after)
    else none
  else none

/-- The reader of what follows the name of a directive. -/
def directiveNamed? (name : String) : Option (List Spot → Option (Token × List Spot)) :=
  if name = "YAML" then some versionDirective?
  else if name = "TAG" then some handleDirective?
  else none

/-- A directive from behind its percent sign on, and the text below it. -/
def directive? (text : List Spot) : Option (Token × List Spot) := do
  let name := text.takeWhile fun s => isWord s.char
  let rest := text.drop name.length
  let read ← directiveNamed? (Spot.spell name)
  if startsBlank rest then
    let (token, after) ← read (rest.dropWhile fun s => isBlank s.char)
    some (token, ← nextLine? after)
  else none

/-! ## Progress -/

theorem length_versionNumber? {text rest : List Spot} {n : Nat}
    (h : versionNumber? text = some (n, rest)) : rest.length ≤ text.length := by
  simp only [versionNumber?] at h
  split at h
  · cases h
  · cases h
    simp

theorem length_versionDirective? {text rest : List Spot} {token : Token}
    (h : versionDirective? text = some (token, rest)) : rest.length ≤ text.length := by
  simp only [versionDirective?, Option.bind_eq_bind, Option.bind_eq_some_iff] at h
  obtain ⟨⟨major, after⟩, ha, h⟩ := h
  have first := length_versionNumber? ha
  split at h
  · obtain ⟨⟨minor, behind⟩, hb, h⟩ := Option.bind_eq_some_iff.1 h
    have second := length_versionNumber? hb
    cases h
    simp only [List.length_drop] at second ⊢
    omega
  · cases h

theorem length_handleDirective? {text rest : List Spot} {token : Token}
    (h : handleDirective? text = some (token, rest)) : rest.length ≤ text.length := by
  simp only [handleDirective?, Option.bind_eq_bind] at h
  split at h
  · obtain ⟨⟨meaning, after⟩, ht, h⟩ := Option.bind_eq_some_iff.1 h
    have told := length_someTagText? ht
    have blanks := length_dropWhile_le (fun s => isBlank s.char)
      ((handle? (text.drop 1)).getD ("!", text.drop 1)).2
    have handle : ((handle? (text.drop 1)).getD ("!", text.drop 1)).2.length ≤ text.length := by
      cases hh : handle? (text.drop 1) with
      | none => simp
      | some found =>
        have bound := length_handle? (show _ = some (found.1, found.2) from hh)
        simp only [List.length_drop] at bound
        simp only [Option.getD_some]
        omega
    split at h
    · cases h
      exact Nat.le_trans told (Nat.le_trans blanks handle)
    · cases h
  · cases h

theorem length_of_directiveNamed? {name : String}
    {read : List Spot → Option (Token × List Spot)} {text rest : List Spot} {token : Token}
    (hn : directiveNamed? name = some read) (h : read text = some (token, rest)) :
    rest.length ≤ text.length := by
  simp only [directiveNamed?] at hn
  split at hn
  · cases hn
    exact length_versionDirective? h
  · split at hn
    · cases hn
      exact length_handleDirective? h
    · cases hn

theorem length_directive? {text rest : List Spot} {token : Token}
    (h : directive? text = some (token, rest)) : rest.length ≤ text.length := by
  simp only [directive?, Option.bind_eq_bind, Option.bind_eq_some_iff] at h
  obtain ⟨read, hn, h⟩ := h
  split at h
  · simp only [Option.bind_eq_some_iff] at h
    obtain ⟨⟨token, after⟩, hr, below, hl, h⟩ := h
    cases h
    have line : rest.length ≤ after.length := length_nextLine? hl
    have named := length_of_directiveNamed? hn hr
    have blanks := length_dropWhile_le (fun s => isBlank s.char)
      (text.drop (text.takeWhile fun s => isWord s.char).length)
    simp only [List.length_drop] at blanks
    omega
  · cases h

end SchemaLang.Yaml
