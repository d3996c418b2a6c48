import Mathlib.Order.Lex
import SchemaLang.Path
import SchemaLang.Proofs.Text.ByteOrder

/-!
# The order of paths

Paths are compared part by part. The root comes first, then the single dot, the double dot
and the names, and names are in the order of their bytes. What is in one directory is
therefore in the order of its names (`notAfter_join`).
-/

namespace SchemaLang.Path

/-- A name that a directory can list: a part of a path that is neither empty nor dots. -/
structure IsName (name : String) : Prop where
  ne_empty : name ≠ ""
  ne_dot : name ≠ "."
  ne_dots : name ≠ ".."
  no_slash : '/' ∉ name.toList

/-! ## The parts of a joined path -/

theorem split_ne_nil (text : List Char) : split text ≠ [] := by
  fun_cases split text <;> simp

theorem split_append_slash (front rest : List Char) :
    split (front ++ '/' :: rest) = split front ++ split rest := by
  induction front with
  | nil => simp [split]
  | cons c front ih =>
    rw [List.cons_append, split, split, ih]
    by_cases hc : c = '/'
    · rw [if_pos hc, if_pos hc, List.cons_append]
    · rw [if_neg hc, if_neg hc]
      cases hfront : split front with
      | nil => exact absurd hfront (split_ne_nil front)
      | cons first others => rfl

theorem split_of_no_slash {text : List Char} (h : '/' ∉ text) : split text = [text] := by
  induction text with
  | nil => rfl
  | cons c rest ih =>
    obtain ⟨hc, hrest⟩ := not_or.mp (mt List.mem_cons.mpr h)
    rw [split, if_neg (Ne.symm hc), ih hrest]

theorem segments_append_slash (directory : String) {name : String} (h : '/' ∉ name.toList) :
    segments (directory ++ "/" ++ name) = segments directory ++ [name] := by
  have hchars : (directory ++ "/" ++ name).toList = directory.toList ++ '/' :: name.toList := by
    simp
  rw [segments, hchars, split_append_slash, split_of_no_slash h, List.map_append,
    List.map_singleton, String.ofList_toList, segments]

theorem parts_append_slash (directory : String) {name : String} (h : '/' ∉ name.toList) :
    parts (directory ++ "/" ++ name) =
      parts directory ++ if name = "" ∨ name = "." then [] else [name] := by
  unfold parts
  rw [segments_append_slash directory h]
  cases hsegments : segments directory with
  | nil => simp [segments, split_ne_nil] at hsegments
  | cons first rest =>
    have hfilter : (rest ++ [name]).filter (fun s => s ≠ "" ∧ s ≠ ".") =
        rest.filter (fun s => s ≠ "" ∧ s ≠ ".") ++
          if name = "" ∨ name = "." then [] else [name] := by
      rw [List.filter_append]
      by_cases hname : name = "" ∨ name = "."
      · rw [if_pos hname, List.filter_cons_of_neg (by rcases hname with rfl | rfl <;> simp),
          List.filter_nil]
      · rw [if_neg hname, List.filter_cons_of_pos (by simpa [not_or] using hname),
          List.filter_nil]
    rw [List.cons_append]
    dsimp only
    rw [hfilter]
    split <;> rfl

theorem isAbsolute_append {front : String} (h : front ≠ "") (rest : String) :
    isAbsolute (front ++ rest) = isAbsolute front := by
  have hchars : front.toList ≠ [] := by simpa using h
  unfold isAbsolute
  rw [String.toList_append, List.head?_append_of_ne_nil _ hchars]

theorem IsName.not_absolute {name : String} (h : IsName name) : isAbsolute name = false := by
  refine decide_eq_false fun hslash => ?_
  exact h.no_slash (List.mem_of_mem_head? hslash)

theorem join_cases (directory : String) {name : String} (h : IsName name) :
    (directory = "" ∧ join directory name = name) ∨
      directory ≠ "" ∧ ((∃ above, directory = above ++ "/" ∧
          join directory name = above ++ "/" ++ name) ∨
        join directory name = directory ++ "/" ++ name) := by
  unfold join
  rw [if_neg (by simp [h.not_absolute])]
  by_cases hempty : directory = ""
  · subst hempty
    exact Or.inl ⟨rfl, by simp⟩
  refine Or.inr ⟨hempty, ?_⟩
  by_cases hlast : directory.toList.getLast? = some '/'
  · obtain ⟨front, hfront⟩ := List.getLast?_eq_some_iff.mp hlast
    have habove : directory = String.ofList front ++ "/" := by
      apply String.toList_injective
      simpa using hfront
    exact Or.inl ⟨String.ofList front, habove, by rw [if_pos (Or.inr hlast), ← habove]⟩
  · exact Or.inr (if_neg (by simp [hempty, hlast]))

theorem parts_join (directory : String) {name : String} (h : IsName name) :
    parts (join directory name) = parts directory ++ [name] := by
  have hmeans : ¬(name = "" ∨ name = ".") := not_or.mpr ⟨h.ne_empty, h.ne_dot⟩
  rcases join_cases directory h with ⟨rfl, hjoin⟩ | ⟨-, ⟨above, rfl, hjoin⟩ | hjoin⟩
  · have hname : segments name = [name] := by
      rw [segments, split_of_no_slash h.no_slash, List.map_singleton, String.ofList_toList]
    rw [hjoin, parts, hname]
    simp [h.ne_empty, parts, segments, split]
  · have habove : parts (above ++ "/") = parts above := by
      have hslash : '/' ∉ "".toList := by simp
      simpa using parts_append_slash above hslash
    rw [hjoin, habove, parts_append_slash above h.no_slash, if_neg hmeans]
  · rw [hjoin, parts_append_slash directory h.no_slash, if_neg hmeans]

theorem isAbsolute_join (directory : String) {name : String} (h : IsName name) :
    isAbsolute (join directory name) = isAbsolute directory := by
  rcases join_cases directory h with ⟨rfl, hjoin⟩ | ⟨hne, ⟨above, rfl, hjoin⟩ | hjoin⟩
  · rw [hjoin, h.not_absolute]
    rfl
  · rw [hjoin, isAbsolute_append hne]
  · rw [hjoin, String.append_assoc, isAbsolute_append hne]

/-! ## Comparing paths -/

/-- What is compared of a part of a path. -/
def partKey (part : String) : Nat × List UInt8 :=
  if part = "." then (1, [])
  else if part = ".." then (2, [])
  else (3, Text.bytes part)

/-- What is compared of a path: that it starts at the root, and its parts. -/
def sortKey (path : String) : List (Nat × List UInt8) :=
  (if isAbsolute path then [(0, [])] else []) ++ (parts path).map partKey

/-- A path may stand before another one in a sorted list. -/
def NotAfter (a b : String) : Prop :=
  sortKey a = sortKey b ∨ List.Lex (Prod.Lex (· < ·) (· < ·)) (sortKey a) (sortKey b)

theorem sortKey_join (directory : String) {name : String} (h : IsName name) :
    sortKey (join directory name) = sortKey directory ++ [(3, Text.bytes name)] := by
  rw [sortKey, parts_join directory h, isAbsolute_join directory h, List.map_append,
    List.map_singleton, partKey, if_neg h.ne_dot, if_neg h.ne_dots, sortKey, List.append_assoc]

/-- Paths in one directory are in the order of their names. -/
theorem notAfter_join (directory : String) {a b : String} (ha : IsName a) (hb : IsName b)
    (h : a ≤ b) : NotAfter (join directory a) (join directory b) := by
  unfold NotAfter
  rw [sortKey_join directory ha, sortKey_join directory hb]
  rcases h.lt_or_eq with hlt | rfl
  · exact Or.inr (.append_left _ (.rel (.right _ (Text.bytes_lt_iff.mpr hlt))) _)
  · exact Or.inl rfl

end SchemaLang.Path
