import Mathlib.Data.Int.Notation
import Mathlib.Data.List.Forall2
import SnippetLint.Json.Value

/-! What JSON texts there are of a value. The tokens of a text may have blanks between them, and a
string may have each of its characters in more than one form. The text with one item or member a
line is one of them. -/
namespace SnippetLint.JsonValue

/-- What may stand between tokens. -/
def IsSpace (c : Char) : Prop := c = ' ' ∨ c = '\n' ∨ c = '\r' ∨ c = '\t'

def IsHexDigit (c : Char) (n : ℕ) : Prop := "0123456789abcdef".toList[n]? = some c

/-- What a character may be in a string. -/
inductive WrittenChar : Char → List Char → Prop
  | plain {c : Char} (hquote : c ≠ '"') (hslash : c ≠ '\\') (hc : 0x20 ≤ c.toNat) :
      WrittenChar c [c]
  | quote : WrittenChar '"' ['\\', '"']
  | backslash : WrittenChar '\\' ['\\', '\\']
  | newline : WrittenChar '\n' ['\\', 'n']
  | return : WrittenChar '\r' ['\\', 'r']
  | tab : WrittenChar '\t' ['\\', 't']
  | backspace : WrittenChar '\x08' ['\\', 'b']
  | formFeed : WrittenChar '\x0c' ['\\', 'f']
  | code {c d₃ d₂ d₁ d₀ : Char} {n₃ n₂ n₁ n₀ : ℕ} (h₃ : IsHexDigit d₃ n₃) (h₂ : IsHexDigit d₂ n₂)
      (h₁ : IsHexDigit d₁ n₁) (h₀ : IsHexDigit d₀ n₀)
      (hc : c.toNat = ((n₃ * 16 + n₂) * 16 + n₁) * 16 + n₀) :
      WrittenChar c ['\\', 'u', d₃, d₂, d₁, d₀]

inductive WrittenString (s : String) : List Char → Prop
  | intro {pieces : List (List Char)} (h : List.Forall₂ WrittenChar s.toList pieces) :
      WrittenString s ('"' :: pieces.flatten ++ ['"'])

/-- The digits of the mantissa, with a point before the last `places` of them. Zeros are put before
them only where no digit would stand before the point. -/
inductive WrittenNumber (mantissa : ℤ) : ℕ → List Char → Prop
  | whole : WrittenNumber mantissa 0 (toString mantissa).toList
  | fraction {places zeros : ℕ} {sign whole part : List Char} (hplaces : 0 < places)
      (hsign : sign = if mantissa < 0 then ['-'] else [])
      (hdigits : whole ++ part = List.replicate zeros '0' ++ (toString mantissa.natAbs).toList)
      (hzeros : zeros = 0 ∨ whole.length = 1) (hwhole : whole ≠ []) (hpart : part.length = places) :
      WrittenNumber mantissa places (sign ++ whole ++ '.' :: part)

mutual

inductive Written : JsonValue → List Char → Prop
  | null : Written .null "null".toList
  | true : Written (.bool .true) "true".toList
  | false : Written (.bool .false) "false".toList
  | number {mantissa : ℤ} {places : ℕ} {text : List Char}
      (h : WrittenNumber mantissa places text) : Written (.number mantissa places) text
  | string {s : String} {text : List Char} (h : WrittenString s text) : Written (.string s) text
  | emptyArray {space : List Char} (h : ∀ c ∈ space, IsSpace c) :
      Written (.array []) ('[' :: space ++ [']'])
  | array {vs : List JsonValue} {text : List Char} (h : WrittenItems vs text) :
      Written (.array vs) ('[' :: text ++ [']'])
  | emptyObject {space : List Char} (h : ∀ c ∈ space, IsSpace c) :
      Written (.object []) ('\x7b' :: space ++ ['\x7d'])
  | object {ms : List (String × JsonValue)} {text : List Char} (h : WrittenMembers ms text) :
      Written (.object ms) ('\x7b' :: text ++ ['\x7d'])

/-- Items with commas between them, at least one. -/
inductive WrittenItems : List JsonValue → List Char → Prop
  | last {v : JsonValue} {before text after : List Char} (hbefore : ∀ c ∈ before, IsSpace c)
      (h : Written v text) (hafter : ∀ c ∈ after, IsSpace c) :
      WrittenItems [v] (before ++ text ++ after)
  | more {v : JsonValue} {vs : List JsonValue} {before text after rest : List Char}
      (hbefore : ∀ c ∈ before, IsSpace c) (h : Written v text) (hafter : ∀ c ∈ after, IsSpace c)
      (hrest : WrittenItems vs rest) :
      WrittenItems (v :: vs) (before ++ text ++ after ++ ',' :: rest)

inductive WrittenMembers : List (String × JsonValue) → List Char → Prop
  | last {m : String × JsonValue} {text : List Char} (h : WrittenMember m text) :
      WrittenMembers [m] text
  | more {m : String × JsonValue} {ms : List (String × JsonValue)} {text rest : List Char}
      (h : WrittenMember m text) (hrest : WrittenMembers ms rest) :
      WrittenMembers (m :: ms) (text ++ ',' :: rest)

inductive WrittenMember : String × JsonValue → List Char → Prop
  | intro {name : String} {v : JsonValue} {before key between space text after : List Char}
      (hbefore : ∀ c ∈ before, IsSpace c) (hkey : WrittenString name key)
      (hbetween : ∀ c ∈ between, IsSpace c) (hspace : ∀ c ∈ space, IsSpace c)
      (h : Written v text) (hafter : ∀ c ∈ after, IsSpace c) :
      WrittenMember (name, v) (before ++ key ++ between ++ ':' :: space ++ text ++ after)

end

theorem isHexDigit_hexDigit {n : ℕ} (h : n < 16) : IsHexDigit (hexDigit n) n := by
  have hall : ∀ n < 16, "0123456789abcdef".toList[n]? = some (hexDigit n) := by decide
  exact hall n h

theorem writtenChar_escaped (c : Char) : WrittenChar c (escaped c) := by
  unfold escaped
  split_ifs with hquote hslash hnewline hreturn htab hbackspace hfeed hcontrol
  · exact hquote ▸ .quote
  · exact hslash ▸ .backslash
  · exact hnewline ▸ .newline
  · exact hreturn ▸ .return
  · exact htab ▸ .tab
  · exact hbackspace ▸ .backspace
  · exact hfeed ▸ .formFeed
  · have hzero : IsHexDigit '0' 0 := rfl
    exact .code hzero hzero (isHexDigit_hexDigit (by omega)) (isHexDigit_hexDigit (by omega))
      (by omega)
  · exact .plain hquote hslash (by omega)

theorem writtenString_quoted (s : String) : WrittenString s (quoted s).toList := by
  rw [quoted, String.toList_ofList, List.flatMap_def]
  apply WrittenString.intro
  rw [List.forall₂_map_right_iff, List.forall₂_same]
  exact fun c _ => writtenChar_escaped c

theorem writtenNumber_numberText (mantissa : ℤ) (places : ℕ) :
    WrittenNumber mantissa places (numberText mantissa places).toList := by
  unfold numberText
  by_cases hp : places = 0
  · rw [if_pos hp, hp]
    exact .whole
  rw [if_neg hp]
  let digits := toString mantissa.natAbs
  let zeros := places + 1 - digits.length
  let padded := String.ofList (List.replicate zeros '0') ++ digits
  have hpadded : padded.toList = List.replicate zeros '0' ++ digits.toList := by
    rw [String.toList_append, String.toList_ofList]
  have hlength : padded.length = zeros + digits.length := by simp [padded]
  have hsign : (if mantissa < 0 then "-" else "").toList =
      if mantissa < 0 then ['-'] else [] := by
    split_ifs <;> rfl
  change WrittenNumber mantissa places ((if mantissa < 0 then "-" else "") ++
    String.ofList (padded.toList.take (padded.length - places)) ++ "." ++
    String.ofList (padded.toList.drop (padded.length - places))).toList
  simp only [String.toList_append, String.toList_ofList]
  rw [show ".".toList = ['.'] from rfl, List.append_assoc _ ['.'], List.singleton_append]
  apply WrittenNumber.fraction (by omega) hsign ((List.take_append_drop _ _).trans hpadded)
  · rw [List.length_take, String.length_toList]
    omega
  · rw [← List.length_pos_iff, List.length_take, String.length_toList]
    omega
  · rw [List.length_drop, String.length_toList]
    omega

theorem isSpace_indent (depth : ℕ) : ∀ c ∈ (indent depth).toList, IsSpace c := by
  intro c hc
  rw [indent, String.toList_append, List.mem_append] at hc
  rcases hc with hc | hc
  · exact .inr (.inl (List.mem_singleton.mp hc))
  · rw [String.toList_ofList] at hc
    exact .inl (List.eq_of_mem_replicate hc)

theorem isSpace_blank : ∀ c ∈ [' '], IsSpace c := List.forall_mem_singleton.mpr (.inl rfl)

mutual

theorem written_prettyAt (depth : ℕ) : ∀ v : JsonValue, Written v (prettyAt depth v).toList
  | .null => by
    rw [prettyAt]
    exact .null
  | .bool true => by
    rw [prettyAt]
    exact .true
  | .bool false => by
    rw [prettyAt]
    exact .false
  | .number m p => .number (writtenNumber_numberText m p)
  | .string s => .string (writtenString_quoted s)
  | .array [] => by
    rw [prettyAt]
    exact .emptyArray (List.forall_mem_nil _)
  | .array (v :: vs) => by
    have hitems := writtenItems_pretty depth (written_prettyAt (depth + 1) v) vs
    simpa [prettyAt] using Written.array hitems
  | .object [] => by
    rw [prettyAt]
    exact .emptyObject (List.forall_mem_nil _)
  | .object ((name, v) :: ms) => by
    have hmembers := writtenMembers_pretty depth name (written_prettyAt (depth + 1) v) ms
    simpa [prettyAt] using Written.object hmembers

theorem writtenItems_pretty (depth : ℕ) {v : JsonValue} {text : List Char}
    (h : Written v text) : ∀ vs : List JsonValue, WrittenItems (v :: vs)
      ((indent (depth + 1)).toList ++ text ++ (prettyItems (depth + 1) vs).toList ++
        (indent depth).toList)
  | [] => by
    have hlast := WrittenItems.last (isSpace_indent (depth + 1)) h (isSpace_indent depth)
    simpa [prettyItems] using hlast
  | w :: ws => by
    have hrest := writtenItems_pretty depth (written_prettyAt (depth + 1) w) ws
    have hmore := WrittenItems.more (isSpace_indent (depth + 1)) h (List.forall_mem_nil _) hrest
    simpa [prettyItems] using hmore

theorem writtenMembers_pretty (depth : ℕ) (name : String) {v : JsonValue} {text : List Char}
    (h : Written v text) : ∀ ms : List (String × JsonValue), WrittenMembers ((name, v) :: ms)
      ((indent (depth + 1)).toList ++ (quoted name).toList ++ ':' :: ' ' :: text ++
        (prettyMembers (depth + 1) ms).toList ++ (indent depth).toList)
  | [] => by
    have hmember := WrittenMember.intro (isSpace_indent (depth + 1)) (writtenString_quoted name)
      (List.forall_mem_nil _) isSpace_blank h (isSpace_indent depth)
    simpa [prettyMembers] using WrittenMembers.last hmember
  | (other, w) :: ms => by
    have hmember := WrittenMember.intro (isSpace_indent (depth + 1)) (writtenString_quoted name)
      (List.forall_mem_nil _) isSpace_blank h (List.forall_mem_nil _)
    have hrest := writtenMembers_pretty depth other (written_prettyAt (depth + 1) w) ms
    simpa [prettyMembers] using WrittenMembers.more hmember hrest

end

/-- The text with one item or member a line is a text of the value. -/
theorem written_pretty (v : JsonValue) : Written v v.pretty.toList := written_prettyAt 0 v

end SnippetLint.JsonValue
