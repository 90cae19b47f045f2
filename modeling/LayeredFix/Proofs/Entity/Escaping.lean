import LayeredFix.Proofs.Entity.Decoder
import Mathlib.Logic.Function.Iterate

/-!
# Escaped texts

Escaping writes each special character of markup as its entity, the ampersand too (`escape`). A text that has been
escaped, once or many times, is decoded like the text itself (`transform_iterate_escape`), so the pass takes back any
number of escapings.

The decoder sees through a single escaping (`transparent_escape`). The ampersand that begins an entity gets an escape
behind it, and the characters of the entity are no special ones; any other special character gets an entity of its own.
-/

namespace LayeredFix.Pass.Entity

/-- A character as markup writes it: a special character as an entity. -/
def escapeChar : Char → Text
  | '&' => "&amp;".toList
  | '<' => "&lt;".toList
  | '>' => "&gt;".toList
  | '"' => "&quot;".toList
  | '\'' => "&#39;".toList
  | c => [c]

/-- The text with its special characters escaped, in one pass. -/
def escape (t : Text) : Text := t.flatMap escapeChar

variable {c : Char}

@[simp] theorem escape_nil : escape [] = [] := rfl

theorem escape_cons (c : Char) (t : Text) : escape (c :: t) = escapeChar c ++ escape t := List.flatMap_cons

/-! ### What is written for a character -/

/-- No character of an entity is special. -/
theorem escapeChar_of_isBody (hc : isBody c = true) : escapeChar c = [c] := by
  unfold escapeChar
  split
  · exact absurd hc (by decide)
  · exact absurd hc (by decide)
  · exact absurd hc (by decide)
  · exact absurd hc (by decide)
  · exact absurd hc (by decide)
  · rfl

/-- What is written for any other character begins with a character that stands in no entity behind the ampersand. -/
theorem escapeChar_begins (hc : isBody c = false) : ∃ d u, escapeChar c = d :: u ∧ isBody d = false := by
  have hamp : isBody '&' = false := by decide
  unfold escapeChar
  split
  · exact ⟨'&', "amp;".toList, rfl, hamp⟩
  · exact ⟨'&', "lt;".toList, rfl, hamp⟩
  · exact ⟨'&', "gt;".toList, rfl, hamp⟩
  · exact ⟨'&', "quot;".toList, rfl, hamp⟩
  · exact ⟨'&', "#39;".toList, rfl, hamp⟩
  · exact ⟨c, [], rfl, hc⟩

/-- An escaped character is decoded, apart from the ampersand, which depends on what follows. -/
theorem decode_escapeChar (hc : c ≠ '&') (t : Text) : decode (escapeChar c ++ t) = c :: decode t := by
  unfold escapeChar
  split
  · exact absurd rfl hc
  · have hfirst : firstOf plainRules ('&' :: ("lt;".toList ++ t)) = some ('&' :: "lt;".toList, ['<']) := rfl
    exact decode_of_some rfl hfirst
  · have hfirst : firstOf plainRules ('&' :: ("gt;".toList ++ t)) = some ('&' :: "gt;".toList, ['>']) := rfl
    exact decode_of_some rfl hfirst
  · have hfirst : firstOf plainRules ('&' :: ("quot;".toList ++ t)) = some ('&' :: "quot;".toList, ['"']) := rfl
    exact decode_of_some rfl hfirst
  · have hfirst : firstOf plainRules ('&' :: ("#39;".toList ++ t)) = some ('&' :: "#39;".toList, ['\'']) := rfl
    exact decode_of_some rfl hfirst
  · exact decode_cons hc t

/-! ### Escaping a text -/

/-- Characters of entities are copied. -/
theorem escape_append_of_isBody {u : Text} (hu : ∀ c ∈ u, isBody c = true) (t : Text) :
    escape (u ++ t) = u ++ escape t := by
  induction u with
  | nil => rfl
  | cons c u ih =>
    rw [List.forall_mem_cons] at hu
    rw [List.cons_append, escape_cons, escapeChar_of_isBody hu.1, ih hu.2, List.singleton_append, List.cons_append]

/-- A text begins with the same characters of an entity when it is escaped. -/
theorem escape_takeWhile (t : Text) : (escape t).takeWhile isBody = t.takeWhile isBody := by
  induction t with
  | nil => rfl
  | cons c t ih =>
    rw [escape_cons]
    cases hc : isBody c with
    | true =>
      rw [escapeChar_of_isBody hc, List.singleton_append, List.takeWhile_cons_of_pos hc, List.takeWhile_cons_of_pos hc, ih]
    | false =>
      obtain ⟨d, u, hescape, hd⟩ := escapeChar_begins hc
      rw [hescape, List.cons_append, List.takeWhile_cons_of_neg (by simp [hd]), List.takeWhile_cons_of_neg (by simp [hc])]

/-- An ampersand gets an escape behind it. -/
theorem escape_ampersand (t : Text) : escape ('&' :: t) = '&' :: escape ("amp;".toList ++ t) := by
  have hbody : ∀ c ∈ "amp;".toList, isBody c = true := by decide
  rw [escape_append_of_isBody hbody]
  rfl

/-- **The decoder sees through an escaping.** -/
theorem transparent_escape : Transparent escape where
  nil := escape_nil
  body := escape_append_of_isBody
  begins := escape_takeWhile
  ampersand t := ⟨"amp;".toList ++ t, rfl, escape_ampersand t⟩
  other hc t := by rw [escape_cons, decode_escapeChar hc]

/-- An escaped text becomes what the text itself becomes. -/
theorem transform_escape (t : Text) : transform (escape t) = transform t := by
  rw [transform_eq_decode, transform_eq_decode, transparent_escape.decode_eq]

/-- **The pass absorbs escapings of any depth**: a text that was escaped once or many times becomes what the text itself
becomes, so a text that the pass leaves alone comes back. -/
theorem transform_iterate_escape (t : Text) : transform (escape t) = transform t ∧
    ∀ n, transform (escape^[n] t) = transform t ∧ (transform t = t → transform (escape^[n] t) = t) := by
  have hmany (n : Nat) : transform (escape^[n] t) = transform t := by
    induction n with
    | zero => rfl
    | succ n ih => rw [Function.iterate_succ_apply', transform_escape, ih]
  refine ⟨transform_escape t, fun n => ⟨hmany n, fun hfixed => ?_⟩⟩
  rw [hmany n, hfixed]

/-- Markup with each of the special characters, and with ampersands that begin no entity of the table. -/
def specialMarkup : Text := "<a title=\"x\">it's R&D &fjord;</a>".toList

theorem transform_iterate_escape_specialMarkup :
    transform specialMarkup = specialMarkup ∧ transform (escape^[3] specialMarkup) = specialMarkup := by
  have hfixed : transform specialMarkup = specialMarkup := by decide +kernel
  exact ⟨hfixed, ((transform_iterate_escape specialMarkup).2 3).2 hfixed⟩

end LayeredFix.Pass.Entity
