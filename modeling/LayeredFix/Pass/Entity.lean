import LayeredFix.Text.Basic

/-!
# Character entities

Entities of markup, such as `&quot;` or `&#39;`, become the characters they stand for.

An ampersand may itself be written as an entity, to any depth. Ampersands in front of what reads as the
rest of an entity are collapsed first, until nothing changes; the rules for the other entities follow;
any other ampersand entity is resolved last. In this order one application reaches a text without
entities of the table.
-/

namespace LayeredFix.Pass.Entity

/-- A rule: the spellings of an entity and the text it stands for. -/
structure Rule where
  /-- The spellings. -/
  spellings : List Text
  /-- The text they stand for. -/
  meaning : Text

/-- A rule given by strings. -/
def rule (spellings : List String) (meaning : String) : Rule :=
  ⟨spellings.map String.toList, meaning.toList⟩

/-- The first of the spellings that a text begins with. -/
def Rule.spellingAt (r : Rule) (t : Text) : Option Text := r.spellings.find? fun w => w.isPrefixOf t

/-- The text with each spelling that is followed by an accepted text replaced, from left to right. `skip`
counts the characters of a spelling that are still to be passed over; `done` holds what has been written,
last first. -/
def Rule.applyFrom (r : Rule) (accept : Text → Bool) (skip : Nat) (t done : Text) : Text :=
  match skip, t with
  | _, [] => done.reverse
  | skip + 1, _ :: t => r.applyFrom accept skip t done
  | 0, c :: t =>
    match r.spellingAt (c :: t) with
    | none => r.applyFrom accept 0 t (c :: done)
    | some w =>
      if accept ((c :: t).drop w.length) then
        r.applyFrom accept (w.length - 1) t (r.meaning.reverse ++ done)
      else r.applyFrom accept 0 t (c :: done)

/-- Each spelling replaced by its meaning. -/
def Rule.apply (r : Rule) (t : Text) : Text := r.applyFrom (fun _ => true) 0 t []

/-- The entity of the ampersand. -/
def ampersand : Rule := rule ["&amp;", "&#38;", "&#x26;"] "&"

/-- Whether at least one character of a class and then a semicolon come first. -/
def closesAfter (ok : Char → Bool) : Text → Bool
  | [] => false
  | c :: t => ok c && (t.dropWhile ok).head? == some ';'

/-- Whether a text begins like the rest of an entity after its ampersand: a number after `#`, a
hexadecimal number after `#x`, or a name, with a semicolon at the end. -/
def beginsTail : Text → Bool
  | '#' :: 'x' :: t => closesAfter Text.isHexDigit t
  | '#' :: t => closesAfter Text.isDigit t
  | c :: t => c.isAlpha && (t.dropWhile Char.isAlphanum).head? == some ';'
  | [] => false

/-- Ampersand entities in front of the rest of an entity become ampersands, once from left to right. -/
def collapseOnce (t : Text) : Text := ampersand.applyFrom beginsTail 0 t []

/-- Ampersand entities in front of the rest of an entity become ampersands, until none is left. Each round
that changes the text makes it shorter. -/
def collapse (t : Text) : Text :=
  let next := collapseOnce t
  if _h : next.length < t.length then collapse next else t
termination_by t.length

/-- The rules for quotes and markup characters. -/
def markupRules : List Rule :=
  [rule ["&quot;", "&#34;", "&#x22;"] "\"",
   rule ["&#x27;", "&apos;", "&#39;"] "'",
   rule ["&lt;", "&#60;", "&#x3c;", "&#x3C;"] "<",
   rule ["&gt;", "&#62;", "&#x3e;", "&#x3E;"] ">"]

/-- The rules for currency signs. -/
def currencyRules : List Rule :=
  [rule ["&#36;", "&#x24;"] "$",
   rule ["&euro;", "&#8364;", "&#x20AC;"] "€",
   rule ["&pound;", "&#163;"] "£",
   rule ["&yen;", "&#165;"] "¥",
   rule ["&cent;", "&#162;"] "¢"]

/-- The rules for dashes, typographic quotes and dots. -/
def typographyRules : List Rule :=
  [rule ["&ndash;", "&#8211;"] "–",
   rule ["&mdash;", "&#8212;"] "—",
   rule ["&lsquo;", "&rsquo;", "&#8216;", "&#8217;"] "'",
   rule ["&ldquo;", "&rdquo;", "&#8220;", "&#8221;"] "\"",
   rule ["&hellip;", "&#8230;"] "…",
   rule ["&#8209;"] "-"]

/-- The rules for special signs. -/
def signRules : List Rule :=
  [rule ["&#64;"] "@",
   rule ["&nbsp;", "&#160;"] " ",
   rule ["&copy;", "&#169;"] "©",
   rule ["&reg;", "&#174;"] "®",
   rule ["&trade;", "&#8482;"] "™",
   rule ["&sect;", "&#167;"] "§",
   rule ["&para;", "&#182;"] "¶",
   rule ["&bull;", "&#8226;"] "•",
   rule ["&deg;", "&#176;"] "°"]

/-- The rules for mathematical signs. -/
def mathRules : List Rule :=
  [rule ["&plusmn;", "&#177;"] "±",
   rule ["&times;", "&#215;"] "×",
   rule ["&divide;", "&#247;"] "÷",
   rule ["&frac14;"] "¼",
   rule ["&frac12;"] "½",
   rule ["&frac34;"] "¾"]

/-- The rules for arrows. -/
def arrowRules : List Rule :=
  [rule ["&larr;"] "←",
   rule ["&uarr;"] "↑",
   rule ["&rarr;"] "→",
   rule ["&darr;"] "↓",
   rule ["&harr;"] "↔"]

/-- The rules for all entities but the ampersand. -/
def plainRules : List Rule :=
  markupRules ++ currencyRules ++ typographyRules ++ signRules ++ mathRules ++ arrowRules

/-- The pass over entities. -/
def transform (t : Text) : Text :=
  if Text.occursIn ['&'] t then
    ampersand.apply (plainRules.foldl (fun t r => r.apply t) (collapse t))
  else t

end LayeredFix.Pass.Entity
