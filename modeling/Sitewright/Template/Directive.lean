import Sitewright.Text.Basic

/-!
Client directives are attributes that a script library gives a meaning in the browser: `x-name`,
`@event` for `x-on:event`, and `:property` for `x-bind:property`. Arguments follow a `:` and modifiers
a `.`; the family of a directive is its name without them.
-/

namespace Sitewright.Directive

/-- The family of a directive: `@click` is of `x-on`, `:class` of `x-bind`, `x-show.important` of
`x-show`. -/
def family (name : Text) : Option Text :=
  match name with
  | '@' :: _ => some "x-on".toList
  | ':' :: _ => some "x-bind".toList
  | 'x' :: '-' :: _ => some (name.takeWhile fun c => c != ':' && c != '.')
  | _ => none

/-- The families that stay in the markup in production. -/
def kept : List Text :=
  ["x-bind", "x-for", "x-cloak"].map String.toList

end Sitewright.Directive
