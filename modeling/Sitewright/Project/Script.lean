import Sitewright.Project.Basic

/-!
The script of a project: its own text and, in production, the registrations of the client directives
that left the markup of its templates.
-/

namespace Sitewright.Project

def registrations (project : Project) : List Text :=
  project.templates.flatMap fun template =>
    Directive.registration (project.key template.id) (Directive.bindings template.document)

/-- A script text, closed by a line end if there is anything in it. -/
def closeLine (script : Text) : Text :=
  if script = [] || Text.endsWith '\n' script then script else script ++ ['\n']

def registrationScript (lines : List Text) : Text :=
  "document.addEventListener(\"alpine:init\", () => \x7b\n".toList
    ++ (lines.flatMap fun line => "  ".toList ++ line ++ ['\n']) ++ "\x7d);\n".toList

def script (project : Project) : Text :=
  match project.environment with
  | .development => project.js
  | .production =>
    let lines := project.registrations
    if lines = [] then project.js else closeLine project.js ++ registrationScript lines

end Sitewright.Project
