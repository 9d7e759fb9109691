import Highlighting.Registry
import Highlighting.Render.Html

/-!
# Code blocks of a site

The markup of a code block names the language around the highlighted code.
-/

namespace Highlighting

/-- A source as a code block for a tag, with the code always wrapped. -/
def renderCodeBlock (r : Registry) (tag source : String) (prefs : RenderPreferences) :
    Logged String := do
  let tokens ← r.highlight tag source
  Logged.report <| .success .renderComplete "Code block rendered"
    [("tag", tag), ("tokens", toString tokens.length)]
  pure ("<div class=\"language-" ++ escapeHtml tag ++ " highlighter-rouge\">" ++
    Html.render { prefs with wrapOutput := true } tokens ++ "</div>")

end Highlighting
