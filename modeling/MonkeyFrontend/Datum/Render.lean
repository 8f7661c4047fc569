import MonkeyFrontend.Datum
import MonkeyFrontend.Text.Quoted

/-!
# Data in messages

Two ways to show a datum. `render` shows what it is: texts stand between
quotes, lists between brackets, and maps between braces in the order of
their entries. `plain` differs in texts only, which it gives as they are.
-/

namespace MonkeyFrontend

mutual

/-- How a datum is shown. -/
def Datum.render : Datum → String
  | .null => "None"
  | .boolean true => "True"
  | .boolean false => "False"
  | .integer value => toString value
  | .decimal value => value.text
  | .text value => quoted value
  | .list items => "[" ++ ", ".intercalate (Datum.renderEach items) ++ "]"
  | .map entries => "\x7b" ++ ", ".intercalate (Entry.renderEach entries) ++ "\x7d"

/-- How several data are shown. -/
def Datum.renderEach : List Datum → List String
  | [] => []
  | first :: rest => first.render :: Datum.renderEach rest

/-- How a datum is shown with its key. -/
def Entry.render : Entry → String
  | ⟨key, value⟩ => key.render ++ ": " ++ value.render

/-- How several data are shown with their keys. -/
def Entry.renderEach : List Entry → List String
  | [] => []
  | first :: rest => first.render :: Entry.renderEach rest

end

/-- How a datum is shown where texts need no quotes. -/
def Datum.plain : Datum → String
  | .text value => value
  | datum => datum.render

end MonkeyFrontend
