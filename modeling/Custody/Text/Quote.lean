/-!
# Quoted text in messages

A message that repeats a piece of the program, a name, an expression or an attribute,
puts it between backquotes. All messages do it with this one function, so that where a
message ends and the program begins is the same everywhere. The text itself goes in as
it is: a message is read by people, who know what they wrote, and nothing ever takes a
message apart again. Where a text has to be taken apart again, as in what is sent to a
workflow, it is escaped there (`Report/Printer`).
-/

set_option autoImplicit false

namespace Custody.Text

/-- A piece of program text between the quotes that messages put around it. -/
def quoted (text : String) : String := "`" ++ text ++ "`"

end Custody.Text
