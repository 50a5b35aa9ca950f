import ContentStore.Text.Extending
import ContentStore.Text.Unprintable

/-!
# Characters that do not show

A character does not show by itself if it has no shape, or only marks the character before it. A quoted
text spells such characters out.
-/

namespace ContentStore.Text

def hidden (c : Char) : Bool :=
  unprintable c || extending c

end ContentStore.Text
