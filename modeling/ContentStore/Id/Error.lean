import ContentStore.Id.Kind
import ContentStore.Text.Quoted

/-!
# Why a text is no id
-/

namespace ContentStore

inductive IdError where
  | notAnId (kind : Kind) (text : String)
  | notPositional (text : String)
  | noPositionalKind (kind : Kind)
  deriving DecidableEq

namespace IdError

def message : IdError → String
  | .notAnId kind text => "invalid " ++ kind.name ++ " id: " ++ Text.quoted text
  | .notPositional text => "invalid proto id: " ++ Text.quoted text
  | .noPositionalKind kind => kind.name ++ " entities have no proto ids"

end IdError

end ContentStore
