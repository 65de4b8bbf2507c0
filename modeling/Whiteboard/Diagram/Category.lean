/-
Style categories: the closed vocabulary that decides the colours of a node, with the spellings a
directive may use for each.
-/

import Whiteboard.Text.Blank

namespace Whiteboard

/-- What a node stands for, as far as its colours are concerned. -/
inductive Category where
  | db | cache | queue | service | ui | gateway | external | ai | storage | user | orchestrator
deriving DecidableEq, Repr

namespace Category

/-- Every category, in the order of precedence of the label keywords. -/
def all : List Category :=
  [.db, .cache, .queue, .service, .ui, .gateway, .external, .ai, .storage, .user, .orchestrator]

/-- The canonical spelling. -/
def name : Category → String
  | .db => "db"
  | .cache => "cache"
  | .queue => "queue"
  | .service => "service"
  | .ui => "ui"
  | .gateway => "gateway"
  | .external => "external"
  | .ai => "ai"
  | .storage => "storage"
  | .user => "user"
  | .orchestrator => "orchestrator"

/-- A second spelling that means the same category, where there is one. -/
def otherName? : Category → Option String
  | .db => some "database"
  | .ui => some "frontend"
  | .ai => some "agent"
  | .user => some "actor"
  | .orchestrator => some "orchestration"
  | _ => none

/-- A token that names no category, trimmed and in lower case. -/
structure Unknown where
  token : String
deriving DecidableEq, Repr

/-- The category a token names: blanks around it and the case of its letters do not matter. -/
def parse (token : String) : Except Unknown Category :=
  let word := String.ofList (Text.lower (Text.trim token.toList))
  match all.find? fun c => c.name == word || c.otherName? == some word with
  | some c => .ok c
  | none => .error ⟨word⟩

end Category

end Whiteboard
