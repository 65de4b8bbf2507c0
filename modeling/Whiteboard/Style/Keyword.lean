/-
Keywords: words in a label that tell what a node stands for.

Each category has a group of keywords; a label belongs to the first category, in the order of
`Category.all`, one of whose keywords occurs in it. A keyword occurs as a word of its own, a stem at
the beginning of a word; the case of its letters does not matter.
-/

import Whiteboard.Diagram.Category
import Whiteboard.Text.Word

namespace Whiteboard

inductive Keyword where
  /-- A word that stands for itself only. -/
  | whole (letters : String)
  /-- The beginning of a word that may go on in any way. -/
  | stem (letters : String)
deriving DecidableEq, Repr

namespace Keyword

open Text

def letters : Keyword → List Char
  | whole w => w.toList
  | stem w => w.toList

/-- A character reads as the lower-case `letter`: it is that letter, its capital, or one of the two
signs that are folded to `s` and `k`. -/
def readsAs (letter c : Char) : Bool :=
  c.toLower == letter || (letter == 's' && c == '\u017f') || (letter == 'k' && c == '\u212a')

/-- What follows the letters of a keyword at the front of a text. -/
def after? : (letters cs : List Char) → Option (List Char)
  | [], cs => some cs
  | _ :: _, [] => none
  | l :: letters, c :: cs => if readsAs l c then after? letters cs else none

/-- The keyword stands at the front of a text, up to the end of a word unless it is a stem. -/
def standsAt (k : Keyword) (cs : List Char) : Bool :=
  match k, after? k.letters cs with
  | _, none => false
  | whole _, some rest => !startsInWord rest
  | stem _, some _ => true

/-- The keyword stands somewhere in the text, not inside a word; `inWord` says whether a word
character comes right before the text. -/
def standsIn (k : Keyword) : (inWord : Bool) → List Char → Bool
  | inWord, [] => !inWord && k.standsAt []
  | inWord, c :: cs => (!inWord && k.standsAt (c :: cs)) || k.standsIn (isWord c) cs

def occursIn (k : Keyword) (label : List Char) : Bool :=
  k.standsIn false label

end Keyword

namespace Category

open Keyword

def keywords : Category → List Keyword
  | .db => [whole "db", whole "database", whole "datastore", stem "postgres", whole "mysql",
      whole "mariadb", whole "sql", whole "sqlite", stem "mongo", stem "dynamo", whole "cassandra",
      whole "rds", whole "oracle"]
  | .cache => [stem "cache", whole "redis", stem "memcache", whole "cdn", whole "varnish"]
  | .queue => [stem "queue", whole "kafka", stem "rabbit", whole "sqs", whole "sns",
      whole "pub/sub", whole "pubsub", whole "topic", whole "event bus", whole "eventbus",
      whole "broker", whole "nats", stem "stream"]
  | .service => [stem "service", whole "api", whole "server", whole "backend", stem "worker",
      whole "lambda", whole "function", whole "handler", stem "microservice"]
  | .ui => [whole "ui", whole "frontend", whole "front-end", whole "web", whole "webapp",
      whole "app", whole "react", whole "vue", whole "angular", whole "svelte", whole "browser",
      whole "mobile", whole "client", whole "dashboard", whole "spa"]
  | .gateway => [whole "gateway", whole "proxy", whole "load balancer", whole "loadbalancer",
      whole "lb", whole "nginx", whole "envoy", whole "ingress", whole "router", whole "firewall"]
  | .external => [whole "external", whole "third-party", whole "third party", whole "stripe",
      whole "twilio", whole "sendgrid", whole "paypal", whole "github", whole "saas",
      whole "vendor", whole "partner"]
  | .ai => [whole "ai", whole "llm", stem "gpt", whole "claude", whole "openai", whole "model",
      stem "agent", whole "ml", whole "inference", stem "embedding", whole "rag"]
  | .storage => [whole "storage", whole "s3", whole "bucket", whole "blob", whole "file system",
      whole "filesystem", whole "files", whole "disk", whole "volume", whole "object store",
      whole "objectstore"]
  | .user => [stem "user", stem "customer", whole "actor", whole "person", whole "people",
      whole "admin", whole "human", whole "operator"]
  | .orchestrator => [stem "orchestrat", whole "scheduler", stem "workflow", whole "coordinator",
      whole "airflow", whole "temporal", whole "k8s", whole "kubernetes", whole "controller"]

/-- The first category with a keyword in the label. -/
def ofLabel? (label : String) : Option Category :=
  all.find? fun c => c.keywords.any (·.occursIn label.toList)

end Category

end Whiteboard
