/-
# `Entmoot.Auth` — topic authorization

`crates/entmoot-core/src/auth.rs`.  An identity may subscribe to a filter if the
policy is `allow`, or if some rule for it (or for `*`) grants a filter that
covers the requested one.
-/
import Entmoot.Topic

namespace Entmoot

inductive Policy where
  | allow
  | deny
  deriving DecidableEq, Repr

/-- `AclRule`; the default applies to everyone and grants nothing. -/
structure AclRule where
  user : Str := ['*']
  publish : List Str := []
  subscribe : List Str := []
  deriving DecidableEq, Repr

structure Acl where
  rules : List AclRule
  defaultAllow : Bool
  deriving DecidableEq, Repr

namespace Acl

def new (rules : List AclRule) (policy : Policy) : Acl :=
  ⟨rules, decide (policy = .allow)⟩

def rulesFor (acl : Acl) (user : Str) : List AclRule :=
  acl.rules.filter fun r => r.user = ['*'] || r.user = user

def mayPublish (acl : Acl) (user topicName : Str) : Bool :=
  acl.defaultAllow ||
    (acl.rulesFor user).any fun r => r.publish.any fun pat => topicMatches pat topicName

def maySubscribe (acl : Acl) (user filter : Str) : Bool :=
  acl.defaultAllow ||
    (acl.rulesFor user).any fun r => r.subscribe.any fun pat => filterCovers pat filter

end Acl

end Entmoot
