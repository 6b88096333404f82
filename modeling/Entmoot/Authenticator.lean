/-
# `Entmoot.Authenticator` — who a connection is

`crates/entmoot-core/src/auth.rs` 8–47.  The users of the configuration become a map
from names to password hashes, so that of two entries with one name the later counts.
A login with a user name needs the password of that user; without a name the client is
anonymous, if that is allowed.  The digest is the parameter `sha256`.

`serve` attaches a session only for an identity that was established, by a client
certificate or in this way (`attach_authenticated`).
-/
import Entmoot.Cleanup

namespace Entmoot

open Traced

/-! ## Configuration -/

structure UserCred where
  name : Str
  /-- hexadecimal, in either case -/
  passwordSha256 : Str
  deriving DecidableEq, Repr

structure AuthConfig where
  allowAnonymous : Bool := true
  defaultPolicy : Policy := .allow
  users : List UserCred := []
  deriving DecidableEq, Repr

/-- `str::to_lowercase` of ASCII letters; no other character becomes a hexadecimal
digit, and only those are compared with. -/
def toLowercase (s : Str) : Str := s.map Char.toLower

def sha256Hex (sha256 : Bytes → Bytes) (s : Str) : Str := (sha256 (asBytes s)).flatMap hexByte

structure Authenticator where
  users : AList fun _ : Str => Str
  allowAnonymous : Bool

namespace Authenticator

def new (cfg : AuthConfig) : Authenticator :=
  ⟨Keyed.insertAll ∅ (cfg.users.map fun u => (u.name, toLowercase u.passwordSha256)),
    cfg.allowAnonymous⟩

/-- The identity of a client without a user name. -/
def anonymous (a : Authenticator) : Except ConnectDenied Str :=
  if a.allowAnonymous then .ok [] else .error .anonymousNotAllowed

def authenticate (a : Authenticator) (sha256 : Bytes → Bytes) :
    Option (Str × Str) → Except ConnectDenied Str
  | some (user, password) =>
      if user = [] then a.anonymous
      else
        match a.users.lookup user with
        | some stored => if stored = sha256Hex sha256 password then .ok user
            else .error .badCredentials
        | none => .error .badCredentials
  | none => a.anonymous

end Authenticator

/-! ## What the configuration says of a login -/

/-- The hash that counts for a user: that of the last entry with the name. -/
def AuthConfig.hashOf (cfg : AuthConfig) (user : Str) : Option Str :=
  (cfg.users.filter fun u => u.name = user).getLast?.map UserCred.passwordSha256

/-- The login proves the identity: the password of a user, or no name where none is
needed. -/
def AuthConfig.Proves (cfg : AuthConfig) (sha256 : Bytes → Bytes) (login : Option (Str × Str))
    (identity : Str) : Prop :=
  (identity = [] ∧ cfg.allowAnonymous = true ∧ ∀ l, login = some l → l.1 = []) ∨
    identity ≠ [] ∧ ∃ password hash, login = some (identity, password) ∧
      cfg.hashOf identity = some hash ∧ toLowercase hash = sha256Hex sha256 password

namespace Authenticator

variable {cfg : AuthConfig} {sha256 : Bytes → Bytes}

theorem lookup_new (cfg : AuthConfig) (user : Str) :
    (new cfg).users.lookup user = (cfg.hashOf user).map toLowercase := by
  have hlast : ∀ us : List UserCred,
      Keyed.lastValue user (us.map fun u => (u.name, toLowercase u.passwordSha256)) =
        ((us.filter fun u => u.name = user).getLast?.map UserCred.passwordSha256).map
          toLowercase := by
    intro us
    rw [Keyed.lastValue, List.filter_map, List.getLast?_map, Option.map_map, Option.map_map]
    rfl
  rw [new, Keyed.lookup_insertAll, hlast, AList.lookup_empty, Option.or_none]
  rfl

theorem anonymous_iff {identity : Str} :
    (new cfg).anonymous = .ok identity ↔ identity = [] ∧ cfg.allowAnonymous = true := by
  rw [anonymous]
  constructor
  · intro h
    split at h
    · next hallow =>
      cases h
      exact ⟨rfl, hallow⟩
    · cases h
  · rintro ⟨rfl, hallow⟩
    exact if_pos hallow

/-- A login is accepted exactly as the identity it proves. -/
theorem authenticate_iff {login : Option (Str × Str)} {identity : Str} :
    (new cfg).authenticate sha256 login = .ok identity ↔ cfg.Proves sha256 login identity := by
  cases login with
  | none =>
      rw [authenticate, anonymous_iff, AuthConfig.Proves]
      constructor
      · exact fun h => .inl ⟨h.1, h.2, fun _ hl => (by cases hl)⟩
      · rintro (⟨hid, hallow, -⟩ | ⟨-, _, _, hl, -⟩)
        · exact ⟨hid, hallow⟩
        · cases hl
  | some login =>
      obtain ⟨user, password⟩ := login
      by_cases huser : user = []
      · rw [authenticate, if_pos huser, anonymous_iff, AuthConfig.Proves]
        constructor
        · refine fun h => .inl ⟨h.1, h.2, fun l hl => ?_⟩
          cases hl
          exact huser
        · rintro (⟨hid, hallow, -⟩ | ⟨hid, _, _, hl, -⟩)
          · exact ⟨hid, hallow⟩
          · cases hl
            exact absurd huser hid
      · rw [authenticate, if_neg huser, lookup_new, AuthConfig.Proves]
        constructor
        · intro h
          cases hhash : cfg.hashOf user with
          | none =>
              rw [hhash] at h
              cases h
          | some hash =>
              rw [hhash] at h
              simp only [Option.map_some] at h
              split at h
              · next heq =>
                cases h
                exact .inr ⟨huser, password, hash, rfl, hhash, heq⟩
              · cases h
        · rintro (⟨-, -, hall⟩ | ⟨-, _, hash, hl, hhash, heq⟩)
          · exact absurd (hall _ rfl) huser
          · cases hl
            rw [hhash]
            exact if_pos heq

end Authenticator

/-! ## The way to `attach` -/

/-- The identity a CONNECT is given: that of the certificate, or one its login proves. -/
def ServeEnv.Identified (cfg : AuthConfig) (sha256 : Bytes → Bytes) (env : ServeEnv) (c : Connect)
    (identity : Str) : Prop :=
  env.certIdentity = some identity ∨
    env.certIdentity = none ∧ cfg.Proves sha256 c.login identity

theorem identify_iff {cfg : AuthConfig} {sha256 : Bytes → Bytes} {env : ServeEnv} {c : Connect}
    {identity : Str}
    (hauth : env.authenticate = (Authenticator.new cfg).authenticate sha256) :
    identify env c = .ok identity ↔ env.Identified cfg sha256 c identity := by
  rw [identify, ServeEnv.Identified, hauth]
  cases env.certIdentity with
  | some cn =>
      constructor
      · intro h
        cases h
        exact .inl rfl
      · rintro (h | ⟨h, -⟩)
        · cases h
          rfl
        · cases h
  | none =>
      constructor
      · exact fun h => .inr ⟨rfl, Authenticator.authenticate_iff.mp h⟩
      · rintro (h | ⟨-, h⟩)
        · cases h
        · exact Authenticator.authenticate_iff.mpr h

theorem refuse_ends {env : ServeEnv} {code : ConnectReturnCode} {s s' : ServeState}
    {r : Except ServeError Unit} {w : List ServeEffect} (h : Ends (refuse env code) s r w s') :
    w = [] ∨ w = [.refused code] := by
  have hreq : Within quiet (require env.refusalSent .socketWrite) := within_require _ _
  rcases ends_bind.mp h with ⟨e, he, -⟩ | ⟨_, w₁, t, w₂, hok, hemit, rfl⟩
  · rw [require] at he
    split at he
    · cases (ends_pure.mp he).1
    · exact .inl (ends_fail.mp he).2.1
  · rw [require] at hok
    split at hok
    · obtain ⟨-, rfl, -⟩ := ends_pure.mp hok
      obtain ⟨-, rfl, -⟩ := ends_emit.mp hemit
      exact .inr rfl
    · cases (ends_fail.mp hok).1

/-- `serve` lets a CONNECT in under the identity it is given, or shows a refusal at most. -/
theorem serve_cases {env : ServeEnv} {s s' : ServeState} {r : Except ServeError Unit}
    {w : List ServeEffect} (h : Ends (serve env) s r w s') :
    (∃ c identity, env.first = .packet (.connect c) ∧ env.admitted = true ∧
      identify env c = .ok identity ∧ Ends (serveClient env c identity) s r w s') ∨
    (w = [] ∨ ∃ code, w = [.refused code]) ∧
      ∀ c identity, env.first = .packet (.connect c) → env.admitted = true →
        identify env c ≠ .ok identity := by
  have hrefused : ∀ {code}, Ends (refuse env code) s r w s' → w = [] ∨
      ∃ code, w = [.refused code] :=
    fun h => (refuse_ends h).imp_right fun hw => ⟨_, hw⟩
  cases hfirst : env.first with
  | timedOut | failed =>
      simp only [serve, hfirst] at h
      exact .inr ⟨.inl (ends_fail.mp h).2.1, fun c identity hc => by cases hc⟩
  | packet p =>
      cases p with
      | connect c =>
          cases hadmitted : env.admitted with
          | false =>
              simp only [serve, hfirst, hadmitted] at h
              exact .inr ⟨hrefused h, fun _ _ _ h => by cases h⟩
          | true =>
              cases hid : identify env c with
              | ok identity =>
                  simp only [serve, hfirst, hadmitted, hid, if_true] at h
                  exact .inl ⟨c, identity, rfl, rfl, hid, h⟩
              | error denied =>
                  have hnone : ∀ c' identity, FirstRead.packet (.connect c) =
                      .packet (.connect c') →
                      true = true → identify env c' ≠ .ok identity := by
                    intro c' identity hc _ hok
                    cases hc
                    rw [hid] at hok
                    cases hok
                  cases denied with
                  | badCredentials | anonymousNotAllowed =>
                      simp only [serve, hfirst, hadmitted, hid, if_true] at h
                      exact .inr ⟨hrefused h, hnone⟩
      | publish _ | pubAck _ | pubRec _ | pubRel _ | pubComp _ | subscribe _ _ | unsubscribe _ _
      | pingReq
      | disconnect | ofServer _ =>
          simp only [serve, hfirst] at h
          exact .inr ⟨.inl (ends_fail.mp h).2.1, fun c identity hc => by cases hc⟩

theorem serveClient_attaches {env : ServeEnv} {c : Connect} {identity : Str} {s s' : ServeState}
    {r : Except ServeError Unit} {w : List ServeEffect}
    (h : Ends (serveClient env c identity) s r w s') :
    attaches w = [((sessionName env c).1, identity, (sessionName env c).2)] := by
  obtain ⟨w₀, w₁, hw₀, hw₁, hcase⟩ := serveClient_ends h
  obtain ⟨-, -, -, ha₀, -⟩ := quiet_shows hw₀
  obtain ⟨-, -, -, ha₁, -⟩ := quiet_shows hw₁
  rcases hcase with ⟨-, rfl⟩ | ⟨-, rfl | rfl⟩
  · show _ :: attaches w₀ = _
    rw [ha₀]
  · show _ :: attaches (w₀ ++ _) = _
    rw [attaches_append, ha₀]
    rfl
  · show _ :: attaches (w₀ ++ .fireWill c.lastWill :: (w₁ ++ _)) = _
    rw [attaches_append, ha₀]
    show _ :: attaches (w₁ ++ _) = _
    rw [attaches_append, ha₁]
    rfl

theorem mem_attaches {w : List ServeEffect} {clientId identity : Str} {clean : Bool} :
    (clientId, identity, clean) ∈ attaches w ↔ .attach clientId identity clean ∈ w := by
  rw [attaches, List.mem_filterMap]
  constructor
  · rintro ⟨e, he, heq⟩
    cases e with
    | attach _ _ _ =>
        cases heq
        exact he
    | refused _ | received _ | send _ | bus _ | event _ _ | activated _ _ | removeSub _
    | abortWriter
    | fireWill _ | detach _ _ _ => cases heq
  · exact fun he => ⟨_, he, rfl⟩

/-- **Nobody is attached unidentified.**  A run attaches a session for an identity
exactly if its CONNECT was admitted and that identity is the one of the certificate or
proved by the login; a run that attaches none does nothing but refuse. -/
theorem attach_authenticated (cfg : AuthConfig) (sha256 : Bytes → Bytes) {env : ServeEnv}
    (hauth : env.authenticate = (Authenticator.new cfg).authenticate sha256) {s s' : ServeState}
    {r : Except ServeError Unit} {w : List ServeEffect} (h : Ends (serve env) s r w s') :
    (∀ identity, (∃ clientId clean, .attach clientId identity clean ∈ w) ↔
      ∃ c, env.first = .packet (.connect c) ∧ env.admitted = true ∧
        env.Identified cfg sha256 c identity) ∧
    (attaches w = [] → w = [] ∨ ∃ code, w = [.refused code]) := by
  rcases serve_cases h with ⟨c, u, hfirst, hadmitted, hid, hserve⟩ | ⟨hw, hnone⟩
  · have hatt := serveClient_attaches hserve
    refine ⟨fun identity => ⟨?_, ?_⟩, fun hnil => absurd (hatt.symm.trans hnil)
      (List.cons_ne_nil _ _)⟩
    · rintro ⟨clientId, clean, hmem⟩
      rw [← mem_attaches, hatt, List.mem_singleton] at hmem
      cases hmem
      exact ⟨c, hfirst, hadmitted, (identify_iff hauth).mp hid⟩
    · rintro ⟨c', hfirst', -, hid'⟩
      rw [hfirst] at hfirst'
      cases hfirst'
      rw [(identify_iff hauth).mpr hid'] at hid
      cases hid
      refine ⟨(sessionName env c).1, (sessionName env c).2, mem_attaches.mp ?_⟩
      rw [hatt]
      exact List.mem_cons_self
  · refine ⟨fun identity => ⟨?_, ?_⟩, fun _ => hw⟩
    · rintro ⟨clientId, clean, hmem⟩
      rcases hw with rfl | ⟨code, rfl⟩
      · cases hmem
      · cases List.mem_singleton.mp hmem
    · rintro ⟨c, hfirst, hadmitted, hid⟩
      exact absurd ((identify_iff hauth).mpr hid) (hnone c identity hfirst hadmitted)

/-- A login of the user `plc1`, whose hash is given in capitals. -/
def plcLogin : ServeEnv :=
  { returning [] with
    first := .packet (.connect ⟨60, "dev".toList, false, none,
      some ("plc1".toList, "secret".toList)⟩)
    authenticate := (Authenticator.new ⟨false, .deny, [⟨"plc1".toList, "AB".toList⟩]⟩).authenticate
      fun _ => [171] }

theorem plc_is_attached :
    ∃ r w s', Ends (serve plcLogin) ⟨0, 0, none, []⟩ r w s' ∧
      (∃ clientId clean, .attach clientId "plc1".toList clean ∈ w) ∧
      ¬ ∃ clientId clean, .attach clientId [] clean ∈ w := by
  have h : Ends (serve plcLogin) ⟨0, 0, none, []⟩ (.error .writerClosed)
      [.attach "dev".toList "plc1".toList false] ⟨0, 0, none, []⟩ := rfl
  have hauth : plcLogin.authenticate =
      (Authenticator.new ⟨false, .deny, [⟨"plc1".toList, "AB".toList⟩]⟩).authenticate
        fun _ => [171] := rfl
  have hiff := (attach_authenticated _ _ hauth h).1
  refine ⟨_, _, _, h, (hiff _).mpr ⟨_, rfl, rfl, .inr ⟨rfl, .inr ⟨by decide, _, _, rfl, rfl, rfl⟩⟩⟩,
    ?_⟩
  rw [hiff]
  rintro ⟨c, hc, -, hid | ⟨-, ⟨-, hallow, -⟩ | ⟨hne, -⟩⟩⟩
  · cases hid
  · cases hallow
  · exact hne rfl

end Entmoot
