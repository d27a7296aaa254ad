import Inworkspace.Auth.Soundness

/-!
# Requests

Authentication is sound as long as the cached tokens are those of the stored accounts
(`authenticate_sound`). A request reads the account, waits for its secret to be verified, and then
caches the token; if the account is changed and its token invalidated in between, a token of the old
account stays in the cache. Since the hash of the account does not cover its networks, that token is
served afterwards, to a request from a network that is no longer allowed
(`not_justified_overtaken`).
-/

namespace Inworkspace

open Lib.Stateful AuthState

variable {env : AuthEnv} {servers : List Server}

/-- If the cached tokens are those of the stored accounts, a request is answered with a token for a
    reason only, and the token may authenticate. The directories are ideal, and a token that can be
    opened has been issued. -/
theorem authenticate_sound {st st' : AuthState env} (hst : st.Coherent servers)
    (hideal : env.IdealDirectories st.server.isEnterpriseEdition)
    (hissued : ∀ text raw, env.openToken text = some raw → (text, raw) ∈ st.issued)
    {req : AuthRequest} {token : AccessToken} (h : authenticate req st = .ok token st') :
    Justified servers st req token ∧ token.hasPermission .authenticate = true := by
  obtain ⟨routed, st₁, hroute, hassert⟩ := bind_eq_ok_iff.mp (adaptExcept_eq_ok_iff.mp h)
  have hassert := (ofExcept_eq_ok_iff.mp hassert).1
  rw [AccessToken.assertHasPermission] at hassert
  split at hassert
  · rename_i hpermission
    obtain rfl := Except.ok.inj hassert
    exact ⟨routeAuthRequest_justified hst hideal hissued hroute, hpermission⟩
  · cases hassert

/-! ## Logins -/

namespace Login

/-- The domains of `loginEnv`. -/
def domainA : DomainCache := ⟨1, by decide, ["a.org"], none, none⟩

@[inherit_doc domainA]
def domainB : DomainCache := ⟨2, by decide, ["b.org"], none, none⟩

@[inherit_doc domainA]
def domainC : DomainCache := ⟨3, by decide, ["c.org"], some 1, none⟩

/-- The directory of the third domain, with one account. -/
def directoryC : Directory where
  hasBearerTokenSupport := false
  authenticate credentials :=
    if credentials = .basic "eve@c.org" "pw" none then .ok ⟨"eve@c.org", [], none, none⟩
    else .error ⟨.authFailed, ""⟩
  recipient _ := .ok .invalid

/-- The content of a token that was issued. -/
def issuedToken : RawToken := ⟨.accessToken, 7, none, 0, 10 ^ 8, 5⟩

/-- Three domains, one of them with a directory, and secrets that are stored as they are. -/
def loginEnv : AuthEnv where
  xxh3 _ := 5
  ahash _ := 3
  verifySecretHash hash secret := .ok (asBytes hash == secret)
  checkTotp _ _ := .ok false
  openToken text := if text = "issued" then some issuedToken else none
  decodeUrlSafe _ := some ([0, 0, 0, 7, 0, 0, 0, 1] ++ List.replicate 20 97)
  extractJwtDomain _ := none
  toAsciiDomain := some
  toLowercase c := [c.toLower]
  revision := 0
  domains := [domainA, domainB, domainC]
  defaultDomainId := 1
  defaultDomainName := "a.org"
  directories id := if id = 1 then some directoryC else none
  defaultDirectory := none
  recoveryAdmin := none
  listAddresses := []
  canCreateAccount := true
  refusesWrite _ := false
  isAuthFail2banned _ _ := false

/-- The account `info@a.org`, with the alias `info@b.org`; the directory knows it as `eve@c.org`. -/
def account : Account :=
  .user
    { name := "info"
      domainId := 1
      credentials := [.password ⟨0, "secret", none, none, []⟩]
      memberGroupIds := []
      memberTenantId := none
      roles := .user
      permissions := .replace ⟨[.authenticate], []⟩
      aliases := [⟨true, "info", 2⟩, ⟨true, "office", 1⟩, ⟨true, "eve", 3⟩] }

/-- A server with an account, on which nobody has logged in. -/
def state (account : Account) : AuthState loginEnv :=
  ⟨TokenCache.emptyServer, [(7, account)], fun _ => none, [("issued", issuedToken)], 10 ^ 9⟩

/-- The user logs in with the main password. -/
def request (username : String) : AuthRequest where
  credentials := .basic username "secret" none
  remoteIp := .v4 0x7f000001#32

theorem coherent_state : (state account).Coherent [TokenCache.emptyServer] := by
  refine ⟨List.nodup_singleton _, fun id account h => ?_, List.mem_singleton_self _,
    fun _ entry h => absurd h.symm (Option.some_ne_none entry)⟩
  obtain ⟨-, rfl⟩ := Prod.mk.inj (List.mem_singleton.mp (Lib.KeyedList.mem_of_lookup h))
  exact ⟨List.nodup_nil, nofun⟩

theorem eq_directoryC {directory : Directory} (h : loginEnv.HasDirectory directory) :
    directory = directoryC := by
  rcases h with h | ⟨id, h⟩
  · cases h
  · exact (Option.some.inj (Option.ite_none_right_eq_some.mp h).2).symm

theorem idealDirectories : loginEnv.IdealDirectories true := by
  intro directory hdirectory credentials account localPart domain hauth haddress
  obtain rfl := eq_directoryC hdirectory
  simp only [directoryC] at hauth
  split at hauth
  · obtain rfl := Except.ok.inj hauth
    have hc : loginEnv.validateAddress "eve@c.org" = .ok ("eve", domainC) := rfl
    obtain ⟨-, rfl⟩ := Prod.mk.inj (Except.ok.inj (hc.symm.trans haddress))
    rfl
  · cases hauth

end Login

/-- The main password of a user, that of one of the directory, and a token that was issued. -/
def Login.threeCredentials : List Credentials :=
  [.basic "Info" "secret" none, .basic "eve@c.org" "pw" none, .bearer none "issued"]

theorem authenticate_sound_three :
    (∀ credentials ∈ Login.threeCredentials,
      isOk (authenticate ⟨credentials, .v4 0x7f000001#32⟩ (Login.state Login.account)) = true) ∧
    ∀ credentials ∈ Login.threeCredentials,
      ∃ token, Justified [TokenCache.emptyServer] (Login.state Login.account)
          ⟨credentials, .v4 0x7f000001#32⟩ token ∧
        token.hasPermission .authenticate = true := by
  have hissued : ∀ text raw, Login.loginEnv.openToken text = some raw →
      (text, raw) ∈ (Login.state Login.account).issued := by
    intro text raw hopen
    obtain ⟨rfl, hraw⟩ := Option.ite_none_right_eq_some.mp hopen
    exact List.mem_singleton.mpr (by rw [Option.some.inj hraw])
  have hok : ∀ credentials ∈ Login.threeCredentials,
      isOk (authenticate ⟨credentials, .v4 0x7f000001#32⟩ (Login.state Login.account)) = true := by
    decide +kernel
  refine ⟨hok, fun credentials hcredentials => ?_⟩
  obtain ⟨token, st', htoken⟩ := exists_eq_ok_of_isOk (hok credentials hcredentials)
  exact ⟨token, authenticate_sound Login.coherent_state Login.idealDirectories hissued htoken⟩

/-! ## A request that is overtaken -/

namespace Login

/-- An account with an API key that may be used from the given networks, and no password. -/
def keyAccount (allowedIps : List IpAddrOrMask) : Account :=
  .user
    { name := "info"
      domainId := 1
      credentials := [.apiKey
        ⟨1, String.ofList (List.replicate 20 'a'), none, .inherit, allowedIps⟩]
      memberGroupIds := []
      memberTenantId := none
      roles := .user
      permissions := .replace ⟨[.authenticate], []⟩
      aliases := [] }

/-- The loopback address is the only one that is allowed. -/
def restricted : Account := keyAccount [.fromIp (.v4 0x7f000001#32)]

/-- A request has read the account when the key may be used from everywhere, and waits for its
    secret to be verified. The account is restricted, and its token invalidated. Then the request
    asks for the token of the account it has read. -/
def overtaken : AuthState loginEnv :=
  stateOf (accessTokenFromAccount 7 (keyAccount [])
    ((state (keyAccount [])).updateAccount 7 (keyAccount []) restricted))

/-- A later request with the key, from another address. -/
def keyRequest : AuthRequest := ⟨.bearer none "API_key", .v4 0x0a000001#32⟩

end Login

/-- The later request is answered with a token, for no reason. -/
theorem not_justified_overtaken :
    ∃ token st', authenticate Login.keyRequest Login.overtaken = .ok token st' ∧
      ∀ servers, ¬ Justified servers Login.overtaken Login.keyRequest token := by
  have hok : isOk (authenticate Login.keyRequest Login.overtaken) = true := by decide +kernel
  obtain ⟨token, st', htoken⟩ := exists_eq_ok_of_isOk hok
  refine ⟨token, st', htoken, fun servers hjustified => ?_⟩
  cases hjustified with
  | login hlogin =>
    obtain _ | ⟨hauth, -, -, -, hdirectory⟩ := hlogin
    obtain rfl := Login.eq_directoryC (AuthEnv.hasDirectory_of_cachedDomain hdirectory)
    cases hauth
  | credential _ haccount hc _ _ hip =>
    obtain ⟨-, rfl⟩ := Prod.mk.inj (List.mem_singleton.mp (Lib.KeyedList.mem_of_lookup haccount))
    obtain rfl := List.mem_singleton.mp hc
    revert hip
    decide +kernel
  | issued hbearer hissued =>
    obtain ⟨-, rfl⟩ := Credentials.bearer.inj hbearer
    exact absurd (Prod.mk.inj (List.mem_singleton.mp hissued)).1 (by decide)
  | master hbasic | recoveryAdmin hbasic => cases hbasic

end Inworkspace
