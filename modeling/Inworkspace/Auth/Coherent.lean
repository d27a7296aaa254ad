import Inworkspace.Auth.Synchronize

/-!
# The cached tokens are those of the stored accounts

Whatever of an account goes into its token (`tokenInputs`), a change of it removes the token from
the cache (`tokenInputs_eq_of_not_invalidatesToken`). So the cached tokens are those of the accounts
as they are stored now (`Coherent`), unless a request that has read the account before caches a token
later. Then the tokens that are served are those of the accounts, too (`serves_accessToken`,
`serves_accessTokenFromAccount`). A token can be older than a change of a role or a tenant, or than
the expiry of a credential; `servers` are the servers, with their roles and tenants, that there have
been.
-/

namespace Inworkspace

open Lib.KeyedList Lib.Stateful Account Function List Option

/-! ## What goes into a token -/

/-- What of an account goes into its token. -/
inductive TokenInputs where
  | user (memberTenantId : Option ℕ) (memberGroupIds : List ℕ)
      (credentials : List Credential) (roles : UserRoles)
      (permissions : Structs.Permissions)
  | group (memberTenantId : Option ℕ) (roles : Roles) (permissions : Structs.Permissions)

namespace Account

variable {current new : Account}

/-- What of the account goes into its token. -/
def tokenInputs : Account → TokenInputs
  | .user account => .user account.memberTenantId account.memberGroupIds account.credentials
      account.roles account.permissions
  | .group account => .group account.memberTenantId account.roles account.permissions

/-- Both are users, or both are groups. -/
def SameKind : Account → Account → Prop
  | .user _, .user _ | .group _, .group _ => True
  | _, _ => False

/-- The ids of the secondary credentials are distinct, and not that of the main password. -/
structure DistinctCredentials (account : Account) : Prop where
  nodup : (account.secondaryCredentials.map fun c => documentId c.credentialId).Nodup
  ne_main : ∀ c ∈ account.secondaryCredentials, documentId c.credentialId ≠ u32Max

theorem credentials_eq_of_tokenInputs_eq {account account' : Account}
    (h : account.tokenInputs = account'.tokenInputs) :
    account.credentials = account'.credentials := by
  cases account <;> cases account' <;> simp_all [tokenInputs, credentials]

end Account

/-- An account is invalidated whenever something changes that goes into its token. -/
theorem AuthState.tokenInputs_eq_of_not_invalidatesToken
    (hkind : current.SameKind new) (h : invalidatesToken current new = false) :
    current.tokenInputs = new.tokenInputs := by
  cases current <;> cases new <;> simp_all [SameKind, tokenInputs, invalidatesToken]

/-- The token was built from what goes into it, at some time and with the roles and tenants of one
    of the servers. -/
def TokenOf (env : AuthEnv) (servers : List Server) (now id : ℕ) (account : Account)
    (token : AccessTokenInner) : Prop :=
  ∃ call : TokenCall, call.server ∈ servers ∧ call.now ≤ now ∧ call.accountId = id ∧
    call.account.tokenInputs = account.tokenInputs ∧ call.build env.xxh3 env.ahash = .ok token

variable {env : AuthEnv} {servers : List Server}

namespace TokenOf

variable {now id : ℕ} {account account' : Account} {token : AccessTokenInner}

section

variable (h : TokenOf env servers now id account token)

include h

theorem congr (hinputs : account.tokenInputs = account'.tokenInputs) :
    TokenOf env servers now id account' token := by
  obtain ⟨call, hserver, hcall, hid, hinputs', hbuilt⟩ := h
  exact ⟨call, hserver, hcall, hid, hinputs'.trans hinputs, hbuilt⟩

theorem accountId_eq : token.accountId = id := by
  obtain ⟨call, -, -, rfl, -, hbuilt⟩ := h
  obtain ⟨-, -, -, -, hid, -⟩ := Server.buildAccessToken_ok hbuilt
  exact hid

end

end TokenOf

/-! ## Coherence -/

/-- The accounts have distinct ids, and the cached tokens are those of the stored accounts. -/
structure AuthState.Coherent (servers : List Server) (st : AuthState env) : Prop where
  keys : (st.accounts.map Prod.fst).Nodup
  credentials : ∀ id account, st.accounts.lookup id = some account → account.DistinctCredentials
  server_mem : st.server ∈ servers
  cached : ∀ id entry, st.cache id = some entry →
    ∃ account, st.accounts.lookup id = some account ∧
      TokenOf env servers st.now id account entry.token

namespace AuthState

variable {st st' : AuthState env}

section

variable (h : st.Coherent servers) (id : ℕ)

include h

/-- The cache may be filled with a new token. -/
theorem Coherent.update_cache {id : ℕ} {account : Account}
    (hlookup : st.accounts.lookup id = some account) {entry : CachedToken env.xxh3 env.ahash}
    (hentry : TokenOf env servers st.now id account entry.token) :
    Coherent servers { st with cache := update st.cache id (some entry) } := by
  refine ⟨h.keys, h.credentials, h.server_mem, fun id' entry' hentry' => ?_⟩
  obtain rfl | hne := eq_or_ne id' id
  · obtain rfl := mem_unique (update_self id' _ _) hentry'
    exact ⟨account, hlookup, hentry⟩
  · exact h.cached id' entry' ((update_of_ne hne _ _).symm.trans hentry')

/-- The credentials stay distinct when an account is stored. -/
theorem Coherent.credentials_upsert {id id' : ℕ} {new account : Account}
    (hnew : new.DistinctCredentials)
    (haccount : (upsert st.accounts id new).lookup id' = some account) :
    account.DistinctCredentials := by
  obtain rfl | hne := eq_or_ne id' id
  · obtain rfl := mem_unique (lookup_upsert_self st.accounts id' new) haccount
    exact hnew
  · exact h.credentials id' account ((lookup_upsert_of_ne st.accounts new hne).symm.trans haccount)

/-- An account may be updated, as tokens are invalidated. -/
theorem Coherent.updateAccount {id : ℕ}
    (hlookup : st.accounts.lookup id = some current) (hkind : current.SameKind new)
    (hnew : new.DistinctCredentials) : (st.updateAccount id current new).Coherent servers := by
  refine ⟨nodup_upsert h.keys id new, fun _ _ => h.credentials_upsert hnew, h.server_mem,
    fun id' entry hentry => ?_⟩
  simp only [AuthState.updateAccount] at hentry ⊢
  obtain rfl | hne := eq_or_ne id' id
  · refine ⟨new, lookup_upsert_self st.accounts id' new, ?_⟩
    split at hentry
    · cases (update_self id' _ _).symm.trans hentry
    rename_i hinv
    obtain ⟨account, haccount, htoken⟩ := h.cached id' entry hentry
    obtain rfl := mem_unique hlookup haccount
    exact htoken.congr (tokenInputs_eq_of_not_invalidatesToken hkind (Bool.eq_false_iff.mpr hinv))
  · rw [lookup_upsert_of_ne st.accounts new hne]
    refine h.cached id' entry ?_
    split at hentry
    · exact (update_of_ne hne _ _).symm.trans hentry
    · exact hentry

/-- An account may be created. -/
theorem Coherent.insertAccount {new : Account} (hnew : new.DistinctCredentials) :
    (st.insertAccount new).Coherent servers := by
  refine ⟨nodup_upsert h.keys _ new, fun _ _ => h.credentials_upsert hnew, h.server_mem,
    fun id entry hentry => ?_⟩
  obtain ⟨account, haccount, htoken⟩ := h.cached id entry hentry
  have hne : id ≠ st.nextId := by
    rintro rfl
    cases (lookup_nextId st).symm.trans haccount
  exact ⟨account, (lookup_upsert_of_ne st.accounts new hne).trans haccount, htoken⟩

end

end AuthState

/-! ## The tokens that are served -/

section Tokens

variable {st st' : AuthState env} {id : ℕ} {account : Account} {token : AccessTokenInner}

/-- A token is built for an account and cached. -/
theorem AuthState.Coherent.insertNew (h : st.Coherent servers)
    (hlookup : st.accounts.lookup id = some account) {cache : TokenCache env.xxh3 env.ahash}
    (hnew : st.cache.insertNew (st.call id account) = .ok (token, cache)) :
    Coherent servers { st with cache } ∧ TokenOf env servers st.now id account token := by
  obtain ⟨hbuild, rfl⟩ := TokenCache.insertNew_ok hnew
  have htoken : TokenOf env servers st.now id account token :=
    ⟨st.call id account, h.server_mem, le_rfl, rfl, rfl, hbuild⟩
  exact ⟨h.update_cache hlookup htoken, htoken⟩

/-- A token is served, which may have been put into the cache; or there is none. -/
def AuthState.Serves (servers : List Server) (st : AuthState env)
    (result : EStateM.Result TrcError (AuthState env) AccessTokenInner)
    (P : AccessTokenInner → Prop) : Prop :=
  (∃ token cache, result = .ok token { st with cache } ∧
      AuthState.Coherent servers { st with cache } ∧ P token) ∨ ∃ e, result = .error e st

section Serves

variable {result : EStateM.Result TrcError (AuthState env) AccessTokenInner}
  {P : AccessTokenInner → Prop} (h : st.Serves servers result P)

include h

theorem AuthState.Serves.ok (hok : result = .ok token st') :
    P token ∧ st'.Coherent servers ∧ ∃ cache, st' = { st with cache } := by
  obtain ⟨token', cache, hrun, hcoherent, htoken⟩ | ⟨e, hrun⟩ := h
  · obtain ⟨rfl, rfl⟩ := EStateM.Result.ok.inj (hrun.symm.trans hok)
    exact ⟨htoken, hcoherent, cache, rfl⟩
  · cases hrun.symm.trans hok

end Serves

/-- A token that is served for a stored account is one of the account. -/
theorem serves_accessTokenFromAccount (h : st.Coherent servers)
    (hlookup : st.accounts.lookup id = some account) :
    st.Serves servers (accessTokenFromAccount id account st)
      (TokenOf env servers st.now id account) := by
  cases hserved : st.cache.accessTokenFromAccount (st.call id account) with
  | error e => exact .inr ⟨e, by rw [accessTokenFromAccount, run_get_bind, hserved]; rfl⟩
  | ok result =>
    obtain ⟨token, cache⟩ := result
    refine .inl ⟨token, cache, by rw [accessTokenFromAccount, run_get_bind, hserved]; rfl, ?_⟩
    rcases TokenCache.accessTokenFromAccount_ok hserved with ⟨entry, hentry, rfl, rfl, -⟩ | hnew
    · obtain ⟨account', haccount', htoken⟩ := h.cached id entry hentry
      obtain rfl := mem_unique hlookup haccount'
      exact ⟨h, htoken⟩
    · exact h.insertNew hlookup hnew

/-- A token that is served is one of the stored account, or that of the recovery administrator. -/
theorem serves_accessToken (h : st.Coherent servers) (id : ℕ) :
    st.Serves servers (accessToken id st) fun token =>
      (∃ account, st.accounts.lookup id = some account ∧
        TokenOf env servers st.now id account token) ∨
      (st.accounts.lookup id = none ∧ id = recoveryAdminId ∧ token = .newAdmin) := by
  cases hentry : st.cache id with
  | some entry =>
    obtain ⟨account, haccount, htoken⟩ := h.cached id entry hentry
    exact .inl ⟨entry.token, st.cache, by rw [accessToken, run_get_bind, hentry]; rfl, h,
      .inl ⟨account, haccount, htoken⟩⟩
  | none =>
    cases haccount : st.accounts.lookup id with
    | some account =>
      cases hnew : st.cache.insertNew (st.call id account) with
      | error e =>
        exact .inr ⟨e, by rw [accessToken, run_get_bind, hentry, haccount]; simp only [hnew]; rfl⟩
      | ok result =>
        obtain ⟨token, cache⟩ := result
        obtain ⟨hcoherent, htoken⟩ := h.insertNew haccount hnew
        exact .inl ⟨token, cache,
          by rw [accessToken, run_get_bind, hentry, haccount]; simp only [hnew]; rfl, hcoherent,
          .inl ⟨account, rfl, htoken⟩⟩
    | none =>
      by_cases hid : id = recoveryAdminId
      · exact .inl ⟨.newAdmin, st.cache,
          by rw [accessToken, run_get_bind, hentry, haccount]; simp only [hid]; rfl, h,
          .inr ⟨rfl, hid, rfl⟩⟩
      · exact .inr ⟨_, by rw [accessToken, run_get_bind, hentry, haccount]; simp only [hid]; rfl⟩

/-- A token that is served for an id has this id. -/
theorem accountId_of_accessToken (h : st.Coherent servers) (hok : accessToken id st = .ok token st') :
    token.accountId = id := by
  obtain ⟨⟨account, -, htoken⟩ | ⟨-, rfl, rfl⟩, -⟩ := (serves_accessToken h id).ok hok
  · exact htoken.accountId_eq
  · rfl

end Tokens

/-! ## Synchronisation -/

section Synchronize

open AuthState

/-- Accounts may have been added. -/
structure AuthState.Extends (st st' : AuthState env) : Prop where
  lookup : ∀ id account, st.accounts.lookup id = some account →
    st'.accounts.lookup id = some account
  server_eq : st'.server = st.server
  now_eq : st'.now = st.now

theorem AuthState.Extends.refl (st : AuthState env) : st.Extends st := ⟨fun _ _ h => h, rfl, rfl⟩

variable {st st' : AuthState env} {account : Account} {id : ℕ} {current : UserAccount}

theorem AuthState.Extends.trans {st'' : AuthState env} (h : st.Extends st')
    (h' : st'.Extends st'') : st.Extends st'' :=
  ⟨fun id account ha => h'.lookup id account (h.lookup id account ha),
    h'.server_eq.trans h.server_eq, h'.now_eq.trans h.now_eq⟩

theorem AuthState.extends_insertAccount (new : Account) : st.Extends (st.insertAccount new) := by
  refine ⟨fun id account h => ?_, rfl, rfl⟩
  have hne : id ≠ st.nextId := by
    rintro rfl
    cases (lookup_nextId st).symm.trans h
  exact (lookup_upsert_of_ne st.accounts new hne).trans h

/-- Accounts may have been added since, and the tokens are coherent. -/
def AuthState.Grown (servers : List Server) (st st' : AuthState env) : Prop :=
  st.Extends st' ∧ st'.Coherent servers

theorem keeps_assertCanCreateAccount :
    Keeps (Grown servers st) (assertCanCreateAccount : AuthM env Unit) := by
  refine .bind .get fun st => ?_
  split
  · exact .throw _
  · exact .pure ()

theorem keeps_writeInsert (h : account.DistinctCredentials) :
    Keeps (Grown servers st) (writeInsert account : AuthM env ℕ) := by
  refine .bind_get fun st hst => ?_
  split
  · exact hst
  · exact ⟨hst.1.trans (extends_insertAccount account), hst.2.insertAccount h⟩

theorem keeps_synchronizeGroup {email : String} :
    Keeps (Grown servers st) (synchronizeGroup email : AuthM env ℕ) := by
  refine .bind (.ofExcept _) fun address => .bind .get fun st => ?_
  split
  · split
    · exact .pure _
    · exact .throw _
    · exact .throw _
  · exact .bind keeps_assertCanCreateAccount fun _ =>
      keeps_writeInsert ⟨nodup_nil, fun _ h => absurd h not_mem_nil⟩

theorem keeps_synchronizeGroups {emails : List String} :
    Keeps (Grown servers st) (synchronizeGroups emails : AuthM env (List ℕ)) := by
  induction emails with
  | nil => exact .pure _
  | cons email emails ih =>
    exact .bind keeps_synchronizeGroup fun _ => .bind ih fun _ => .pure _

theorem keeps_synchronizeGroups? (emails : Option (List String)) :
    Keeps (Grown servers st) (emails.mapM synchronizeGroups : AuthM env (Option (List ℕ))) := by
  cases emails with
  | none => exact .pure _
  | some emails => exact .bind keeps_synchronizeGroups fun _ => .pure _

/-- The account found by an address has the address. -/
theorem AuthState.Coherent.mem_addresses (h : st.Coherent servers) {localPart : String}
    {domainId : ℕ} (hid : st.accountIdFromParts localPart domainId = some id)
    (haccount : st.accounts.lookup id = some account) :
    (localPart, domainId) ∈ account.addresses := by
  obtain ⟨e, he, rfl⟩ := map_eq_some_iff.mp hid
  have hmem : (localPart, domainId) ∈ e.2.addresses := by simpa using find?_some he
  have heq : e = (e.1, account) :=
    inj_on_of_nodup_map h.keys (mem_of_find?_eq_some he) (mem_of_lookup haccount) rfl
  rwa [heq] at hmem

/-- What the directory says leaves the ids of the credentials alone. -/
theorem distinctCredentials_updatedAccount
    (h : (user current).DistinctCredentials) (account : DirectoryAccount)
    (aliases : List EmailAlias) (groupIds : Option (List ℕ)) :
    (user (updatedAccount account aliases groupIds current)).DistinctCredentials := by
  obtain ⟨memberGroupIds, credentials, heq, hsecondary⟩ :=
    updatedAccount_eq account aliases groupIds current
  have hsame : (user (updatedAccount account aliases groupIds current)).secondaryCredentials =
        (user current).secondaryCredentials := by
    rw [heq]
    exact hsecondary
  exact ⟨hsame ▸ h.nodup, hsame ▸ h.ne_main⟩

theorem distinctCredentials_createdAccount (localPart : String) (domain : DomainCache)
    (account : DirectoryAccount) (aliases : List EmailAlias) (groupIds : List ℕ) :
    (user (createdAccount localPart domain account aliases groupIds)).DistinctCredentials := by
  have hnil : (user
      (createdAccount localPart domain account aliases groupIds)).secondaryCredentials = [] := by
    cases hsecret : account.secret <;> simp [secondaryCredentials, credentials, createdAccount,
        Credential.asSecondaryCredential]
  exact ⟨by simp [hnil], by simp [hnil]⟩

/-- An account that is updated from a directory loses its cached token if need be. -/
theorem synchronizeUpdate_coherent (hst : st.Coherent servers)
    (hcurrent : st.accounts.lookup id = some (.user current)) (account : DirectoryAccount)
    (aliases : List EmailAlias) :
    (stateOf (synchronizeUpdate account aliases id current st)).Coherent servers := by
  have hgrown := keeps_synchronizeGroups? account.groups st ⟨.refl st, hst⟩
  refine holds_bind hgrown.2 fun groupIds st₁ hgroups => ?_
  obtain ⟨hext, hst₁⟩ : st.Grown servers st₁ := by rwa [hgroups] at hgrown
  split
  · exact hst₁
  have hkind : (user current).SameKind
      (.user (updatedAccount account aliases groupIds current)) := trivial
  have hwrite : (stateOf (writeUpdate id (.user current)
      (.user (updatedAccount account aliases groupIds current)) st₁)).Coherent servers := by
    rw [writeUpdate]
    split
    · exact hst₁
    · exact hst₁.updateAccount (hext.lookup _ _ hcurrent) hkind
        (distinctCredentials_updatedAccount (hst.credentials _ _ hcurrent) account aliases groupIds)
  exact holds_bind hwrite fun _ st₂ h => by rwa [h] at hwrite

/-- Synchronising an account keeps the tokens coherent. -/
theorem keeps_synchronizeAccount (account : DirectoryAccount) :
    Keeps (Coherent servers) (synchronizeAccount account : AuthM env _) := by
  refine .bind (.ofExcept _) fun ⟨localPart, domain⟩ => .bind_get fun st hst => ?_
  cases hid : st.accountIdFromParts localPart domain.id with
  | some id =>
    rcases haccount : st.accounts.lookup id with _ | current | _ <;> simp only [haccount]
    · exact hst
    · exact synchronizeUpdate_coherent hst haccount account _
    · exact hst
  | none =>
    refine (Keeps.bind keeps_synchronizeGroups (fun groupIds => ?_) st ⟨.refl st, hst⟩).2
    exact .bind keeps_assertCanCreateAccount fun _ => .bind
      (keeps_writeInsert (distinctCredentials_createdAccount _ _ _ _ _)) fun _ => .pure _

/-- What a directory says of an account is stored, under the address it knows it by. -/
theorem synchronizeAccount_ok (hst : st.Coherent servers) {directoryAccount : DirectoryAccount}
    (h : synchronizeAccount directoryAccount st = .ok (id, account) st') :
    st'.accounts.lookup id = some account ∧ st'.now = st.now ∧ st'.server = st.server ∧
      ∃ localPart domain, env.validateAddress directoryAccount.email = .ok (localPart, domain) ∧
        (localPart, domain.id) ∈ account.addresses := by
  obtain ⟨⟨localPart, domain⟩, _, hvalidate, h⟩ := bind_eq_ok_iff.mp h
  obtain ⟨haddress, rfl⟩ := ofExcept_eq_ok_iff.mp hvalidate
  have h := get_bind_eq_ok_iff.mp h
  cases hid : st.accountIdFromParts localPart domain.id with
  | some id' =>
    rcases haccount : st.accounts.lookup id' with _ | current | _ <;> simp only [hid, haccount] at h
    · cases h
    · obtain ⟨groupIds, st₁, hgroups, hupdate⟩ := bind_eq_ok_iff.mp h
      have hext := ((keeps_synchronizeGroups? _).of_eq_ok ⟨.refl st, hst⟩ hgroups).1
      have hmem := hst.mem_addresses hid haccount
      -- nothing is written if the directory says what is stored
      split at hupdate
      · obtain ⟨⟨⟩, rfl⟩ := pure_eq_ok_iff.mp hupdate
        exact ⟨hext.lookup _ _ haccount, hext.now_eq, hext.server_eq, localPart, domain, haddress,
          hmem⟩
      · obtain ⟨⟨⟩, st₂, hwrite, hresult⟩ := bind_eq_ok_iff.mp hupdate
        obtain ⟨⟨⟩, rfl⟩ := pure_eq_ok_iff.mp hresult
        rw [writeUpdate] at hwrite
        split at hwrite <;> cases hwrite
        exact ⟨lookup_upsert_self _ _ _, hext.now_eq, hext.server_eq, localPart, domain, haddress,
          mem_addresses_updatedAccount _ _ _ hmem⟩
    · cases h
  | none =>
    simp only [hid] at h
    obtain ⟨groupIds, st₁, hgroups, h⟩ := bind_eq_ok_iff.mp h
    have hext := (keeps_synchronizeGroups.of_eq_ok ⟨.refl st, hst⟩ hgroups).1
    obtain ⟨⟨⟩, st₂, hassert, hcreate⟩ := bind_eq_ok_iff.mp h
    rw [assertCanCreateAccount, run_get_bind] at hassert
    split at hassert <;> cases hassert
    obtain ⟨id', st₃, hinsert, hresult⟩ := bind_eq_ok_iff.mp hcreate
    rw [writeInsert] at hinsert
    split at hinsert <;> cases hinsert
    obtain ⟨⟨⟩, rfl⟩ := pure_eq_ok_iff.mp hresult
    refine ⟨lookup_upsert_self _ _ _, hext.now_eq, hext.server_eq, localPart, domain, haddress, ?_⟩
    exact mem_cons.mpr (.inl (Prod.ext rfl (documentId_of_lt domain.id_lt).symm))

end Synchronize

end Inworkspace
