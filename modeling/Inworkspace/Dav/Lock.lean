import Mathlib.Data.Finset.Sort

/-!
# WebDAV locks

All locks of a collection of an account are in one table. `findLocks` gives the locks that are
about a resource: its own, those of the resources above it that go all the way down, and those of
what is below it. `validateHeaders` checks, before a resource is written, that the token of a lock
is submitted, and evaluates the `If` header. `handleLockRequest` makes, refreshes and removes
locks; it reads the table, and writes it as a whole.

Texts are lists of characters. What other parts of the server say about a URI, the tags of
documents and the state of collections is in `Env`.
-/

namespace Inworkspace.Dav

/-- A text, such as a path. -/
abbrev Text := List Char

/-! ## Names -/

inductive Collection where
  | email | mailbox | thread | identity | emailSubmission | sieveScript | pushSubscription
  | principal | calendar | calendarEvent | addressBook | contactCard | fileNode
  | calendarEventNotification | none
  deriving DecidableEq

namespace Collection

def mainCollection : Collection → Collection
  | email => mailbox
  | calendarEvent => calendar
  | contactCard => addressBook
  | collection => collection

def childCollection : Collection → Option Collection
  | mailbox => some email
  | calendar => some calendarEvent
  | addressBook => some contactCard
  | fileNode => some fileNode
  | calendarEventNotification => some calendarEventNotification
  | _ => Option.none

end Collection

/-- The digits of a number to the base 16, at most `fuel` of them. -/
def hexDigits : (fuel : ℕ) → ℕ → Text
  | 0, _ => []
  | fuel + 1, n =>
    if n < 16 then [Nat.digitChar n] else hexDigits fuel (n / 16) ++ [Nat.digitChar (n % 16)]

/-- The value of a digit to the base 16. -/
def hexValue (c : Char) : Option ℕ :=
  if '0' ≤ c ∧ c ≤ '9' then some (c.toNat - '0'.toNat)
  else if 'a' ≤ c ∧ c ≤ 'f' then some (c.toNat - 'a'.toNat + 10)
  else if 'A' ≤ c ∧ c ≤ 'F' then some (c.toNat - 'A'.toNat + 10)
  else none

/-- `u64::from_str_radix` with the base 16. -/
def fromHex (text : Text) : Option ℕ := do
  let digits := if text.head? = some '+' then text.tail else text
  guard (!digits.isEmpty)
  let value ← digits.foldlM (fun value c => (hexValue c).map (value * 16 + ·)) 0
  guard (value < 2 ^ 64)
  return value

/-- What comes before and after the first separator. -/
def splitOnce (separator : Char) (text : Text) : Option (Text × Text) :=
  if separator ∈ text then
    some (text.takeWhile (· ≠ separator), (text.dropWhile (· ≠ separator)).tail)
  else none

def davLock : Text := "urn:stalwart:davlock:".toList

def davSync : Text := "urn:stalwart:davsync:".toList

/-- `Urn::Lock` as a text. -/
def lockUrn (lockId : ℕ) : Text := davLock ++ hexDigits 16 lockId

/-- `Urn::parse` and `try_unwrap_lock`. -/
def parseLock (token : Text) : Option ℕ :=
  if davLock.isPrefixOf token then fromHex (token.drop davLock.length) else none

/-- Printed hexadecimal digits are read back. -/
theorem foldlM_hexDigits {fuel n : ℕ} (h : n < 16 ^ fuel) :
    (hexDigits fuel n).foldlM (fun value c => (hexValue c).map (value * 16 + ·)) 0 = some n := by
  have hvalue : ∀ d < 16, hexValue (Nat.digitChar d) = some d := by decide
  induction fuel generalizing n with
  | zero => simp_all [hexDigits]
  | succ fuel ih =>
    rw [hexDigits]
    split
    · simp_all
    · rw [List.foldlM_append, ih (by omega)]
      simp [hvalue _ (Nat.mod_lt n _), Nat.div_add_mod']

/-- The token of a lock is read back as its id. -/
theorem parseLock_lockUrn (lockId : UInt64) :
    parseLock (lockUrn lockId.toNat) = some lockId.toNat := by
  have hlt := lockId.toNat_lt
  have hfold := @foldlM_hexDigits 16 _ hlt
  have hne : hexDigits 16 lockId.toNat ≠ [] := by
    rw [hexDigits]
    split <;> simp
  obtain ⟨c, digits, hdigits⟩ := List.exists_cons_of_ne_nil hne
  rw [hdigits] at hfold
  -- a sign is no digit
  have hsign : c ≠ '+' := by
    rintro rfl
    cases hfold
  simp [parseLock, lockUrn, fromHex, hdigits, hsign, hfold, hlt]

/-- `Urn::try_extract_sync_id`. -/
def tryExtractSyncId (token : Text) : Option Text :=
  if davSync.isPrefixOf token then
    let id := token.drop davSync.length
    some ((splitOnce ':' id).elim id Prod.fst)
  else none

/-! ## The table -/

structure LockItem (D : Type) where
  lockId : ℕ
  owner : ℕ
  expires : ℕ
  depthInfinity : Bool
  exclusive : Bool
  ownerDav : Option D
  deriving DecidableEq

/-- `LockData`: the locks with their paths, in some order. -/
structure LockData (D : Type) where
  locks : List (Text × LockItem D)
  deriving DecidableEq

variable {D : Type}

/-- The paths above a path that is given backwards, from the deepest: what is before each
    separator. -/
def parentsOfReverse : Text → List Text
  | [] => []
  | '/' :: rest => rest.reverse :: parentsOfReverse rest
  | _ :: rest => parentsOfReverse rest

/-- The paths that `rsplit_once` gives one after the other. -/
def parents (path : Text) : List Text := parentsOfReverse path.reverse

namespace LockData

variable (self : LockData D)

def findLocks (now : ℕ) (resource : Text) (includeChildren : Bool) : List (Text × LockItem D) :=
  ((resource :: parents resource).flatMap fun resourcePart => self.locks.filter fun lock =>
    lock.1 = resourcePart ∧ lock.2.expires > now ∧
      (resource = resourcePart ∨ lock.2.depthInfinity)) ++
  if includeChildren then
    self.locks.filter fun lock => (resource ++ ['/']).isPrefixOf lock.1 ∧ lock.2.expires > now
  else []

/-- `remove_lock`, if there is such a lock. -/
def removeLock (lockId : ℕ) : Option (LockData D) :=
  if self.locks.any (·.2.lockId = lockId) then
    some ⟨self.locks.eraseP (·.2.lockId = lockId)⟩
  else none

def removeExpired (now : ℕ) : LockData D :=
  ⟨self.locks.filter (·.2.expires > now)⟩

end LockData

/-! ## Requests -/

inductive DavMethod where
  | get | put | post | delete | head | patch | propfind | proppatch | report | mkcol | mkcalendar
  | copy | move | lock | unlock | options | acl
  deriving DecidableEq

/-- The status codes of errors. -/
inductive StatusCode where
  | preconditionFailed | notModified | locked | conflict | forbidden | payloadTooLarge
  | tooManyRequests | badRequest
  deriving DecidableEq

/-- `BaseCondition`, as far as locks are concerned. -/
inductive BaseCondition where
  | lockTokenSubmitted (hrefs : List Text)
  | lockTokenMatchesRequestUri
  deriving DecidableEq

inductive DavError where
  | code (status : StatusCode)
  | condition (status : StatusCode) (condition : BaseCondition)
  deriving DecidableEq

inductive Condition where
  | stateToken (isNot : Bool) (token : Text)
  | eTag (isNot : Bool) (tag : Text)
  | exists (isNot : Bool)
  deriving DecidableEq

def Condition.isNoneMatch : Condition → Bool
  | stateToken _ _ => false
  | eTag isNot _ => isNot
  | .exists isNot => isNot

/-- `If`: conditions on a resource, or on the resource of the request. -/
structure If where
  resource : Option Text
  list : List Condition

/-- `RequestHeaders`, as far as locks are concerned. -/
structure RequestHeaders where
  baseUri : Text
  overwriteFail : Bool
  ifs : List If

structure ResourceState where
  accountId : ℕ
  collection : Collection
  documentId : Option ℕ
  etag : Option Text
  lockTokens : List Text
  syncToken : Option Text
  path : Text

/-- A resource of which nothing is known yet. -/
def ResourceState.new (accountId : ℕ) (collection : Collection) (path : Text) : ResourceState :=
  ⟨accountId, collection, none, none, [], none, path⟩

structure UnresolvedUri where
  collection : Collection
  accountId : Option ℕ
  resource : Option Text

/-- `u32::MAX`, which stands for a document that does not exist. -/
def noDocument : ℕ := 2 ^ 32 - 1

/-- What headers are evaluated with: the time, what a URI stands for, the collections of the user,
    the documents at paths, their tags, and the states and the locks of collections. -/
structure Env (D : Type) where
  now : ℕ
  validateUri : Text → Option UnresolvedUri
  hasAccess : ℕ → Collection → Bool
  documentAt : ℕ → Collection → Text → Option ℕ
  etagOf : ℕ → Collection → ℕ → Option Text
  syncTokenOf : ℕ → Collection → Text
  lockData : ℕ → Collection → Option (LockData D)

namespace Env

/-- The locks that are about a resource. -/
def findLocks (self : Env D) (resource : ResourceState) (includeChildren : Bool) :
    List (Text × LockItem D) :=
  match self.lockData resource.accountId resource.collection.mainCollection with
  | some lockData => lockData.findLocks self.now resource.path includeChildren
  | none => []

end Env

/-! ## Locks of resources that are written -/

/-- A condition is about a token. -/
def Condition.hasToken (token : Text) : Condition → Bool
  | .stateToken _ token' => token' = token
  | _ => false

variable (headers : RequestHeaders) (method : DavMethod)

/-- A lock token is submitted, for the locked resource if one is named. -/
def isSubmitted (lock : Text × LockItem D) : Bool :=
  headers.ifs.any fun cond =>
    (cond.resource.all fun uri =>
      lock.1.isSuffixOf (uri.reverse.dropWhile (· = '/')).reverse) &&
    cond.list.any (·.hasToken (lockUrn lock.2.lockId))

/-- The loop over the resources that are written. -/
def checkLocks (env : Env D) (headers : RequestHeaders) : List ResourceState → Except DavError Unit
  | [] => .ok ()
  | resource :: resources =>
    let locks := env.findLocks resource true
    -- a token that is submitted ends the loop over all resources
    if locks.any (isSubmitted headers) then .ok ()
    else if locks.isEmpty then checkLocks env headers resources
    else .error (.condition .locked
      (.lockTokenSubmitted (locks.map fun lock => headers.baseUri ++ ['/'] ++ lock.1)))

/-- The source of a copy is not written. -/
def written (resources : List ResourceState) : List ResourceState :=
  if method = .copy then resources.tail else resources

/-- The methods for which locks are checked. -/
def DavMethod.isChecked : Bool :=
  method ∉ [.get, .head, .lock, .unlock]

variable (env : Env D) (resources : List ResourceState)

def lockResponse (headers : RequestHeaders) (resources : List ResourceState)
    (method : DavMethod) : Except DavError Unit :=
  if method.isChecked then checkLocks env headers (written method resources) else .ok ()

/-! ## The `If` header -/

/-- The resource that a condition names. -/
def resolve (uri : Text) : Option ResourceState := do
  let resolved ← env.validateUri uri
  let path ← resolved.resource
  let accountId ← resolved.accountId
  let collection :=
    if resolved.collection ≠ .fileNode ∧ '/' ∈ path then
      resolved.collection.childCollection.getD resolved.collection
    else resolved.collection
  return .new accountId collection path

/-- The resources, and the place of the one that a condition is about. -/
def locate (cond : If) : List ResourceState × Option ℕ :=
  match cond.resource with
  | some uri =>
    match resolve env uri with
    | some resource =>
      match resources.findIdx? fun r => r.accountId = resource.accountId ∧
          r.collection = resource.collection ∧ r.path = resource.path with
      | some idx => (resources, some idx)
      | none =>
        if env.hasAccess resource.accountId resource.collection then
          (resources ++ [resource], some resources.length)
        else (resources, none)
    | none => (resources, none)
  | none => (resources, if resources.isEmpty then none else some 0)

/-- What is missing is found out, as far as the conditions ask for it. -/
def fill (list : List Condition) (resource : ResourceState) : ResourceState :=
  if resource.collection ≠ .none ∧
      (resource.etag.isNone ∨ resource.lockTokens.isEmpty ∨ resource.syncToken.isNone) then
    let needsSyncToken := list.any fun
      | .stateToken _ token => davSync.isPrefixOf token
      | _ => false
    let needsLockToken := list.any fun
      | .stateToken _ token => !davSync.isPrefixOf token
      | _ => false
    let needsEtag := list.any fun
      | .stateToken _ _ => false
      | _ => true
    let resource :=
      if needsEtag ∧ resource.etag.isNone then
        let documentId := resource.documentId.getD
          ((env.documentAt resource.accountId resource.collection resource.path).getD noDocument)
        { resource with
          documentId := some documentId
          etag :=
            if documentId ≠ noDocument then
              env.etagOf resource.accountId resource.collection documentId
            else none }
      else resource
    let resource :=
      if needsLockToken ∧ resource.lockTokens.isEmpty then
        { resource with
          lockTokens := (env.findLocks resource false).map fun lock => lockUrn lock.2.lockId }
      else resource
    if needsSyncToken ∧ resource.syncToken.isNone then
      { resource with syncToken := some (env.syncTokenOf resource.accountId resource.collection) }
    else resource
  else resource

def Condition.holds (resource : ResourceState) : Condition → Bool
  | .stateToken isNot token =>
    match tryExtractSyncId token with
    | some id =>
      ((resource.syncToken.bind tryExtractSyncId) = some id : Bool) ^^ isNot
    | none => resource.lockTokens.any (· = token) ^^ isNot
  | .eTag isNot tag => (resource.etag = some tag : Bool) ^^ isNot
  | .exists isNot => resource.etag.isSome ^^ isNot

/-- The loop over the `If` header: one of the lists of conditions holds. -/
def evaluateIfs (env : Env D) : List If → List ResourceState → Bool
  | [], _ => false
  | cond :: ifs, resources =>
    if cond.list.isEmpty then evaluateIfs env ifs resources
    else
      let located := locate env resources cond
      let state := (located.2.bind (located.1[·]?)).map (fill env cond.list)
      if cond.list.all (Condition.holds (state.getD (.new noDocument .none []))) then true
      else
        evaluateIfs env ifs <| match located.2, state with
          | some idx, some state => located.1.set idx state
          | _, _ => located.1

/-! ## Headers -/

/-- A resource must not be overwritten, and is there. -/
def overwriteFails (method : DavMethod) : Bool :=
  method ∈ [.copy, .move, .post, .put, .patch] ∧ headers.overwriteFail ∧
    resources.getLast?.any fun r => r.etag.isSome ∨ r.documentId.any (· ≠ noDocument)

def validateHeaders (headers : RequestHeaders) (resources : List ResourceState)
    (method : DavMethod) : Except DavError Unit :=
  if method ∈ [.get, .head] ∧ headers.ifs.isEmpty then .ok ()
  else if overwriteFails headers resources method then .error (.code .preconditionFailed)
  else if headers.ifs.isEmpty then lockResponse env headers resources method
  else if evaluateIfs env headers.ifs resources then lockResponse env headers resources method
  else
    .error (.code (if method ∈ [.get, .head] ∧
        headers.ifs.any (·.list.any Condition.isNoneMatch) then .notModified
      else .preconditionFailed))

end Inworkspace.Dav
